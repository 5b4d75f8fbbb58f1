import Aimv6.Drivers.SdBlocks
import Aimv6.Fs.FsImage

/-! # The card as a store of blocks

The register level behind the block operations of the file system: transfers
that return no error do to memory and disk, as the kernel sees them, what
`sdReadBlocks` and `sdWriteBlocks` say; a load is a read for each page.
-/

namespace Aimv6.Drivers

open Support Fs

variable {j : SdJob} {s : Memory × Memory} {n u : Nat}

/-! ## Routes -/

theorem route_flat (hresume : j.resume = fun va next => (va, next)) (hn : j.pa + n < 4294967296) :
    j.route n = (j.va, j.pa + n) := by
  induction n with
  | zero => rfl
  | succ n ih =>
      rw [SdJob.route, ih (by omega), hresume]
      dsimp only
      rw [add32_of_lt (by omega), ite_self]
      rfl

theorem moves_read (hreads : j.reads = true) (hroute : ∀ i < n, (j.route i).2 = j.pa + i) :
    j.moves s n = (storeBytes j.pa n (fun i => s.2 (j.start + i)) s.1, s.2) := by
  induction n with
  | zero =>
      refine Prod.ext (funext fun b => ?_) rfl
      exact (storeBytes_out (by omega)).symm
  | succ n ih =>
      rw [SdJob.moves, ih fun i hi => hroute i (by omega), if_pos hreads, hroute n (Nat.lt_succ_self n),
        storeBytes_succ]

theorem route_wrap (hresume : j.resume = fun va next => (va, next)) (hpa : j.pa < 4294967296) :
    j.route n = (j.va, (j.pa + n) % 4294967296) := by
  induction n with
  | zero =>
      rw [Nat.add_zero, Nat.mod_eq_of_lt hpa]
      rfl
  | succ n ih =>
      have hnext : add32 ((j.pa + n) % 4294967296) 1 = (j.pa + (n + 1)) % 4294967296 := by
        unfold add32
        omega
      rw [SdJob.route, ih, hresume]
      dsimp only
      rw [hnext, ite_self]

theorem moves_wrap (hreads : j.reads = true) (hpa : j.pa < 4294967296) (hn : n ≤ 4294967296)
    (hroute : ∀ i < n, (j.route i).2 = (j.pa + i) % 4294967296) :
    j.moves s n = (fun b => if b < 4294967296 ∧ sub32 b j.pa < n then s.2 (j.start + sub32 b j.pa)
      else s.1 b, s.2) := by
  induction n with
  | zero =>
      refine Prod.ext (funext fun b => ?_) rfl
      exact (if_neg fun h => absurd h.2 (Nat.not_lt_zero _)).symm
  | succ n ih =>
      rw [SdJob.moves, ih (by omega) fun i hi => hroute i (by omega), if_pos hreads,
        hroute n (Nat.lt_succ_self n)]
      refine Prod.ext (funext fun b => ?_) rfl
      dsimp only
      by_cases hb : b = (j.pa + n) % 4294967296
      · have hsub : sub32 b j.pa = n := by
          unfold sub32
          omega
        rw [hsub, if_pos ⟨by omega, Nat.lt_succ_self n⟩, hb]
        exact if_pos rfl
      · have hsub : b < 4294967296 → sub32 b j.pa ≠ n := by
          unfold sub32
          omega
        rw [store8_apply_of_ne hb]
        by_cases hin : b < 4294967296 ∧ sub32 b j.pa < n
        · rw [if_pos hin, if_pos ⟨hin.1, by omega⟩]
        · rw [if_neg hin, if_neg fun h => hin ⟨h.1, by have := hsub h.1; omega⟩]

theorem moves_write (hreads : j.reads = false) (hroute : ∀ i < n, (j.route i).2 = j.pa + i) :
    j.moves s n = (s.1, storeBytes j.start n (fun i => s.1 (j.pa + i)) s.2) := by
  induction n with
  | zero =>
      refine Prod.ext rfl (funext fun b => ?_)
      exact (storeBytes_out (by omega)).symm
  | succ n ih =>
      rw [SdJob.moves, ih fun i hi => hroute i (by omega), if_neg (by simp [hreads]),
        hroute n (Nat.lt_succ_self n), storeBytes_succ]

theorem route_load {walk : Nat → Nat} {va count offset : Nat}
    (hwalk : ∀ a, walk a % 4096 = 0 ∧ walk a < 4294967296) :
    ((SdTransfer.load walk va count offset).job u).route n =
      (va + 4096 * (n / 4096), walk (va + 4096 * (n / 4096)) + n % 4096) := by
  induction n with
  | zero => rfl
  | succ n ih =>
      obtain ⟨hpage, hlt⟩ := hwalk (va + 4096 * (n / 4096))
      have hmod : n % 4096 < 4096 := Nat.mod_lt _ (by decide)
      have hresume : ((SdTransfer.load walk va count offset).job u).resume = fun va next =>
          if next % 4096 = 0 then (va + 0x1000, walk (va + 0x1000)) else (va, next) := rfl
      rw [SdJob.route, ih, hresume]
      dsimp only
      generalize hw : walk (va + 4096 * (n / 4096)) = w at hpage hlt
      have hnext : add32 (w + n % 4096) 1 % 4096 = (n + 1) % 4096 := by
        unfold add32
        omega
      rw [hnext]
      by_cases hend : (n + 1) % 4096 = 0
      · have hdiv : (n + 1) / 4096 = n / 4096 + 1 := by omega
        rw [if_pos hend, if_pos hend, hend, hdiv, Nat.mul_add, ← Nat.add_assoc]
        rfl
      · have hdiv : (n + 1) / 4096 = n / 4096 := by omega
        have hadd : add32 (w + n % 4096) 1 = w + (n + 1) % 4096 := by
          rw [add32_of_lt (by omega)]
          omega
        rw [if_neg hend, hdiv, hw, hadd]

theorem moves_add {j' : SdJob} {a b : Nat} (hreads : j'.reads = j.reads)
    (hstart : j'.start = j.start + a) (hroute : ∀ i < b, (j'.route i).2 = (j.route (a + i)).2) :
    j.moves s (a + b) = j'.moves (j.moves s a) b := by
  induction b with
  | zero => rfl
  | succ b ih =>
      have hfirst := ih fun i hi => hroute i (by omega)
      show j.moves s (a + b + 1) = _
      rw [SdJob.moves, SdJob.moves, hfirst, hreads, hstart, hroute b (Nat.lt_succ_self b),
        Nat.add_assoc]

/-! ## Memory and disk as the kernel sees them -/

/-- Memory lies at its kernel addresses, and the disk consists of blocks. -/
structure Seen (m : Memory) (disk : Nat → Block) (s : Memory × Memory) : Prop where
  mem : ∀ p < 2147483648, m (P2V p) = s.1 p
  disk : ∀ t k, disk t k = s.2 (512 * t + k)

def loadPages (disk : Nat → Block) (walk : Nat → Nat) (va count sector : Nat) : Nat → Memory → Memory
  | 0, m => m
  | n + 1, m => sdReadBlocks disk (walk (va + 4096 * n)) (min 8 (count - 8 * n)) (sector + 8 * n)
      (loadPages disk walk va count sector n m)

namespace SdTransfer

def apply : SdTransfer → Memory × (Nat → Block) → Memory × (Nat → Block)
  | read pa count sector, s => (sdReadBlocks s.2 pa count sector s.1, s.2)
  | write pa count sector, s => (s.1, sdWriteBlocks s.1 pa count sector s.2)
  | load walk va count sector, s => (loadPages s.2 walk va count sector ((count + 7) / 8) s.1, s.2)

def Fits : SdTransfer → Prop
  | read pa count _ => pa + 512 * count ≤ 2147483648
  | write pa count _ => pa + 512 * count ≤ 2147483648
  | load walk _ _ _ => ∀ a, walk a % 4096 = 0 ∧ walk a + 4096 ≤ 2147483648

end SdTransfer

variable {m : Memory} {disk : Nat → Block} {pa count sector : Nat}

theorem Seen.read (h : Seen m disk s) (hpa : pa + 512 * count ≤ 2147483648) :
    Seen (sdReadBlocks disk pa count sector m) disk
      (storeBytes pa (512 * count) (fun i => s.2 (sector * 512 + i)) s.1, s.2) := by
  refine ⟨fun p hp => ?_, h.disk⟩
  dsimp only
  unfold sdReadBlocks
  rw [P2V_of_lt hp]
  by_cases hin : pa ≤ p ∧ p < pa + 512 * count
  · have hbase : p + 2147483648 - (pa + 2147483648) = p - pa := by omega
    have hbyte : 512 * (sector + (p - pa) / 512) + (p - pa) % 512 = sector * 512 + (p - pa) := by omega
    rw [P2V_of_lt (by omega), if_pos (by omega), storeBytes_in hin.1 hin.2, hbase, h.disk, ← hbyte]
    rfl
  · have hout : ¬(P2V pa ≤ p + 2147483648 ∧ p + 2147483648 < P2V pa + 512 * count) := by
      by_cases hlt : pa < 2147483648
      · rw [P2V_of_lt hlt]
        omega
      · omega
    have hbyte : storeBytes pa (512 * count) (fun i => s.2 (sector * 512 + i)) s.1 p = s.1 p :=
      storeBytes_out (by omega)
    rw [if_neg hout, hbyte, ← P2V_of_lt hp]
    exact h.mem p hp

theorem Seen.write (h : Seen m disk s) (hpa : pa + 512 * count ≤ 2147483648) :
    Seen m (sdWriteBlocks m pa count sector disk)
      (s.1, storeBytes (sector * 512) (512 * count) (fun i => s.1 (pa + i)) s.2) := by
  refine ⟨h.mem, fun t k => ?_⟩
  have hk := k.isLt
  unfold sdWriteBlocks
  by_cases hin : sector ≤ t ∧ t < sector + count
  · have haddr : P2V pa + 512 * (t - sector) + k = P2V (pa + (512 * t + k - sector * 512)) := by
      rw [P2V_of_lt (by omega), P2V_of_lt (by omega)]
      omega
    have hbyte : storeBytes (sector * 512) (512 * count) (fun i => s.1 (pa + i)) s.2 (512 * t + k) =
        s.1 (pa + (512 * t + k - sector * 512)) := storeBytes_in (by omega) (by omega)
    rw [if_pos hin]
    dsimp only
    rw [hbyte, ← h.mem _ (by omega), ← haddr]
    rfl
  · have hbyte : storeBytes (sector * 512) (512 * count) (fun i => s.1 (pa + i)) s.2 (512 * t + k) =
        s.2 (512 * t + k) := storeBytes_out (by omega)
    rw [if_neg hin]
    dsimp only
    rw [hbyte]
    exact h.disk t k

theorem moves_readJob (hpa : pa + 512 * count ≤ 4294967296) :
    ((SdTransfer.read pa count sector).job u).moves s (512 * count) =
      (storeBytes pa (512 * count) (fun i => s.2 (sector * u + i)) s.1, s.2) :=
  moves_read rfl fun i hi => congrArg Prod.snd (route_flat rfl (show pa + i < 4294967296 by omega))

theorem moves_writeJob (hpa : pa + 512 * count ≤ 4294967296) :
    ((SdTransfer.write pa count sector).job u).moves s (512 * count) =
      (s.1, storeBytes (sector * u) (512 * count) (fun i => s.1 (pa + i)) s.2) :=
  moves_write rfl fun i hi => congrArg Prod.snd (route_flat rfl (show pa + i < 4294967296 by omega))

theorem Seen.load {walk : Nat → Nat} {va : Nat} (h : Seen m disk s)
    (hwalk : ∀ a, walk a % 4096 = 0 ∧ walk a + 4096 ≤ 2147483648) (hn : 8 * n ≤ count + 7) :
    Seen (loadPages disk walk va count sector n m) disk
      (((SdTransfer.load walk va count sector).job 512).moves s (min (512 * count) (4096 * n))) := by
  induction n with
  | zero =>
      rw [Nat.mul_zero, Nat.min_zero]
      exact h
  | succ n ih =>
      have hfirst : min (512 * count) (4096 * n) = 4096 * n := by omega
      have hboth : min (512 * count) (4096 * (n + 1)) = 4096 * n + 512 * min 8 (count - 8 * n) := by omega
      have hseen := ih (by omega)
      have hpage : walk (va + 4096 * n) + 512 * min 8 (count - 8 * n) ≤ 2147483648 := by
        have hframe := (hwalk (va + 4096 * n)).2
        omega
      have hmoves : ((SdTransfer.load walk va count sector).job 512).moves s
          (4096 * n + 512 * min 8 (count - 8 * n)) =
          ((SdTransfer.read (walk (va + 4096 * n)) (min 8 (count - 8 * n)) (sector + 8 * n)).job
            512).moves (((SdTransfer.load walk va count sector).job 512).moves s (4096 * n))
            (512 * min 8 (count - 8 * n)) := by
        refine moves_add rfl ?_ fun i hi => ?_
        · show (sector + 8 * n) * 512 = sector * 512 + 4096 * n
          omega
        · have hdiv : (4096 * n + i) / 4096 = n := by omega
          have hmod : (4096 * n + i) % 4096 = i := by omega
          have hroute := @route_load (4096 * n + i) 512 walk va count sector fun a => ⟨(hwalk a).1, by have := (hwalk a).2; omega⟩
          have hflat : (((SdTransfer.read (walk (va + 4096 * n)) (min 8 (count - 8 * n))
              (sector + 8 * n)).job 512).route i).2 = walk (va + 4096 * n) + i :=
            congrArg Prod.snd (route_flat rfl (show walk (va + 4096 * n) + i < 4294967296 by omega))
          rw [hroute, hdiv, hmod, hflat]
      rw [hfirst] at hseen
      rw [hboth, loadPages, hmoves, moves_readJob (by omega)]
      exact hseen.read hpage

theorem Seen.apply {k : SdTransfer} (h : Seen m disk s) (hk : k.Fits) :
    Seen (k.apply (m, disk)).1 (k.apply (m, disk)).2 ((k.job 512).moves s (k.job 512).total) := by
  cases k with
  | read pa count sector =>
      have hpa : pa + 512 * count ≤ 2147483648 := hk
      have htotal : ((SdTransfer.read pa count sector).job 512).total = 512 * count := rfl
      rw [htotal, moves_readJob (by omega)]
      simp only [SdTransfer.apply]
      exact h.read hpa
  | write pa count sector =>
      have hpa : pa + 512 * count ≤ 2147483648 := hk
      have htotal : ((SdTransfer.write pa count sector).job 512).total = 512 * count := rfl
      rw [htotal, moves_writeJob (by omega)]
      simp only [SdTransfer.apply]
      exact h.write hpa
  | load walk va count sector =>
      have hall : 512 * count = min (512 * count) (4096 * ((count + 7) / 8)) := by omega
      have hload := @Seen.load s ((count + 7) / 8) m disk count sector walk va h hk (by omega)
      rw [← hall] at hload
      simp only [SdTransfer.apply]
      exact hload

theorem Served.seen {ks : List SdTransfer} {rets : List Int} {s' : Memory × Memory}
    (hserved : Served 512 ks rets s s') (hks : ∀ k ∈ ks, k.Fits) (hrets : ∀ ret ∈ rets, 0 ≤ ret)
    (h : Seen m disk s) :
    Seen (ks.foldl (fun s k => k.apply s) (m, disk)).1 (ks.foldl (fun s k => k.apply s) (m, disk)).2
      s' := by
  induction hserved generalizing m disk with
  | nil s => exact h
  | cons hn hnonpos hall hrest ih =>
      have hret := le_antisymm hnonpos (hrets _ (List.mem_cons_self ..))
      rw [hall hret] at ih
      exact ih (fun k hk => hks k (List.mem_cons_of_mem _ hk))
        (fun r hr => hrets r (List.mem_cons_of_mem _ hr)) (h.apply (hks _ (List.mem_cons_self ..)))

/-- Transfers that return no error do to memory and disk, as the kernel sees them, what the
operations of the file system do one after another. -/
theorem transfers_refine_blocks {polls : Nat} {q q' : SdController} {ks : List SdTransfer}
    {rets : List Int} (hq : q.Ready 512) (hseen : Seen m disk q.image) (hks : ∀ k ∈ ks, k.Fits)
    {es : List (Turn SdMove)}
    (hrun : run sdController.step (sdTransfers polls ks, q) es = some (.done rets, q'))
    (hrets : ∀ ret ∈ rets, 0 ≤ ret) :
    Seen (ks.foldl (fun s k => k.apply s) (m, disk)).1 (ks.foldl (fun s k => k.apply s) (m, disk)).2
      q'.image :=
  (((sdTransfers_holds hq).run hrun).2 rets rfl).2.seen hks hrets hseen

/-- Sector 7 is read to `0x2000`. -/
theorem transfers_refine_blocks_sample : ∃ q' : SdController,
    run sdController.step (sdTransfers 2 [.read 0x2000 1 7],
      SdController.fresh (fun _ => 0) fun _ => 7)
      (SdController.turns 512 ++ [.own .complete, .access SD_INTR_TC, .access 0]) =
      some (.done [0], q') ∧
    Seen (sdReadBlocks (fun _ _ => 7) 0x2000 1 7 fun _ => 0) (fun _ _ => 7) q'.image := by
  obtain ⟨q', hrun⟩ := Driver.run_result sdController
    (sdTransfers 2 [.read 0x2000 1 7], SdController.fresh (fun _ => 0) fun _ => 7)
    (SdController.turns 512 ++ [.own .complete, .access SD_INTR_TC, .access 0]) (a := [0])
    (by decide +kernel)
  have hfits : ∀ k ∈ [SdTransfer.read 0x2000 1 7], k.Fits := by
    intro k hk
    obtain rfl := List.mem_singleton.1 hk
    show 0x2000 + 512 * 1 ≤ 2147483648
    decide
  have hseen := transfers_refine_blocks ⟨rfl, rfl, rfl⟩
    (show Seen (fun _ => 0) (fun _ _ => 7) _ from ⟨fun p _ => rfl, fun t k => rfl⟩) hfits hrun (by simp)
  simp only [List.foldl_cons, List.foldl_nil, SdTransfer.apply] at hseen
  exact ⟨q', hrun, hseen⟩

/-! ## What is written can be read -/

/-- The transfer does not write to these bytes of the card. -/
def SdTransfer.Spares (u start len : Nat) : SdTransfer → Prop
  | write _ count offset => offset * u + 512 * count ≤ start ∨ start + len ≤ offset * u
  | _ => True

theorem moves_card {b : Nat} (h : j.reads = true ∨ b < j.start ∨ j.start + n ≤ b) :
    (j.moves s n).2 b = s.2 b := by
  induction n with
  | zero => rfl
  | succ n ih =>
      rw [SdJob.moves]
      by_cases hreads : j.reads = true
      · rw [if_pos hreads]
        exact ih (Or.inl hreads)
      · have hout := h.resolve_left hreads
        rw [if_neg hreads]
        exact (store8_apply_of_ne (by omega)).trans (ih (by omega))

theorem Served.append {ks ks' : List SdTransfer} {rets : List Int} {s' : Memory × Memory}
    (h : Served u (ks ++ ks') rets s s') : ∃ rets₁ rets₂ s₁, rets = rets₁ ++ rets₂ ∧
      Served u ks rets₁ s s₁ ∧ Served u ks' rets₂ s₁ s' := by
  induction ks generalizing rets s with
  | nil => exact ⟨[], rets, s, rfl, .nil s, h⟩
  | cons k ks ih =>
      cases h with
      | cons hn hnonpos hall h =>
          obtain ⟨rets₁, rets₂, s₁, rfl, h₁, h₂⟩ := ih h
          exact ⟨_ :: rets₁, rets₂, s₁, rfl, .cons hn hnonpos hall h₁, h₂⟩

theorem Served.card {ks : List SdTransfer} {rets : List Int} {s' : Memory × Memory} {start len b : Nat}
    (h : Served u ks rets s s') (hks : ∀ k ∈ ks, k.Spares u start len) (hb : start ≤ b ∧ b < start + len) :
    s'.2 b = s.2 b := by
  induction h with
  | nil s => rfl
  | @cons k ks ret rets s s' n hn hnonpos hall h ih =>
      rw [ih fun k hk => hks k (List.mem_cons_of_mem _ hk)]
      refine moves_card ?_
      have hspares := hks k (List.mem_cons_self ..)
      cases k with
      | read pa count offset => exact Or.inl rfl
      | load walk va count offset => exact Or.inl rfl
      | write pa count offset =>
          have hn' : n ≤ 512 * count := hn
          have hout : offset * u + 512 * count ≤ start ∨ start + len ≤ offset * u := hspares
          have hstart : ((SdTransfer.write pa count offset).job u).start = offset * u := rfl
          rw [hstart]
          omega

/-- What has been written to the card is read from it, whatever transfers come in between that do not
write there and whether they succeed or fail. -/
theorem sectors_read_back {polls pa' : Nat} {q q' : SdController} {ks : List SdTransfer}
    {rets : List Int} (hq : q.Ready u) (hpa : pa + 512 * count ≤ 4294967296)
    (hpa' : pa' + 512 * count ≤ 4294967296)
    (hks : ∀ k ∈ ks, k.Spares u (sector * u) (512 * count)) {es : List (Turn SdMove)}
    (hrun : run sdController.step (sdTransfers polls
      (.write pa count sector :: (ks ++ [.read pa' count sector])), q) es = some (.done rets, q'))
    (hfirst : rets.head? = some 0) (hlast : rets.getLast? = some 0) {i : Nat} (hi : i < 512 * count) :
    q'.mem (pa' + i) = q.mem (pa + i) := by
  have hserved := (((sdTransfers_holds hq).run hrun).2 rets rfl).2
  cases hserved with
  | @cons _ _ ret rets _ _ n hn hnonpos hall hserved =>
      have hret : ret = 0 := Option.some.inj hfirst
      rw [hall hret] at hserved
      obtain ⟨rets₁, rets₂, s₁, rfl, hbetween, hread⟩ := hserved.append
      cases hread with
      | @cons _ _ ret' _ _ _ n' hn' hnonpos' hall' hnil =>
          generalize hs' : q'.image = s' at hnil
          cases hnil
          have hret' : ret' = 0 := by
            rw [← List.cons_append, List.getLast?_concat] at hlast
            exact Option.some.inj hlast
          have hwritten : ((SdTransfer.write pa count sector).job u).moves q.image (512 * count) =
              (q.mem, storeBytes (sector * u) (512 * count) (fun i => q.mem (pa + i)) q.card) :=
            moves_writeJob hpa
          have htotal : n' = 512 * count := hall' hret'
          rw [htotal, moves_readJob hpa'] at hs'
          have hmem : q'.mem (pa' + i) = s₁.2 (sector * u + i) := by
            have hfst : q'.mem = storeBytes pa' (512 * count) (fun i => s₁.2 (sector * u + i)) s₁.1 :=
              congrArg Prod.fst hs'
            rw [hfst, storeBytes_in (by omega) (by omega), Nat.add_sub_cancel_left]
          have hcard := hbetween.card hks (b := sector * u + i) (by omega)
          have hstored : (((SdTransfer.write pa count sector).job u).moves q.image
              (512 * count)).2 (sector * u + i) = q.mem (pa + i) := by
            rw [hwritten]
            dsimp only
            rw [storeBytes_in (by omega) (by omega), Nat.add_sub_cancel_left]
          rw [hmem, hcard]
          exact hstored

/-- The block at `0x2000` goes to sector 7, and from there to `0x3000`. -/
theorem sectors_read_back_sample : ∃ q' : SdController,
    run sdController.step (sdTransfers 2 (.write 0x2000 1 7 :: ([] ++ [.read 0x3000 1 7])),
      SdController.fresh (fun a => UInt8.ofNat a) fun _ => 0)
      (SdController.turns 512 ++ [.own .complete, .access SD_INTR_TC, .access 0] ++
        SdController.turns 512 ++ [.own .complete, .access SD_INTR_TC, .access 0]) =
      some (.done [0, 0], q') ∧
    q'.mem (0x3000 + 5) = UInt8.ofNat (0x2000 + 5) := by
  obtain ⟨q', hrun⟩ := Driver.run_result sdController
    (sdTransfers 2 (.write 0x2000 1 7 :: ([] ++ [.read 0x3000 1 7])),
      SdController.fresh (fun a => UInt8.ofNat a) fun _ => 0)
    (SdController.turns 512 ++ [.own .complete, .access SD_INTR_TC, .access 0] ++
      SdController.turns 512 ++ [.own .complete, .access SD_INTR_TC, .access 0]) (a := [0, 0])
    (by decide +kernel)
  exact ⟨q', hrun, sectors_read_back ⟨rfl, rfl, rfl⟩ (by decide) (by decide)
    (fun k hk => absurd hk List.not_mem_nil) hrun rfl rfl (by decide)⟩

end Aimv6.Drivers
