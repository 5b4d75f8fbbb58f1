import Aimv6.Debug.DebugQuery
import Aimv6.Support.ResumedSearch
import Mathlib.Data.Nat.Basic

/-! # The matches of repeated lookups

With the same `last` the lookups are a resumed search in the text lines of the
table. They enumerate the first block of matching lines; a match behind another
line is never reported, and a match with no line behind it ends in -1.
-/

namespace Aimv6.Debug

open Support

def lines (T : StabTable) : List Nat := (List.range T.entries.length).filter (lineAt T.entries)

/-- What the search for lines makes of a stab. -/
def shape (stab : Stab) : Bool × Bool × UInt32 := (isSource stab, isTextline stab, stab.nValue)

section Shape

variable {stabs stabs' : List Stab}

theorem shape_marked (stab : Stab) : shape (marked stab) = shape stab := by
  unfold marked
  cases hs : isSource stab with
  | true => rfl
  | false =>
      cases ht : isTextline stab with
      | true => rfl
      | false =>
          unfold shape
          rw [hs, ht]
          rfl

theorem lineAt_congr (h : stabs'.map shape = stabs.map shape) : lineAt stabs' = lineAt stabs := by
  have hshape : ∀ l : List Stab, lineAt l = fun i => ((l.map shape)[i]?).any fun s => s.2.1 := by
    intro l
    funext i
    unfold lineAt
    rw [List.getElem?_map]
    cases l[i]? <;> rfl
  rw [hshape, hshape, h]

theorem sourceBase_congr (h : stabs'.map shape = stabs.map shape) :
    sourceBase stabs' = sourceBase stabs := by
  have hshape : ∀ l : List Stab, sourceBase l =
      (((l.map shape).filter fun s => s.1).getLast?.map fun s =>
        FIX_INSTRUCTION_ADDR s.2.2).getD 0 := by
    intro l
    unfold sourceBase
    rw [List.filter_map, List.getLast?_map, Option.map_map]
    rfl
  rw [hshape, hshape, h]

theorem matchAt_congr (addr32 : UInt32) (h : stabs'.map shape = stabs.map shape) :
    matchAt addr32 stabs' = matchAt addr32 stabs := by
  have hshape : ∀ (l : List Stab) (i : Nat), matchAt addr32 l i = ((l.map shape)[i]?).any fun s =>
      s.2.1 && decide (sourceBase (l.take i) + s.2.2 = addr32) := by
    intro l i
    unfold matchAt
    rw [List.getElem?_map]
    cases l[i]? <;> rfl
  funext i
  have htake : (stabs'.take i).map shape = (stabs.take i).map shape := by
    rw [List.map_take, List.map_take, h]
  rw [hshape, hshape, h, sourceBase_congr htake]

end Shape

section Search

variable {T : StabTable} {addr32 : UInt32} {info : DebugInfo} {last i : Nat} {r : Lookup}

theorem Past.shape {entries : List Stab} (h : Past T addr32 last i entries) :
    entries.map shape = T.entries.map shape := by
  have hmarked : Debug.shape ∘ marked = Debug.shape := funext shape_marked
  rw [h.entries, List.map_append, List.map_map, hmarked, ← List.map_append, List.take_append_drop]

/-- A lookup leaves the lines and the matches of the table as they are. -/
theorem getDebugInfo_shape (lo32 : UInt64 → UInt32) (T : StabTable) (addr : UInt64)
    (info : DebugInfo) (last : Nat) :
    (getDebugInfo lo32 T addr info last).entries.map shape = T.entries.map shape := by
  rcases getDebugInfo_cases lo32 T addr info last with ⟨j, h⟩ | h
  · exact h.past.shape
  · exact h.past.shape

/-- The answer of a lookup is that of a search in the lines. -/
def Answers (T : StabTable) (last : Nat) (r : Lookup) : Found Nat → Prop
  | .hit i => r.ret = 1 ∧ r.last = T.address i
  | .left => r.ret = 0 ∧ r.last = last
  | .ended => r.ret = -1 ∧ r.last = last

theorem Answers.behind {f : Found Nat} (h : Answers T last r f) (stab : Stab) :
    Answers T last (r.behind stab) f := by
  cases f <;> exact h

theorem searchStabs_answers {k : Nat} (hk : i + k = T.entries.length) :
    Answers T last
      (searchStabs addr32 info last (T.address i) (localsAt addr32 (T.entries.take i))
        (T.entries.drop i))
      (search T.address (matchAt addr32 T.entries) last
        (localsAt addr32 (T.entries.take i)).found
        ((List.range' i k).filter (lineAt T.entries))) := by
  induction k generalizing i with
  | zero =>
      have hi : i = T.entries.length := hk
      rw [hi, List.drop_length]
      exact ⟨rfl, rfl⟩
  | succ k ih =>
      have hlt : i < T.entries.length := by omega
      have hget : T.entries[i]? = some T.entries[i] := List.getElem?_eq_getElem hlt
      have hnext := ih (i := i + 1) (by omega)
      obtain ⟨stab, hstab⟩ : ∃ stab, T.entries[i] = stab := ⟨_, rfl⟩
      obtain ⟨v, hv⟩ : ∃ v, localsAt addr32 (T.entries.take i) = v := ⟨_, rfl⟩
      rw [hstab] at hget
      rw [address_succ, take_succ_eq hget, localsAt_append, hv] at hnext
      rw [List.drop_eq_getElem_cons hlt, hstab, hv, List.range'_succ, List.filter_cons]
      have hline : lineAt T.entries i = isTextline stab := by
        unfold lineAt
        rw [hget]
        rfl
      have hmatch := @matchAt_eq stab T.entries addr32 i hget
      rw [hv] at hmatch
      rw [hline]
      cases ht : isTextline stab with
      | false =>
          have hfound : (v.past addr32 stab).found = v.found := by
            unfold Locals.past
            rw [ht]
            split <;> rfl
          rw [hfound] at hnext
          rw [searchStabs_past fun hc => absurd (ht.symm.trans hc) (by decide), if_neg (by decide)]
          exact hnext.behind _
      | true =>
          have hs := not_source_of_textline ht
          rw [ht, Bool.true_and] at hmatch
          rw [if_pos rfl, search, hmatch]
          by_cases hm : v.sourceAddr32 + stab.nValue = addr32
          · rw [if_pos (decide_eq_true hm)]
            have hfound : (v.past addr32 stab).found = true := by
              simp [Locals.past, hs, ht, hm]
            rw [hfound] at hnext
            by_cases hlast : last < T.address i
            · rw [if_pos hlast, searchStabs_stop ht (by rwa [if_pos hm]), if_pos hm]
              exact ⟨rfl, rfl⟩
            · rw [if_neg hlast, searchStabs_past fun _ => by rwa [if_pos hm]]
              exact hnext.behind _
          · rw [if_neg (by simpa using hm)]
            have hfound : (v.past addr32 stab).found = v.found := by
              simp [Locals.past, hs, ht, hm]
            rw [hfound] at hnext
            cases hf : v.found with
            | true =>
                rw [if_pos rfl, searchStabs_stop ht (by rwa [if_neg hm]), if_neg hm]
                exact ⟨rfl, rfl⟩
            | false =>
                rw [hf] at hnext
                rw [if_neg (by decide), searchStabs_past fun _ => by simp [hm, hf]]
                exact hnext.behind _

theorem getDebugInfo_answers (lo32 : UInt64 → UInt32) (T : StabTable) (addr : UInt64)
    (info : DebugInfo) (last : Nat) : Answers T last (getDebugInfo lo32 T addr info last)
      (search T.address (matchAt (FIX_INSTRUCTION_ADDR (lo32 addr)) T.entries) last false
        (lines T)) := by
  have h := @searchStabs_answers T (FIX_INSTRUCTION_ADDR (lo32 addr)) info last 0 T.entries.length
    (Nat.zero_add _)
  rw [← List.range_eq_range'] at h
  exact h

end Search

/-! ## Repeated lookups -/

/-- The value of the call that ends a search. -/
def retOf : Found Nat → Int
  | .hit _ => 1
  | .left => 0
  | .ended => -1

section Lookups

variable {lo32 : UInt64 → UInt32} {addr : UInt64} {T : StabTable}

theorem lines_after {r : Lookup} (h : r.entries.map shape = T.entries.map shape) :
    lines (T.after r) = lines T := by
  have hlen : r.entries.length = T.entries.length := by
    have := congrArg List.length h
    rwa [List.length_map, List.length_map] at this
  unfold lines
  rw [show (T.after r).entries = r.entries from rfl, hlen, lineAt_congr h]

theorem lookups_eq (fuel : Nat) (T : StabTable) (info : DebugInfo) (last : Nat) :
    lookups lo32 addr fuel T info last =
      (enumerate T.address (matchAt (FIX_INSTRUCTION_ADDR (lo32 addr)) T.entries) (lines T) fuel
        last).map fun q => (q.1.map T.address, retOf q.2) := by
  induction fuel generalizing T info last with
  | zero => rfl
  | succ fuel ih =>
      obtain ⟨r, hr⟩ : ∃ r, getDebugInfo lo32 T addr info last = r := ⟨_, rfl⟩
      have hshape := getDebugInfo_shape lo32 T addr info last
      have hanswer := getDebugInfo_answers lo32 T addr info last
      rw [hr] at hshape hanswer
      rw [lookups, enumerate, hr]
      cases hs : search T.address (matchAt (FIX_INSTRUCTION_ADDR (lo32 addr)) T.entries) last false
          (lines T) with
      | hit i =>
          rw [hs] at hanswer
          obtain ⟨hret, hlast⟩ : r.ret = 1 ∧ r.last = T.address i := hanswer
          rw [if_pos hret, ih, lines_after hshape, hlast, Option.map_map, Option.map_map]
          show Option.map _ (enumerate T.address (matchAt _ r.entries) _ _ _) = _
          rw [matchAt_congr _ hshape]
          rfl
      | left =>
          rw [hs] at hanswer
          obtain ⟨hret, -⟩ : r.ret = 0 ∧ r.last = last := hanswer
          rw [hret]
          rfl
      | ended =>
          rw [hs] at hanswer
          obtain ⟨hret, -⟩ : r.ret = -1 ∧ r.last = last := hanswer
          rw [hret]
          rfl

theorem address_lt {i j : Nat} (h : i < j) : T.address i < T.address j := by
  unfold StabTable.address SIZEOF_STAB
  omega

theorem address_injective (T : StabTable) : Function.Injective T.address := by
  intro i j h
  unfold StabTable.address SIZEOF_STAB at h
  omega

theorem lines_sorted (T : StabTable) : (lines T).Pairwise fun i j => T.address i < T.address j := by
  unfold lines
  exact (List.pairwise_lt_range.filter _).imp address_lt

/-- From `last = NULL` on the lookups report the matching lines in the order of the table, each once;
the last call returns 0, or a negative value where there is no match. -/
def EnumeratesAll (lo32 : UInt64 → UInt32) (T : StabTable) (addr : UInt64) (info : DebugInfo) : Prop :=
  ∃ fuel final, lookups lo32 addr fuel T info 0 =
      some (((lines T).filter (matchAt (FIX_INSTRUCTION_ADDR (lo32 addr)) T.entries)).map T.address,
        final) ∧
    if (lines T).any (matchAt (FIX_INSTRUCTION_ADDR (lo32 addr)) T.entries) then final = 0
    else final < 0

/-- Lookups enumerate all matches exactly where no line matches, or the matching lines follow one
another and one more line comes behind them. -/
theorem enumerates_all_iff (lo32 : UInt64 → UInt32) (T : StabTable) (addr : UInt64)
    (info : DebugInfo) : EnumeratesAll lo32 T addr info ↔
      (∀ i ∈ lines T, matchAt (FIX_INSTRUCTION_ADDR (lo32 addr)) T.entries i = false) ∨
        OneBlock (matchAt (FIX_INSTRUCTION_ADDR (lo32 addr)) T.entries) (lines T) := by
  have hfront : ∀ i ∈ lines T, 0 < T.address i := fun i _ =>
    Nat.lt_of_lt_of_le T.base_pos (Nat.le_add_right _ _)
  rw [← enumerate_all_iff hfront (lines_sorted T)]
  unfold EnumeratesAll
  simp only [lookups_eq]
  obtain ⟨hit, hhit⟩ : ∃ hit, hit = matchAt (FIX_INSTRUCTION_ADDR (lo32 addr)) T.entries := ⟨_, rfl⟩
  rw [← hhit]
  constructor
  · rintro ⟨fuel, final, hrun, hfinal⟩
    obtain ⟨⟨found, last⟩, hq, heq⟩ := Option.map_eq_some_iff.1 hrun
    obtain ⟨hlist, hret⟩ := Prod.mk.inj heq
    obtain rfl : found = (lines T).filter hit :=
      List.map_injective_iff.2 (address_injective T) hlist
    refine ⟨fuel, ?_⟩
    rw [hq, hitsOf]
    subst hret
    cases hany : (lines T).any hit with
    | true =>
        rw [hany, if_pos rfl] at hfinal
        cases last with
        | left => rfl
        | hit i => exact absurd hfinal (by simp [retOf])
        | ended => exact absurd hfinal (by simp [retOf])
    | false =>
        rw [hany, if_neg (by decide)] at hfinal
        cases last with
        | ended => rfl
        | hit i => exact absurd hfinal (by simp [retOf])
        | left => exact absurd hfinal (by simp [retOf])
  · rintro ⟨fuel, hrun⟩
    refine ⟨fuel, _, by rw [hrun]; rfl, ?_⟩
    rw [hitsOf]
    cases (lines T).any hit with
    | true => rfl
    | false => exact (by decide : retOf (.ended : Found Nat) < 0)

theorem lookups_unique {info : DebugInfo} {last m n : Nat} {q q' : List Nat × Int}
    (h : lookups lo32 addr m T info last = some q) (h' : lookups lo32 addr n T info last = some q') :
    q = q' := by
  rw [lookups_eq] at h h'
  obtain ⟨r, hr, rfl⟩ := Option.map_eq_some_iff.1 h
  obtain ⟨r', hr', rfl⟩ := Option.map_eq_some_iff.1 h'
  rw [enumerate_unique hr hr']

end Lookups

theorem splitBase_pos : 0 < 0x1000 := by decide

/-- Two lines of an instruction with another line between them. -/
def splitTable : StabTable :=
  ⟨0x1000, [⟨1, N_SO, 0, 2, 0x8000⟩, ⟨5, N_FUN, 0, 0, 0x8000⟩, ⟨0, N_SLINE, 0, 7, 4⟩,
    ⟨0, N_SLINE, 0, 8, 8⟩, ⟨0, N_SLINE, 0, 9, 4⟩], splitBase_pos⟩

/-- The second line of the instruction is not found. At the end of the table the only line of another
instruction is found, and the search ends in -1. -/
theorem enumerates_all_fails :
    lookups UInt64.toUInt32 0x8004 2 splitTable ⟨none, none, 0, 0⟩ 0 = some ([0x1018], 0) ∧
    lookups UInt64.toUInt32 0x8004 2 sampleTable ⟨none, none, 0, 0⟩ 0 = some ([0x1030], -1) ∧
    ¬ EnumeratesAll UInt64.toUInt32 splitTable 0x8004 ⟨none, none, 0, 0⟩ ∧
    ¬ EnumeratesAll UInt64.toUInt32 sampleTable 0x8004 ⟨none, none, 0, 0⟩ := by
  have hsplit : lookups UInt64.toUInt32 0x8004 2 splitTable ⟨none, none, 0, 0⟩ 0 =
      some ([0x1018], 0) := by decide
  have hend : lookups UInt64.toUInt32 0x8004 2 sampleTable ⟨none, none, 0, 0⟩ 0 =
      some ([0x1030], -1) := by decide
  refine ⟨hsplit, hend, ?_, ?_⟩
  · rintro ⟨fuel, final, hrun, -⟩
    have hlist := (Prod.mk.inj (lookups_unique hsplit hrun)).1
    exact absurd hlist (by decide)
  · rintro ⟨fuel, final, hrun, hfinal⟩
    rw [if_pos (by decide), ← (Prod.mk.inj (lookups_unique hend hrun)).2] at hfinal
    exact absurd hfinal (by decide)

end Aimv6.Debug
