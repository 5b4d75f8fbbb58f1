import Aimv6.Mm.Pages
import Aimv6.Support.Extents

/-! # The free list in memory

`FreeList s l` says that the intrusive list headed by `farea_head` stores the
extents `l`, in this order. Splitting, unlinking, linking in and absorbing an
area each have one lemma, stated on lists; no later proof reads a header word.
-/

namespace Aimv6.Mm

open Support

/-- The managed physical memory, `[0x800000, 0x1f000000)`. -/
def space : Extent := ⟨0x800000, 0x1e800000⟩

/-- Whole pages inside the managed memory. -/
structure Paged (e : Extent) : Prop where
  start_aligned : e.start % 4096 = 0
  size_aligned : e.size % 4096 = 0
  lo : 8388608 ≤ e.start
  hi : e.fin ≤ 520093696

/-- The address of the header of a free extent. -/
def node (e : Extent) : Nat := P2V e.start

structure FreeList (s : State) (l : List Extent) : Prop where
  paged : ∀ e ∈ l, Paged e
  links : Chain s.areaNext s.fareaHead (l.map node)
  sizes : ∀ e ∈ l, s.areaSize (node e) = e.size

/-- The free list stores exactly the separated extents `l`. -/
structure Represents (s : State) (l : List Extent) : Prop extends FreeList s l where
  separated : Separated l

theorem Paged.node_eq {e : Extent} (h : Paged e) : node e = e.start + 2147483648 := by
  have := h.hi
  unfold Extent.fin at this
  exact P2V_of_lt (by omega)

theorem Paged.V2P_node {e : Extent} (h : Paged e) : V2P (node e) = e.start := by
  have := h.hi
  unfold Extent.fin at this
  exact V2P_P2V (by omega)

theorem Paged.add32_node {e : Extent} (he : Paged e) {n : Nat} (m : Nat)
    (hq : Paged ⟨e.start + n, m⟩) : add32 (node e) n = node ⟨e.start + n, m⟩ := by
  have hhi := hq.hi
  rw [Extent.fin] at hhi
  simp only at hhi
  rw [hq.node_eq, he.node_eq, add32_of_lt (by omega)]
  dsimp only
  omega

/-! ## Header words -/

namespace State

theorem word_setWord_same (s : State) {a v : Nat} (hv : v < 4294967296) :
    (s.setWord a v).word a = v := load32_store32_of_lt s.mem hv

theorem word_setWord_ne (s : State) {a b v : Nat} (h : a + 4 ≤ b ∨ b + 4 ≤ a) :
    (s.setWord a v).word b = s.word b := load32_store32_ne s.mem h

theorem word_lt (s : State) (a : Nat) : s.word a < 4294967296 := load32_lt s.mem a

theorem setAreaNext_some (s : State) (p q : Nat) : s.setAreaNext p (some q) = s.setWord p q := rfl

theorem ptrVal_areaNext (s : State) (p : Nat) : ptrVal (s.areaNext p) = s.word p := ptrVal_ptr _

@[simp] theorem word_withHead (s : State) (h : Option Nat) (a : Nat) :
    ({ s with fareaHead := h } : State).word a = s.word a := rfl

end State

theorem node_apart {e f : Extent} (he : Paged e) (hf : Paged f) (h : e.start ≠ f.start) :
    node e + 4096 ≤ node f ∨ node f + 4096 ≤ node e := by
  have h₁ := he.start_aligned
  have h₂ := hf.start_aligned
  rw [he.node_eq, hf.node_eq]
  omega

namespace FreeList

variable {s s' : State} {l l₁ l₂ : List Extent}

theorem length_lt (h : FreeList s l) : (l.map node).length < walkFuel := by
  refine h.links.length_lt (by decide) fun a ha => ?_
  obtain ⟨e, he, rfl⟩ := List.mem_map.1 ha
  have hp := h.paged e he
  have hhi := hp.hi
  unfold Extent.fin at hhi
  rw [hp.node_eq]
  unfold walkFuel
  omega

theorem congr (h : FreeList s l) (hhead : s'.fareaHead = s.fareaHead)
    (hnext : ∀ e ∈ l, s'.word (node e) = s.word (node e))
    (hsize : ∀ e ∈ l, s'.word (node e + 4) = s.word (node e + 4)) : FreeList s' l where
  paged := h.paged
  links := by
    rw [hhead]
    refine Seg.congr h.links fun a ha => ?_
    obtain ⟨e, he, rfl⟩ := List.mem_map.1 ha
    exact congrArg ptr (hnext e he)
  sizes := fun e he => (hsize e he).trans (h.sizes e he)

theorem head_eq (h : FreeList s l) : s.fareaHead = (l.map node).head? := Chain.head_eq h.links

theorem start_ne {e : Extent} (h : FreeList s (l₁ ++ e :: l₂)) {f : Extent} (hf : f ∈ l₁ ++ l₂) :
    f.start ≠ e.start := by
  have hnd : ((l₁ ++ e :: l₂).map node).Nodup := Chain.nodup h.links
  rw [List.map_append, List.map_cons, List.nodup_middle, ← List.map_append] at hnd
  intro heq
  exact (List.nodup_cons.1 hnd).1 (List.mem_map.2 ⟨f, hf, congrArg P2V heq⟩)

theorem scan_spec (h : FreeList s l) (stop : Nat → Bool) :
    ∃ l₁ l₂, l = l₁ ++ l₂ ∧ (∀ e ∈ l₁, stop (node e) = false) ∧
      (∀ e ∈ l₂.head?, stop (node e) = true) ∧
      scan s.areaNext stop walkFuel none s.fareaHead =
        some (l₁.getLast?.map node, l₂.head?.map node) := by
  obtain ⟨m₁, m₂, hm, h₁, h₂, hscan⟩ :=
    @scan_chain _ _ stop _ none _ _ h.links h.length_lt
  obtain ⟨l₁, l₂, rfl, rfl, rfl⟩ := List.map_eq_append_iff.1 hm
  refine ⟨l₁, l₂, rfl, fun e he => h₁ _ (List.mem_map_of_mem he), fun e he => ?_, ?_⟩
  · refine h₂ _ ?_
    rw [List.head?_map]
    exact Option.mem_map_of_mem node he
  · rw [hscan, List.getLast?_map, List.head?_map, Option.or_none]

/-! ## Changing the list -/

section Split

variable {e q : Extent} {n : Nat}

/-- The stores of `pages_split` that make an area `q` of what lies behind `n` bytes of `e`. -/
def cutArea (s : State) (e q : Extent) (n : Nat) : State :=
  (((s.setAreaSize (node q) q.size).setWord (node q) (s.word (node e))).setAreaSize (node e)
    n).setAreaNext (node e) (some (node q))

theorem pagesSplit_eq (he : Paged e) (hq : Paged q) (hsize : s.areaSize (node e) = e.size)
    (hn : n % 4096 = 0) (hlt : n < e.size) (hqs : q.start = e.start + n)
    (hqz : q.size = e.size - n) :
    pagesSplit s (some (node e)) n = (0, cutArea s e q n) := by
  have hand : n &&& 0xFFF = 0 := by
    rw [show (0xFFF : Nat) = 2 ^ 12 - 1 from rfl, Nat.and_two_pow_sub_one_eq_mod]
    exact hn
  have hnode := he.node_eq
  have hnq := hq.node_eq
  have hhi := he.hi
  have hqhi := hq.hi
  unfold Extent.fin at hhi hqhi
  have hadd : add32 (node e) n = node q := by
    rw [hnode, hnq, hqs, add32_of_lt (by omega)]
    omega
  have hsub : sub32 e.size n = q.size := by
    rw [hqz]
    exact sub32_of_le (by omega) (by omega)
  have hkeep : (s.setAreaSize (node q) q.size).word (node e) = s.word (node e) :=
    State.word_setWord_ne s (by omega)
  unfold pagesSplit cutArea
  simp only [hsize, hand, hadd, hsub]
  rw [if_neg (by omega), if_neg (by omega)]
  simp only [State.setAreaNext, State.ptrVal_areaNext, hkeep]

theorem cutArea_first (hq : Paged q) (hn : n < 4294967296) :
    (cutArea s e q n).areaNext (node e) = some (node q) ∧
      (cutArea s e q n).areaSize (node e) = n := by
  have hbounds := hq.node_eq
  have hhi := hq.hi
  unfold Extent.fin at hhi
  have hqlt : node q < 4294967296 := by omega
  constructor
  · unfold cutArea State.areaNext
    rw [State.setAreaNext_some, State.word_setWord_same _ hqlt]
    exact ptr_of_pos (by omega)
  · simp (disch := omega) only [cutArea, State.areaSize, State.setAreaNext, State.setAreaSize,
      State.word_setWord_ne, State.word_setWord_same]

theorem cutArea_rest (he : Paged e) (hq : Paged q) (hne : e.start ≠ q.start) :
    (cutArea s e q n).areaNext (node q) = s.areaNext (node e) ∧
      (cutArea s e q n).areaSize (node q) = q.size := by
  have happ := node_apart he hq hne
  have hwlt := State.word_lt s (node e)
  have hhi := hq.hi
  unfold Extent.fin at hhi
  constructor
  · refine congrArg ptr ?_
    simp (disch := omega) only [cutArea, State.setAreaNext, State.setAreaSize,
      State.word_setWord_ne, State.word_setWord_same]
  · simp (disch := omega) only [cutArea, State.areaSize, State.setAreaNext, State.setAreaSize,
      State.word_setWord_ne, State.word_setWord_same]

theorem cutArea_other {f : Extent} (he : Paged e) (hq : Paged q) (hf : Paged f)
    (hef : e.start ≠ f.start) (hqf : q.start ≠ f.start) :
    (cutArea s e q n).areaNext (node f) = s.areaNext (node f) ∧
      (cutArea s e q n).areaSize (node f) = s.areaSize (node f) := by
  have h₁ := node_apart he hf hef
  have h₂ := node_apart hq hf hqf
  simp (disch := omega) only [cutArea, State.areaNext, State.areaSize, State.setAreaNext,
    State.setAreaSize, State.word_setWord_ne, and_self]

/-- `pages_split` cuts a page-aligned prefix off an area; the rest becomes an area of its own. -/
theorem split (h : FreeList s (l₁ ++ e :: l₂)) (hsep : Separated (l₁ ++ e :: l₂)) (hpos : 0 < n)
    (hn : n % 4096 = 0) (hlt : n < e.size) :
    (pagesSplit s (some (node e)) n).1 = 0 ∧
      FreeList (pagesSplit s (some (node e)) n).2
        (l₁ ++ ⟨e.start, n⟩ :: ⟨e.start + n, e.size - n⟩ :: l₂) := by
  have hp := h.paged e (by simp)
  have hhi := hp.hi
  have hal := hp.size_aligned
  have hst := hp.start_aligned
  have hlo := hp.lo
  unfold Extent.fin at hhi
  obtain ⟨q, hqdef⟩ : ∃ q : Extent, q = ⟨e.start + n, e.size - n⟩ := ⟨_, rfl⟩
  have hqs : q.start = e.start + n := by rw [hqdef]
  have hqz : q.size = e.size - n := by rw [hqdef]
  have hq : Paged q := ⟨by omega, by omega, by omega, by unfold Extent.fin; omega⟩
  have hne : e.start ≠ q.start := by omega
  have hother : ∀ f ∈ l₁ ++ l₂, Paged f ∧
      (cutArea s e q n).areaNext (node f) = s.areaNext (node f) ∧
      (cutArea s e q n).areaSize (node f) = f.size := by
    intro f hf
    have hmem : f ∈ l₁ ++ e :: l₂ := by rcases List.mem_append.1 hf with hf | hf <;> simp [hf]
    have hqf : q.start ≠ f.start := by
      have hpw := List.pairwise_append.1 hsep.pairwise
      rcases List.mem_append.1 hf with hf | hf
      · have hlt := hpw.2.2 f hf e (by simp)
        unfold Extent.fin at hlt
        omega
      · have hlt := (List.pairwise_cons.1 hpw.2.1).1 f hf
        unfold Extent.fin at hlt
        omega
    obtain ⟨hnext, hsize⟩ := @cutArea_other s e q n f hp hq (h.paged f hmem)
      (h.start_ne hf).symm hqf
    exact ⟨h.paged f hmem, hnext, hsize.trans (h.sizes f hmem)⟩
  rw [pagesSplit_eq hp hq (h.sizes e (by simp)) hn hlt hqs hqz, ← hqdef]
  obtain ⟨hnext, hsize⟩ := @cutArea_first s e q n hq (by omega)
  obtain ⟨hqnext, hqsize⟩ := @cutArea_rest s e q n hp hq hne
  refine ⟨rfl, ?_, ?_, ?_⟩
  · simp only [List.forall_mem_append, List.forall_mem_cons] at hother ⊢
    exact ⟨fun f hf => (hother.1 f hf).1, ⟨hst, hn, hlo, by simp only [Extent.fin]; omega⟩, hq,
      fun f hf => (hother.2 f hf).1⟩
  · have hlinks : Chain s.areaNext s.fareaHead (l₁.map node ++ node e :: l₂.map node) := by
      simpa using h.links
    have hnew := hlinks.insert hnext hqnext (by
      intro a ha
      rw [← List.map_append] at ha
      obtain ⟨f, hf, rfl⟩ := List.mem_map.1 ha
      exact (hother f hf).2.1)
    have hhead : (cutArea s e q n).fareaHead = s.fareaHead := rfl
    rw [hhead]
    simpa [node] using hnew
  · simp only [List.forall_mem_append, List.forall_mem_cons] at hother ⊢
    exact ⟨fun f hf => (hother.1 f hf).2.2, hsize, hqsize, fun f hf => (hother.2 f hf).2.2⟩

end Split

theorem word_setAreaNext_node {e f : Extent} (he : Paged e) (hf : Paged f)
    (hne : e.start ≠ f.start) (p : Option Nat) :
    (s.setAreaNext (node e) p).word (node f) = s.word (node f) := by
  have h := node_apart he hf hne
  exact State.word_setWord_ne s (by omega)

theorem areaSize_setAreaNext {e f : Extent} (he : Paged e) (hf : Paged f) (p : Option Nat) :
    (s.setAreaNext (node e) p).areaSize (node f) = s.areaSize (node f) := by
  by_cases hne : e.start = f.start
  · have hnode : node e = node f := congrArg P2V hne
    rw [hnode]
    exact State.word_setWord_ne s (Or.inl (Nat.le_refl _))
  · have h := node_apart he hf hne
    exact State.word_setWord_ne s (by omega)

theorem areaNext_setAreaNext_same (s : State) (a : Nat) {p : Option Nat}
    (hp : ∀ b ∈ p, 0 < b ∧ b < 4294967296) : (s.setAreaNext a p).areaNext a = p := by
  have hlt : ptrVal p < 4294967296 := by
    cases p with
    | none => decide
    | some b => exact (hp b rfl).2
  unfold State.areaNext State.setAreaNext
  rw [State.word_setWord_same _ hlt]
  exact ptr_ptrVal fun b hb => (hp b hb).1

theorem areaNext_bound (s : State) (a : Nat) : ∀ b ∈ s.areaNext a, 0 < b ∧ b < 4294967296 := by
  intro b hb
  obtain ⟨hw, hpos⟩ := ptr_eq_some.1 hb
  exact ⟨hpos, hw ▸ State.word_lt s a⟩

theorem unlink {e : Extent} (h : FreeList s (l₁ ++ e :: l₂)) :
    FreeList (s.unlinkArea (l₁.getLast?.map node) (node e)) (l₁ ++ l₂) := by
  have hpaged : ∀ f ∈ l₁ ++ l₂, Paged f := fun f hf =>
    h.paged f (by rcases List.mem_append.1 hf with hf | hf <;> simp [hf])
  have hsizes : ∀ f ∈ l₁ ++ l₂, s.areaSize (node f) = f.size := fun f hf =>
    h.sizes f (by rcases List.mem_append.1 hf with hf | hf <;> simp [hf])
  rcases List.eq_nil_or_concat l₁ with rfl | ⟨l, g, rfl⟩
  · have hlinks : s.fareaHead = some (node e) ∧ Chain s.areaNext (s.areaNext (node e))
        (l₂.map node) := by simpa using h.links
    simp only [State.unlinkArea, List.getLast?_nil, Option.map_none, hlinks.1, if_true]
    exact ⟨hpaged, hlinks.2, hsizes⟩
  · rw [List.concat_eq_append] at *
    have hg : Paged g := h.paged g (by simp)
    have hlinks : Chain s.areaNext s.fareaHead
        (l.map node ++ node g :: node e :: l₂.map node) := by simpa using h.links
    have hgne : ∀ f ∈ l ++ l₂, f.start ≠ g.start := fun f hf => by
      have h' : FreeList s (l ++ g :: (e :: l₂)) := by simpa using h
      exact h'.start_ne (by rcases List.mem_append.1 hf with hf | hf <;> simp [hf])
    have hhead : ¬ some (node e) = s.fareaHead := by
      rw [Chain.head_eq hlinks]
      have hnd := List.nodup_append.1 (Chain.nodup hlinks)
      cases hl : l.map node with
      | nil =>
          have hge := (List.nodup_cons.1 hnd.2.1).1
          simp only [List.nil_append, List.head?_cons, Option.some.injEq]
          intro heq
          exact hge (by simp [heq])
      | cons a m =>
          simp only [List.cons_append, List.head?_cons, Option.some.injEq]
          intro heq
          rw [hl] at hnd
          exact hnd.2.2 a (by simp) (node e) (by simp) heq.symm
    have hstate : s.unlinkArea ((l ++ [g]).getLast?.map node) (node e) =
        s.setAreaNext (node g) (s.areaNext (node e)) := by
      simp only [State.unlinkArea, List.getLast?_append, List.getLast?_singleton, Option.some_or,
        Option.map_some]
      exact if_neg hhead
    rw [hstate]
    refine ⟨hpaged, ?_, fun f hf => ?_⟩
    · have hsame : ∀ a ∈ l.map node ++ l₂.map node,
          (s.setAreaNext (node g) (s.areaNext (node e))).areaNext a = s.areaNext a := by
        intro a ha
        rw [← List.map_append] at ha
        obtain ⟨f, hf, rfl⟩ := List.mem_map.1 ha
        have hpf := hpaged f (by rcases List.mem_append.1 hf with hf | hf <;> simp [hf])
        exact congrArg ptr (word_setAreaNext_node hg hpf (hgne f hf).symm _)
      have hnew := hlinks.unlink
        (areaNext_setAreaNext_same s (node g) (areaNext_bound s (node e))) hsame
      have hfar : (s.setAreaNext (node g) (s.areaNext (node e))).fareaHead = s.fareaHead := rfl
      rw [hfar]
      simpa using hnew
    · rw [areaSize_setAreaNext hg (hpaged f hf)]
      exact hsizes f hf

section Link

variable {x g f : Extent} {l : List Extent} {next : Option Nat}

/-- The node of `x`, filled in. -/
def fillArea (s : State) (x : Extent) (next : Option Nat) : State :=
  (s.setAreaSize (node x) x.size).setAreaNext (node x) next

theorem fillArea_other (hx : Paged x) (hf : Paged f) (hne : f.start ≠ x.start) :
    (fillArea s x next).areaNext (node f) = s.areaNext (node f) ∧
      (fillArea s x next).areaSize (node f) = s.areaSize (node f) := by
  have happ := node_apart hx hf hne.symm
  constructor
  · refine congrArg ptr ((word_setAreaNext_node hx hf hne.symm next).trans ?_)
    exact State.word_setWord_ne s (by omega)
  · refine (areaSize_setAreaNext hx hf next).trans ?_
    exact State.word_setWord_ne s (by omega)

theorem fillArea_size (hx : Paged x) : (fillArea s x next).areaSize (node x) = x.size := by
  have hhi := hx.hi
  unfold Extent.fin at hhi
  refine (areaSize_setAreaNext hx hx next).trans ?_
  exact State.word_setWord_same s (by omega)

/-- A new node in front of all others. -/
theorem link_front (h : FreeList s l₂) (hx : Paged x) (hne : ∀ f ∈ l₂, f.start ≠ x.start)
    (hnext : ∀ b ∈ l₂.head?.map node, 0 < b ∧ b < 4294967296) :
    FreeList { fillArea s x (l₂.head?.map node) with fareaHead := some (node x) } (x :: l₂) := by
  have hother := fun f hf => @fillArea_other s x f (l₂.head?.map node) hx (h.paged f hf) (hne f hf)
  refine ⟨List.forall_mem_cons.2 ⟨hx, h.paged⟩, ⟨rfl, ?_⟩,
    List.forall_mem_cons.2 ⟨fillArea_size hx, fun f hf => (hother f hf).2.trans (h.sizes f hf)⟩⟩
  have hrest : Chain (fillArea s x (l₂.head?.map node)).areaNext s.fareaHead (l₂.map node) := by
    refine Seg.congr h.links fun a ha => ?_
    obtain ⟨f, hf, rfl⟩ := List.mem_map.1 ha
    exact (hother f hf).1
  have hfirst : (fillArea s x (l₂.head?.map node)).areaNext (node x) = s.fareaHead :=
    (areaNext_setAreaNext_same _ _ hnext).trans (by rw [h.head_eq, List.head?_map])
  rw [← hfirst] at hrest
  exact hrest

/-- A new node behind that of `g`. -/
theorem link_behind (h : FreeList s ((l ++ [g]) ++ l₂)) (hx : Paged x)
    (hne : ∀ f ∈ (l ++ [g]) ++ l₂, f.start ≠ x.start)
    (hnext : ∀ b ∈ l₂.head?.map node, 0 < b ∧ b < 4294967296) :
    FreeList ((fillArea s x (l₂.head?.map node)).setAreaNext (node g) (some (node x)))
      ((l ++ [g]) ++ x :: l₂) := by
  have hg : Paged g := h.paged g (by simp)
  have hgx : g.start ≠ x.start := hne g (by simp)
  have hbounds := hx.node_eq
  have hhi := hx.hi
  unfold Extent.fin at hhi
  obtain ⟨t, ht⟩ : ∃ t, t = fillArea s x (l₂.head?.map node) := ⟨_, rfl⟩
  have hother : ∀ f ∈ (l ++ [g]) ++ l₂, t.areaNext (node f) = s.areaNext (node f) ∧
      t.areaSize (node f) = s.areaSize (node f) := by
    intro f hf
    rw [ht]
    exact fillArea_other hx (h.paged f hf) (hne f hf)
  rw [← ht]
  refine ⟨?_, ?_, ?_⟩
  · have hpaged := h.paged
    simp only [List.forall_mem_append, List.forall_mem_cons] at hpaged ⊢
    exact ⟨hpaged.1, hx, hpaged.2⟩
  · have hlinks : Chain s.areaNext s.fareaHead (l.map node ++ node g :: l₂.map node) := by
      simpa using h.links
    have hgne : ∀ f ∈ l ++ l₂, f.start ≠ g.start := fun f hf => by
      have h' : FreeList s (l ++ g :: l₂) := by simpa using h
      exact h'.start_ne hf
    have hxpos : ∀ b ∈ some (node x), 0 < b ∧ b < 4294967296 := by
      intro b hb
      obtain rfl := Option.mem_some_iff.1 hb
      omega
    have hxnext : t.areaNext (node x) = s.areaNext (node g) := by
      rw [ht]
      refine (areaNext_setAreaNext_same _ _ hnext).trans ?_
      rw [← List.head?_map]
      exact (Chain.head_eq (seg_append_cons.1 hlinks).2).symm
    have hnew := hlinks.insert (areaNext_setAreaNext_same t (node g) hxpos)
      ((congrArg ptr (word_setAreaNext_node hg hx hgx _)).trans hxnext) (by
        intro a ha
        rw [← List.map_append] at ha
        obtain ⟨f, hf, rfl⟩ := List.mem_map.1 ha
        have hf' : f ∈ (l ++ [g]) ++ l₂ := by
          rcases List.mem_append.1 hf with hf | hf <;> simp [hf]
        exact (congrArg ptr (word_setAreaNext_node hg (h.paged f hf') (hgne f hf).symm _)).trans
          (hother f hf').1)
    have hhead : (t.setAreaNext (node g) (some (node x))).fareaHead = s.fareaHead := by
      rw [ht]
      rfl
    rw [hhead]
    simpa using hnew
  · have hsizes : ∀ f ∈ (l ++ [g]) ++ l₂,
        (t.setAreaNext (node g) (some (node x))).areaSize (node f) = f.size := fun f hf =>
      (areaSize_setAreaNext hg (h.paged f hf) _).trans ((hother f hf).2.trans (h.sizes f hf))
    have hxs : (t.setAreaNext (node g) (some (node x))).areaSize (node x) = x.size := by
      rw [areaSize_setAreaNext hg hx, ht]
      exact fillArea_size hx
    simp only [List.forall_mem_append, List.forall_mem_cons] at hsizes ⊢
    exact ⟨hsizes.1, hxs, hsizes.2⟩

theorem link (h : FreeList s (l₁ ++ l₂)) (hx : Paged x) (hne : ∀ f ∈ l₁ ++ l₂, f.start ≠ x.start) :
    FreeList (s.linkArea (l₁.getLast?.map node) (l₂.head?.map node) (node x) x.size)
      (l₁ ++ x :: l₂) := by
  have hnext : ∀ b ∈ l₂.head?.map node, 0 < b ∧ b < 4294967296 := by
    intro b hb
    obtain ⟨f, hf, rfl⟩ := Option.map_eq_some_iff.1 hb
    have hp := h.paged f (by simp [List.mem_of_mem_head? hf])
    have hhi := hp.hi
    unfold Extent.fin at hhi
    rw [hp.node_eq]
    omega
  rcases List.eq_nil_or_concat l₁ with rfl | ⟨l, g, rfl⟩
  · exact h.link_front hx hne hnext
  · rw [List.concat_eq_append] at *
    have hstate : s.linkArea ((l ++ [g]).getLast?.map node) (l₂.head?.map node) (node x) x.size =
        (fillArea s x (l₂.head?.map node)).setAreaNext (node g) (some (node x)) := by
      simp only [State.linkArea, fillArea, List.getLast?_append, List.getLast?_singleton,
        Option.some_or, Option.map_some]
    rw [hstate]
    exact h.link_behind hx hne hnext

end Link

section Absorb

variable {e f g : Extent} {n : Nat} {next : Option Nat}

theorem Paged.absorb (he : Paged e) (hf : Paged f) (hef : e.fin = f.start) : Paged (e.absorb f) := by
  refine ⟨he.start_aligned, ?_, he.lo, ?_⟩
  · have := he.size_aligned
    have := hf.size_aligned
    simp only [Extent.absorb]
    omega
  · rw [Extent.absorb_fin hef]
    exact hf.hi

/-- The node of `e` with another size and link. -/
def growArea (s : State) (e : Extent) (n : Nat) (next : Option Nat) : State :=
  (s.setAreaNext (node e) next).setAreaSize (node e) n

theorem absorbArea_eq (he : Paged e) (hf : Paged f) (hes : s.areaSize (node e) = e.size)
    (hfs : s.areaSize (node f) = f.size) (hef : e.fin = f.start) :
    s.absorbArea (node e) (node f) = growArea s e (e.size + f.size) (s.areaNext (node f)) := by
  have hhi := hf.hi
  unfold Extent.fin at hhi hef
  have hsum : add32 ((s.setAreaNext (node e) (s.areaNext (node f))).areaSize (node e))
      ((s.setAreaNext (node e) (s.areaNext (node f))).areaSize (node f)) = e.size + f.size := by
    rw [areaSize_setAreaNext he he, areaSize_setAreaNext he hf, hes, hfs]
    exact add32_of_lt (by omega)
  unfold growArea
  rw [← hsum]
  rfl

theorem growArea_next (hnext : ∀ b ∈ next, 0 < b ∧ b < 4294967296) :
    (growArea s e n next).areaNext (node e) = next :=
  (congrArg ptr (State.word_setWord_ne _ (by omega))).trans
    (areaNext_setAreaNext_same s (node e) hnext)

theorem growArea_other (he : Paged e) (hg : Paged g) (hne : g.start ≠ e.start) :
    (growArea s e n next).areaNext (node g) = s.areaNext (node g) ∧
      (growArea s e n next).areaSize (node g) = s.areaSize (node g) := by
  have happ := node_apart he hg hne.symm
  constructor
  · exact congrArg ptr ((State.word_setWord_ne _ (by omega)).trans (State.word_setWord_ne _ (by omega)))
  · exact (State.word_setWord_ne _ (by omega)).trans (State.word_setWord_ne _ (by omega))

theorem absorb (h : FreeList s (l₁ ++ e :: f :: l₂)) (hef : e.fin = f.start) :
    FreeList (s.absorbArea (node e) (node f)) (l₁ ++ e.absorb f :: l₂) := by
  have he := h.paged e (by simp)
  have hf := h.paged f (by simp)
  have hhi := hf.hi
  have hother : ∀ g ∈ l₁ ++ l₂, Paged g ∧
      (growArea s e (e.size + f.size) (s.areaNext (node f))).areaNext (node g) =
        s.areaNext (node g) ∧
      (growArea s e (e.size + f.size) (s.areaNext (node f))).areaSize (node g) = g.size := by
    intro g hg
    have hmem : g ∈ l₁ ++ e :: f :: l₂ := by rcases List.mem_append.1 hg with hg | hg <;> simp [hg]
    have hne : g.start ≠ e.start := h.start_ne (by
      rcases List.mem_append.1 hg with hg | hg <;> simp [hg])
    obtain ⟨hnext, hsize⟩ := @growArea_other s e g (e.size + f.size) (s.areaNext (node f)) he
      (h.paged g hmem) hne
    exact ⟨h.paged g hmem, hnext, hsize.trans (h.sizes g hmem)⟩
  rw [absorbArea_eq he hf (h.sizes e (by simp)) (h.sizes f (by simp)) hef]
  refine ⟨?_, ?_, ?_⟩
  · simp only [List.forall_mem_append, List.forall_mem_cons] at hother ⊢
    exact ⟨fun g hg => (hother.1 g hg).1, Paged.absorb he hf hef, fun g hg => (hother.2 g hg).1⟩
  · have hlinks : Chain s.areaNext s.fareaHead
        (l₁.map node ++ node e :: node f :: l₂.map node) := by simpa using h.links
    have hnew := hlinks.unlink
      (growArea_next (n := e.size + f.size) (areaNext_bound s (node f))) (by
        intro a ha
        rw [← List.map_append] at ha
        obtain ⟨g, hg, rfl⟩ := List.mem_map.1 ha
        exact (hother g hg).2.1)
    rw [List.map_append, List.map_cons]
    exact hnew
  · have hsum : e.size + f.size < 4294967296 := by
      unfold Extent.fin at hhi hef
      omega
    have hsize : (growArea s e (e.size + f.size) (s.areaNext (node f))).areaSize
        (node (e.absorb f)) = e.size + f.size := State.word_setWord_same _ hsum
    simp only [List.forall_mem_append, List.forall_mem_cons] at hother ⊢
    exact ⟨fun g hg => (hother.1 g hg).2.2, hsize, fun g hg => (hother.2 g hg).2.2⟩

end Absorb

/-- The source compares the end of one area with the start of another at `P2V` of both. -/
theorem touches_iff {e f : Extent} (he : Paged e) (hf : Paged f) (hs : s.areaSize (node e) = e.size) :
    add32 (P2V (node e)) (s.areaSize (node e)) = P2V (node f) ↔ e.fin = f.start := by
  have hehi := he.hi
  have hfhi := hf.hi
  unfold Extent.fin at *
  rw [hs, he.node_eq, hf.node_eq]
  unfold P2V KERNEL_BASE add32
  omega

theorem mergeLeft {x : Extent} (h : FreeList s (l₁ ++ x :: l₂)) :
    (s.mergeLeft (l₁.getLast?.map node) (node x)).2 = node (joinLeft l₁ x).2 ∧
      FreeList (s.mergeLeft (l₁.getLast?.map node) (node x)).1
        ((joinLeft l₁ x).1 ++ (joinLeft l₁ x).2 :: l₂) := by
  rcases List.eq_nil_or_concat l₁ with rfl | ⟨l, e, rfl⟩
  · exact ⟨rfl, h⟩
  · rw [List.concat_eq_append] at *
    have htouch := touches_iff (h.paged e (by simp)) (h.paged x (by simp)) (h.sizes e (by simp))
    rw [joinLeft_concat]
    simp only [State.mergeLeft, List.getLast?_append, List.getLast?_singleton, Option.some_or,
      Option.map_some]
    by_cases hfin : e.fin = x.start
    · rw [if_pos (htouch.2 hfin), if_pos hfin]
      have h' : FreeList s (l ++ e :: x :: l₂) := by simpa using h
      exact ⟨rfl, h'.absorb hfin⟩
    · rw [if_neg (fun hc => hfin (htouch.1 hc)), if_neg hfin]
      exact ⟨rfl, h⟩

theorem mergeRight {x : Extent} (h : FreeList s (l₁ ++ x :: l₂)) :
    FreeList (s.mergeRight (node x) (l₂.head?.map node))
      (l₁ ++ (joinRight x l₂).1 :: (joinRight x l₂).2) := by
  cases l₂ with
  | nil => exact h
  | cons f l₂ =>
      have htouch := touches_iff (h.paged x (by simp)) (h.paged f (by simp)) (h.sizes x (by simp))
      simp only [State.mergeRight, joinRight, List.head?_cons, Option.map_some]
      by_cases hfin : x.fin = f.start
      · rw [if_pos (htouch.2 hfin), if_pos hfin]
        exact h.absorb hfin
      · rw [if_neg (fun hc => hfin (htouch.1 hc)), if_neg hfin]
        exact h

end FreeList

end Aimv6.Mm
