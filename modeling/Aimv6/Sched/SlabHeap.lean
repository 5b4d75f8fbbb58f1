import Aimv6.Mm.SlabRun
import Aimv6.Sched.ProcessForest

/-! # The scheduler over the slab allocator

The objects that the scheduler takes are slots of the slab allocator, whose
invariant is part of the state that is passed on. So everything proved of the
scheduler over `SlabObjects` holds over `slb_alloc` and `slb_free`.
-/

namespace Aimv6.Sched

open Support
open Mm (Obj Request SlabSystem slbAllocAlign)

/-- The slab allocator with the objects handed out, as its calls and its clients leave it. -/
def SlabHeap : Type := {S : SlabSystem // ∃ V l, S.Inv V l}

namespace SlabHeap

/-- `slb_alloc` asks for no alignment, `_fork` for that of a page table. -/
def alignOf (size : Nat) : Nat := if size = PTE_L1SIZE then PTE_L1SIZE else 0

def live (m : SlabHeap) : Set Nat := {p | ∃ o ∈ m.1.live, o.ptr = p}

/-- The callers follow the pointer at once, so that a `NULL` ends them. -/
def alloc (m : SlabHeap) (size : Nat) : Res (Nat × SlabHeap) :=
  if hreq : Request size (alignOf size) then
    match hcall : slbAllocAlign m.1.st size (alignOf size) with
    | .ok (some p, s) => .ok (p, ⟨⟨s, ⟨p, size, alignOf size⟩ :: m.1.live⟩, by
        obtain ⟨V, l, hI⟩ := m.2
        obtain ⟨V', l', -, hI'⟩ := hI.alloc hreq hcall
        exact ⟨V', l', hI'⟩⟩)
    | .ok (none, _) => .error .nullDeref
    | .error e => .error e
  else .error .outOfBounds

/-- The sizes that the kernel asks for. -/
example : ∀ size ∈ [SIZEOF_QUEUE_ELEMENT, SIZEOF_PCB, PTE_L1SIZE],
    Request size (alignOf size) := by decide

def free (m : SlabHeap) (p size : Nat) : SlabHeap :=
  match hstep : m.1.step (.free ⟨p, size, alignOf size⟩) with
  | some S => ⟨S, SlabSystem.step_inv m.2 hstep⟩
  | none => m

variable {m m' : SlabHeap} {p size : Nat}

theorem alloc_object (h : m.alloc size = .ok (p, m')) :
    m'.1.live = ⟨p, size, alignOf size⟩ :: m.1.live := by
  unfold alloc at h
  split at h
  case isFalse => exact absurd h (by simp)
  case isTrue hreq =>
    split at h
    case h_1 q s hcall =>
      obtain ⟨rfl, rfl⟩ := Prod.mk.inj (Except.ok.inj h)
      rfl
    case h_2 => exact absurd h (by simp)
    case h_3 => exact absurd h (by simp)

theorem alloc_apart (h : m.alloc size = .ok (p, m')) :
    (0 < p ∧ p < 4294967296) ∧ ∀ o ∈ m.1.live, o.ptr ≠ p := by
  have hlive := alloc_object h
  obtain ⟨V, l, hI⟩ := m'.2
  have hnew : (⟨p, size, alignOf size⟩ : Obj) ∈ m'.1.live := by
    rw [hlive]
    exact List.mem_cons_self
  have hpos : 1 ≤ size := (hI.holds _ hnew).1.1
  constructor
  · obtain ⟨d, v, hv, -, -, hu, -⟩ := hI.object hnew
    have hbounds := hI.slab.layout.slot_bounds hv (Mm.View.mem_slots.2 (Or.inr hu))
    dsimp only at hbounds
    omega
  · intro o ho hptr
    have hapart := hI.safe.live_apart
    rw [hlive] at hapart
    have hbeside := (List.pairwise_cons.1 hapart).1 o ho
    have ho' : o ∈ m'.1.live := by
      rw [hlive]
      exact List.mem_cons_of_mem _ ho
    have hpos' : 1 ≤ o.size := (hI.holds o ho').1.1
    dsimp only at hbeside
    omega

theorem free_keeps {q : Nat} (hq : q ∈ m.live) (hne : q ≠ p) : q ∈ (m.free p size).live := by
  unfold free
  split
  case h_2 => exact hq
  case h_1 S hstep =>
    obtain ⟨o, ho, rfl⟩ := hq
    unfold SlabSystem.step at hstep
    dsimp only at hstep
    split at hstep
    case isFalse => exact absurd hstep (by simp)
    case isTrue =>
      obtain ⟨r, -, rfl⟩ := Option.map_eq_some_iff.1 hstep
      refine ⟨o, ?_, rfl⟩
      dsimp only
      split
      · have hother : o ≠ ⟨p, size, alignOf size⟩ := by
          rintro rfl
          exact hne rfl
        exact (List.mem_erase_of_ne hother).2 ho
      · exact ho

end SlabHeap

/-- `slb_alloc` and `slb_free` keep what the scheduler relies on. -/
def slabHeap : SlabObjects where
  State := SlabHeap
  live := SlabHeap.live
  slbAlloc := SlabHeap.alloc
  slbFree := SlabHeap.free
  alloc_addr _ _ _ _ h := (SlabHeap.alloc_apart h).1
  alloc_fresh m n p m' h := by
    rintro ⟨o, ho, hptr⟩
    exact (SlabHeap.alloc_apart h).2 o ho hptr
  alloc_live m n p m' h := by
    rintro q (rfl | ⟨o, ho, rfl⟩)
    · exact ⟨_, by rw [SlabHeap.alloc_object h]; exact List.mem_cons_self, rfl⟩
    · exact ⟨o, by rw [SlabHeap.alloc_object h]; exact List.mem_cons_of_mem _ ho, rfl⟩
  free_live m p n := fun _ hq => SlabHeap.free_keeps hq.1 hq.2

/-- In every state that the processes reach over the slab allocator each queued process and each
element of a queue is an object of it, and the allocator is sound. -/
theorem objects_over_slab {k k₀ : Kernel slabHeap} {es : List ForestEvent} {F : Forest slabHeap}
    (hinit : initSched k.cleared = .ok k₀) (hrun : run Forest.step ⟨k₀, []⟩ es = some F) :
    ∃ (L : Queues) (nodes : ProcStatus → List Nat), Linked F.k.s nodes ∧
      (∀ q, (nodes q).map (fun p => (F.k.s.element p).pcb) = L q) ∧
      (∀ q, ∀ p ∈ nodes q ++ L q, p ∈ SlabHeap.live F.k.s.heap) ∧
      ∃ V l, SlabSystem.Safe (Subtype.val F.k.s.heap) V l := by
  obtain ⟨L, h⟩ := Forest.run_inv hinit hrun
  obtain ⟨nodes, hlinked, hpcb, hmembers⟩ := h.settled.queues
  obtain ⟨V, l, hI⟩ := Subtype.prop F.k.s.heap
  refine ⟨L, nodes, hlinked, hpcb, fun q p hp => ?_, V, l, hI.safe⟩
  rcases List.mem_append.1 hp with hp | hp
  · exact hlinked.live q p hp
  · exact (hmembers p ⟨q, hp⟩).1

end Aimv6.Sched
