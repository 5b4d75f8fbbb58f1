import Aimv6.Sched.PolicyRr
import Aimv6.Support.Fifo

/-! # The queues as lists of processes

The linked elements of a queue hold processes; `Represents s L` says which, first
to last. Each operation of the policy is an operation on these lists.
-/

namespace Aimv6.Sched

open Support

variable {A : SlabObjects}

/-- The processes in each queue, first to last. -/
abbrev Queues := ProcStatus → List Nat

/-- The states that calls of the allocator lead to from `m`. -/
inductive SlabObjects.Later (A : SlabObjects) (m : A.State) : A.State → Prop where
  | refl : A.Later m m
  | alloc {m₁ m₂ : A.State} {n p : Nat} (h : A.Later m m₁) (halloc : A.slbAlloc m₁ n = .ok (p, m₂)) :
      A.Later m m₂
  | free {m₁ : A.State} {p n : Nat} (h : A.Later m m₁) : A.Later m (A.slbFree m₁ p n)

/-- The call, which finds the memory `m`, does not come back because a `slb_alloc` in it does not. -/
def OutOfMemory (A : SlabObjects) (m : A.State) {α : Type} (r : Res α) : Prop :=
  ∃ m' n e, A.Later m m' ∧ A.slbAlloc m' n = .error e ∧ r = .error e

/-- The memory that the call leaves comes from `m`. -/
def SlabObjects.Leads (A : SlabObjects) (m : A.State) {α : Type} (heap : α → A.State)
    (r : Res α) : Prop :=
  ∀ a, r = .ok a → A.Later m (heap a)

section Memory

variable {m m₁ m₂ : A.State} {α β : Type} {r : Res α} {heap : α → A.State} {heap' : β → A.State}

theorem SlabObjects.Later.trans (h : A.Later m m₁) (h' : A.Later m₁ m₂) : A.Later m m₂ := by
  induction h' with
  | refl => exact h
  | alloc _ halloc ih => exact ih.alloc halloc
  | free _ ih => exact ih.free

theorem SlabObjects.Leads.ok {a : α} (h : A.Later m (heap a)) : A.Leads m heap (.ok a) := by
  intro b hb
  obtain rfl := Except.ok.inj hb
  exact h

theorem SlabObjects.Leads.bind {f : α → Res β} (hr : A.Leads m heap r)
    (hf : ∀ a, A.Later m (heap a) → A.Leads m heap' (f a)) : A.Leads m heap' (r >>= f) := by
  intro b hb
  obtain ⟨a, ha, hfa⟩ := Res.bind_eq_ok.1 hb
  exact hf a (hr a ha) b hfa

theorem SlabObjects.Leads.step {f : α → Res β} (hf : ∀ a, A.Leads m heap' (f a)) :
    A.Leads m heap' (r >>= f) := by
  intro b hb
  obtain ⟨a, -, hfa⟩ := Res.bind_eq_ok.1 hb
  exact hf a b hfa

theorem OutOfMemory.ne_ok (h : OutOfMemory A m r) (a : α) : r ≠ .ok a := by
  obtain ⟨m', n, e, -, -, herr⟩ := h
  rw [herr]
  exact fun hok => by cases hok

theorem OutOfMemory.later (h : OutOfMemory A m₁ r) (hlater : A.Later m m₁) : OutOfMemory A m r := by
  obtain ⟨m', n, e, hm', halloc, herr⟩ := h
  exact ⟨m', n, e, hlater.trans hm', halloc, herr⟩

theorem OutOfMemory.bind (h : OutOfMemory A m r) (f : α → Res β) : OutOfMemory A m (r >>= f) := by
  obtain ⟨m', n, e, hm', halloc, rfl⟩ := h
  exact ⟨m', n, e, hm', halloc, rfl⟩

end Memory

namespace Queues

def take (L : Queues) (task : Nat) : Queues := fun q => (L q).erase task

/-- Put the process behind the others in `q`. -/
def put (L : Queues) (q : ProcStatus) (task : Nat) : Queues := fun q' =>
  if q' = q then L q ++ [task] else L q'

/-- Every process is in one queue at most, and there once. -/
structure Once (L : Queues) : Prop where
  nodup : ∀ q, (L q).Nodup
  apart : ∀ q q', q ≠ q' → (L q).Disjoint (L q')

theorem update_take {L : Queues} {q : ProcStatus} {task : Nat}
    (h : ∀ q', q' ≠ q → task ∉ L q') :
    Function.update L q ((L q).erase task) = L.take task := by
  funext q'
  by_cases hq : q' = q
  · rw [hq, Function.update_self, take]
  · rw [Function.update_of_ne hq, take, List.erase_of_not_mem (h q' hq)]

theorem update_put (L : Queues) (q : ProcStatus) (task : Nat) :
    Function.update L q (L q ++ [task]) = L.put q task := by
  funext q'
  unfold put
  by_cases hq : q' = q
  · rw [hq, Function.update_self, if_pos rfl]
  · rw [Function.update_of_ne hq, if_neg hq]

theorem mem_take {L : Queues} (h : L.Once) {q : ProcStatus} {task t : Nat} :
    t ∈ L.take task q ↔ t ≠ task ∧ t ∈ L q := (h.nodup q).mem_erase_iff

theorem mem_put {L : Queues} {q q' : ProcStatus} {task t : Nat} :
    t ∈ L.put q task q' ↔ t ∈ L q' ∨ (q' = q ∧ t = task) := by
  unfold put
  by_cases hq : q' = q
  · subst hq
    simp
  · simp [hq]

theorem take_of_not_mem {L : Queues} {task : Nat} (h : ∀ q, task ∉ L q) : L.take task = L := by
  funext q
  exact List.erase_of_not_mem (h q)

theorem Once.take {L : Queues} (h : L.Once) (task : Nat) : (L.take task).Once :=
  ⟨fun q => (h.nodup q).erase task, fun q q' hne _ ht ht' =>
    h.apart q q' hne (List.mem_of_mem_erase ht) (List.mem_of_mem_erase ht')⟩

theorem Once.put {L : Queues} (h : L.Once) {q : ProcStatus} {task : Nat}
    (hnew : ∀ q, task ∉ L q) : (L.put q task).Once := by
  constructor
  · intro q'
    unfold Queues.put
    split
    · exact List.nodup_append.2 ⟨h.nodup q, by simp, by
        intro a ha b hb
        rw [List.mem_singleton.1 hb]
        rintro rfl
        exact hnew q ha⟩
    · exact h.nodup q'
  · intro q₁ q₂ hne t h₁ h₂
    rcases mem_put.1 h₁ with hold₁ | ⟨hq₁, ht⟩
    · rcases mem_put.1 h₂ with hold₂ | ⟨-, ht⟩
      · exact h.apart q₁ q₂ hne hold₁ hold₂
      · exact hnew q₁ (ht ▸ hold₁)
    · rcases mem_put.1 h₂ with hold₂ | ⟨hq₂, -⟩
      · exact hnew q₂ (ht ▸ hold₂)
      · exact hne (hq₁.trans hq₂.symm)

theorem Once.not_mem_take {L : Queues} (h : L.Once) (task : Nat) (q : ProcStatus) :
    task ∉ L.take task q := fun hmem => ((mem_take h).1 hmem).1 rfl

theorem Once.move {L : Queues} (h : L.Once) (q : ProcStatus) (task : Nat) :
    ((L.take task).put q task).Once := (h.take task).put (h.not_mem_take task)

end Queues

/-- The queue pointers lead to the elements `nodes`, which are all in use and in one queue only. -/
structure Linked (s : SchedState A) (nodes : ProcStatus → List Nat) : Prop where
  fifo : ∀ q, Fifo s.next (s.queue q).head (s.queue q).tail (nodes q)
  live : ∀ q, ∀ p ∈ nodes q, p ∈ A.live s.heap
  addresses : ∀ q, ∀ p ∈ nodes q, 0 < p ∧ p < 4294967296
  apart : ∀ q q', q ≠ q' → (nodes q).Disjoint (nodes q')

/-- In each queue the elements hold the processes `L q`. The objects `T` are in use by others. -/
def Represents (T : Set Nat) (s : SchedState A) (L : Queues) : Prop :=
  ∃ nodes, Linked s nodes ∧ (∀ q, (nodes q).map (fun p => (s.element p).pcb) = L q) ∧
    ∀ t ∈ T, t ∈ A.live s.heap ∧ ∀ q, t ∉ nodes q

variable {T : Set Nat} {s s' : SchedState A} {L L' : Queues}

theorem Linked.length_lt {nodes : ProcStatus → List Nat} (h : Linked s nodes)
    (q : ProcStatus) : (nodes q).length < walkFuel :=
  Chain.length_lt (h.fifo q).chain (by decide) (h.addresses q)

theorem Represents.congr (h : Represents T s L) (helement : s'.element = s.element)
    (hqueue : s'.queue = s.queue) (hheap : A.live s.heap ⊆ A.live s'.heap) :
    Represents T s' L := by
  obtain ⟨nodes, hnodes, hpcb, hT⟩ := h
  have hnext : s'.next = s.next := by
    funext p
    unfold SchedState.next
    rw [helement]
  refine ⟨nodes, ⟨?_, fun q p hp => hheap (hnodes.live q p hp), hnodes.addresses, hnodes.apart⟩,
    ?_, fun t ht => ⟨hheap (hT t ht).1, (hT t ht).2⟩⟩
  · intro q
    rw [hnext, hqueue]
    exact hnodes.fifo q
  · rw [helement]
    exact hpcb

theorem Represents.setPcb (h : Represents T s L) (task : Nat) (v : Pcb) :
    Represents T (s.setPcb task v) L :=
  h.congr rfl rfl (fun _ hp => hp)

theorem Represents.setStatus (h : Represents T s L) (task : Nat) (v : ProcStatus) :
    Represents T (s.setStatus task v) L :=
  h.setPcb task _

theorem represents_initRr (s : SchedState A) : Represents ∅ (initRr s) fun _ => [] :=
  ⟨fun _ => [], ⟨fun _ => Fifo.empty, by simp, by simp, by simp⟩, by simp, by simp⟩

theorem Represents.head_eq (h : Represents T s L) (q : ProcStatus) :
    (s.queue q).head.map (fun p => (s.element p).pcb) = (L q).head? := by
  obtain ⟨nodes, hnodes, hpcb, -⟩ := h
  rw [← hpcb q, (hnodes.fifo q).head_eq, List.head?_map]

theorem Represents.tail_eq (h : Represents T s L) (q : ProcStatus) :
    (s.queue q).tail.map (fun p => (s.element p).pcb) = (L q).getLast? := by
  obtain ⟨nodes, hnodes, hpcb, -⟩ := h
  rw [← hpcb q, (hnodes.fifo q).last, List.getLast?_map]

theorem Represents.unique (h : Represents T s L) (h' : Represents T s L') : L = L' := by
  obtain ⟨nodes, hnodes, hpcb, -⟩ := h
  obtain ⟨nodes', hnodes', hpcb', -⟩ := h'
  funext q
  rw [← hpcb q, ← hpcb' q, Chain.unique (hnodes.fifo q).chain (hnodes'.fifo q).chain]

theorem Linked.update {nodes : ProcStatus → List Nat} (h : Linked s nodes) {q : ProcStatus}
    {l : List Nat} (hfifo : Fifo s'.next (s'.queue q).head (s'.queue q).tail l)
    (hl : ∀ p ∈ l, p ∈ A.live s'.heap ∧ (0 < p ∧ p < 4294967296) ∧ ∀ q', q' ≠ q → p ∉ nodes q')
    (hqueue : ∀ q', q' ≠ q → s'.queue q' = s.queue q')
    (helement : ∀ q', q' ≠ q → ∀ p ∈ nodes q', s'.element p = s.element p)
    (hkeep : ∀ q', q' ≠ q → ∀ p ∈ nodes q', p ∈ A.live s'.heap) :
    Linked s' (Function.update nodes q l) := by
  constructor
  case fifo =>
    intro q'
    by_cases hqq : q' = q
    · subst hqq
      rw [Function.update_self]
      exact hfifo
    · rw [Function.update_of_ne hqq, hqueue q' hqq]
      apply (h.fifo q').congr
      intro p hp
      unfold SchedState.next
      rw [helement q' hqq p hp]
  case live =>
    intro q' p hp
    by_cases hqq : q' = q
    · subst hqq
      rw [Function.update_self] at hp
      exact (hl p hp).1
    · rw [Function.update_of_ne hqq] at hp
      exact hkeep q' hqq p hp
  case addresses =>
    intro q' p hp
    by_cases hqq : q' = q
    · subst hqq
      rw [Function.update_self] at hp
      exact (hl p hp).2.1
    · rw [Function.update_of_ne hqq] at hp
      exact h.addresses q' p hp
  case apart =>
    intro q₁ q₂ hne p h₁ h₂
    by_cases hq₁ : q₁ = q
    · have hq₂ : q₂ ≠ q := fun hq₂ => hne (hq₁.trans hq₂.symm)
      subst hq₁
      rw [Function.update_self] at h₁
      rw [Function.update_of_ne hq₂] at h₂
      exact (hl p h₁).2.2 q₂ hq₂ h₂
    · rw [Function.update_of_ne hq₁] at h₁
      by_cases hq₂ : q₂ = q
      · subst hq₂
        rw [Function.update_self] at h₂
        exact (hl p h₂).2.2 q₁ hq₁ h₁
      · rw [Function.update_of_ne hq₂] at h₂
        exact h.apart q₁ q₂ hne h₁ h₂

theorem Linked.represents_update {nodes : ProcStatus → List Nat} (h : Linked s nodes)
    (hpcb : ∀ q, (nodes q).map (fun p => (s.element p).pcb) = L q)
    (hT : ∀ t ∈ T, t ∈ A.live s.heap ∧ ∀ q, t ∉ nodes q) {q : ProcStatus} {l ts : List Nat}
    (hfifo : Fifo s'.next (s'.queue q).head (s'.queue q).tail l)
    (hl : ∀ p ∈ l, p ∈ A.live s'.heap ∧ (0 < p ∧ p < 4294967296) ∧ p ∉ T ∧
      ∀ q', q' ≠ q → p ∉ nodes q')
    (hts : l.map (fun p => (s'.element p).pcb) = ts)
    (hqueue : ∀ q', q' ≠ q → s'.queue q' = s.queue q')
    (helement : ∀ q', q' ≠ q → ∀ p ∈ nodes q', s'.element p = s.element p)
    (hlive : ∀ p, (p ∈ T ∨ ∃ q', q' ≠ q ∧ p ∈ nodes q') → p ∈ A.live s'.heap) :
    Represents T s' (Function.update L q ts) := by
  refine ⟨Function.update nodes q l, ?_, ?_, ?_⟩
  · apply h.update hfifo (fun p hp => ?_) hqueue helement
    · intro q' hq' p hp
      exact hlive p (Or.inr ⟨q', hq', hp⟩)
    · obtain ⟨h₁, h₂, -, h₃⟩ := hl p hp
      exact ⟨h₁, h₂, h₃⟩
  · intro q'
    by_cases hqq : q' = q
    · subst hqq
      rw [Function.update_self, Function.update_self]
      exact hts
    · rw [Function.update_of_ne hqq, Function.update_of_ne hqq, ← hpcb q']
      exact List.map_congr_left fun p hp => by rw [helement q' hqq p hp]
  · intro t ht
    refine ⟨hlive t (Or.inl ht), fun q' hmem => ?_⟩
    by_cases hqq : q' = q
    · subst hqq
      rw [Function.update_self] at hmem
      exact (hl t hmem).2.2.1 ht
    · rw [Function.update_of_ne hqq] at hmem
      exact (hT t ht).2 q' hmem

/-! ## Appending -/

theorem queuePush_eq {q : ProcStatus} {task e : Nat} {heap : A.State}
    (halloc : A.slbAlloc s.heap SIZEOF_QUEUE_ELEMENT = .ok (e, heap)) :
    ((s.queue q).head = none → queuePush s q task = .ok
      { heap, element := Function.update s.element e ⟨task, none⟩,
        queue := Function.update s.queue q ⟨some e, some e⟩, pcb := s.pcb }) ∧
    (∀ a, (s.queue q).head ≠ none → (s.queue q).tail = some a → a ≠ e →
      queuePush s q task = .ok
        { heap, element := Function.update (Function.update s.element e ⟨task, none⟩) a
            { s.element a with next := some e },
          queue := Function.update s.queue q ⟨(s.queue q).head, some e⟩, pcb := s.pcb }) := by
  unfold queuePush
  rw [halloc, Res.ok_bind]
  dsimp only
  constructor
  · intro hhead
    exact if_pos hhead
  · intro a hhead htail hne
    refine (if_neg hhead).trans ?_
    change (deref (s.queue q).tail >>= _) = _
    rw [htail, deref_some, Res.ok_bind]
    unfold SchedState.setNext SchedState.setElement SchedState.setQueue
    dsimp only
    rw [Function.update_of_ne hne]

section Push

variable {nodes : ProcStatus → List Nat} {q : ProcStatus} {task e a : Nat} {heap : A.State}
  {l : List Nat}

theorem Linked.fresh_element (h : Linked s nodes)
    (halloc : A.slbAlloc s.heap SIZEOF_QUEUE_ELEMENT = .ok (e, heap)) : ∀ q', e ∉ nodes q' :=
  fun q' hmem => A.alloc_fresh _ _ _ _ halloc (h.live q' e hmem)

/-- A state in which a new element was linked in behind those of `q` and nothing else was changed. -/
theorem Linked.represents_push (h : Linked s nodes)
    (hpcb : ∀ q, (nodes q).map (fun p => (s.element p).pcb) = L q)
    (hT : ∀ t ∈ T, t ∈ A.live s.heap ∧ ∀ q, t ∉ nodes q)
    (halloc : A.slbAlloc s.heap SIZEOF_QUEUE_ELEMENT = .ok (e, heap)) (hheap : s'.heap = heap)
    (hqueue : ∀ q', q' ≠ q → s'.queue q' = s.queue q')
    (hother : ∀ q', q' ≠ q → ∀ p ∈ nodes q', s'.element p = s.element p)
    (hsame : ∀ p ∈ nodes q, (s'.element p).pcb = (s.element p).pcb)
    (hnew : (s'.element e).pcb = task)
    (hfifo : Fifo s'.next (s'.queue q).head (s'.queue q).tail (nodes q ++ [e])) :
    Represents T s' (Function.update L q (L q ++ [task])) := by
  have hgrow := A.alloc_live _ _ _ _ halloc
  have hTe : ∀ t ∈ T, t ≠ e := by
    rintro t ht rfl
    exact A.alloc_fresh _ _ _ _ halloc (hT t ht).1
  rw [← hheap] at hgrow
  refine h.represents_update hpcb hT hfifo ?_ ?_ hqueue hother ?_
  · intro p hp
    rcases List.mem_append.1 hp with hp | hp
    · exact ⟨hgrow (Or.inr (h.live q p hp)), h.addresses q p hp, fun ht => (hT p ht).2 q hp,
        fun q' hq' => h.apart q q' hq'.symm hp⟩
    · rw [List.mem_singleton.1 hp]
      exact ⟨hgrow (Or.inl rfl), A.alloc_addr _ _ _ _ halloc, fun ht => hTe e ht rfl,
        fun q' _ => h.fresh_element halloc q'⟩
  · rw [List.map_append, List.map_congr_left hsame, hpcb q, List.map_singleton, hnew]
  · intro p hp
    rcases hp with ht | ⟨q', -, hp⟩
    · exact hgrow (Or.inr (hT p ht).1)
    · exact hgrow (Or.inr (h.live q' p hp))

/-- The links behind the last element `a` of a queue when `e` is put there. -/
theorem Linked.fifo_behind (h : Linked s nodes) (hl : nodes q = l ++ [a]) (hnot : ∀ q', e ∉ nodes q')
    (hnext : ∀ p, s'.next p = if p = a then some e else if p = e then none else s.next p)
    (hends : s'.queue q = ⟨(s.queue q).head, some e⟩) :
    Fifo s'.next (s'.queue q).head (s'.queue q).tail (nodes q ++ [e]) := by
  have hfifo := h.fifo q
  rw [hl] at hfifo
  have hne : ∀ c ∈ l ++ [a], c ≠ e := by
    rintro c hc rfl
    exact hnot q (by rw [hl]; exact hc)
  rw [hends, hl, List.append_assoc, List.singleton_append]
  refine hfifo.append ?_ ?_ fun c hc => ?_
  · rw [hnext, if_pos rfl]
  · rw [hnext, if_neg (hne a (by simp)).symm, if_pos rfl]
  · have hca : c ≠ a := by
      rintro rfl
      exact (List.nodup_append.1 hfifo.chain.nodup).2.2 c hc c (by simp) rfl
    rw [hnext, if_neg hca, if_neg (hne c (by simp [hc]))]

theorem Linked.push_empty (h : Linked s nodes)
    (hpcb : ∀ q, (nodes q).map (fun p => (s.element p).pcb) = L q)
    (hT : ∀ t ∈ T, t ∈ A.live s.heap ∧ ∀ q, t ∉ nodes q)
    (halloc : A.slbAlloc s.heap SIZEOF_QUEUE_ELEMENT = .ok (e, heap)) (hnil : nodes q = []) :
    ∃ s', queuePush s q task = .ok s' ∧
      Represents T s' (Function.update L q (L q ++ [task])) ∧ s'.pcb = s.pcb := by
  have hhead : (s.queue q).head = none := by
    rw [(h.fifo q).head_eq, hnil]
    rfl
  refine ⟨_, (queuePush_eq halloc).1 hhead, h.represents_push hpcb hT halloc rfl ?_ ?_ ?_ ?_ ?_, rfl⟩
  · intro q' hq'
    exact Function.update_of_ne hq' _ _
  · intro q' _ p hp
    apply Function.update_of_ne
    rintro rfl
    exact h.fresh_element halloc q' hp
  · simp [hnil]
  · dsimp only
    rw [Function.update_self]
  · rw [hnil]
    dsimp only
    rw [Function.update_self]
    apply Fifo.single
    unfold SchedState.next
    dsimp only
    rw [Function.update_self]

theorem Linked.push_behind (h : Linked s nodes)
    (hpcb : ∀ q, (nodes q).map (fun p => (s.element p).pcb) = L q)
    (hT : ∀ t ∈ T, t ∈ A.live s.heap ∧ ∀ q, t ∉ nodes q)
    (halloc : A.slbAlloc s.heap SIZEOF_QUEUE_ELEMENT = .ok (e, heap)) (hl : nodes q = l ++ [a]) :
    ∃ s', queuePush s q task = .ok s' ∧
      Represents T s' (Function.update L q (L q ++ [task])) ∧ s'.pcb = s.pcb := by
  have hnot := h.fresh_element halloc
  have hne : ∀ q', ∀ p ∈ nodes q', p ≠ e := by
    rintro q' p hp rfl
    exact hnot q' hp
  have hfifo := h.fifo q
  rw [hl] at hfifo
  have hhead : (s.queue q).head ≠ none := by
    rw [hfifo.head_eq]
    simp
  have htail : (s.queue q).tail = some a := by
    rw [hfifo.last]
    simp
  have hmem : a ∈ nodes q := by
    rw [hl]
    simp
  have hae : a ≠ e := hne q a hmem
  refine ⟨_, (queuePush_eq halloc).2 a hhead htail hae, h.represents_push hpcb hT halloc rfl ?_ ?_ ?_ ?_
    (h.fifo_behind hl hnot (fun p => ?_) (Function.update_self _ _ _)), rfl⟩
  · intro q' hq'
    exact Function.update_of_ne hq' _ _
  · intro q' hq' p hp
    have hpa : p ≠ a := by
      rintro rfl
      exact h.apart q q' hq'.symm hmem hp
    dsimp only
    rw [Function.update_of_ne hpa, Function.update_of_ne (hne q' p hp)]
  · intro p hp
    dsimp only
    by_cases hpa : p = a
    · rw [hpa, Function.update_self]
    · rw [Function.update_of_ne hpa, Function.update_of_ne (hne q p hp)]
  · dsimp only
    rw [Function.update_of_ne hae.symm, Function.update_self]
  · unfold SchedState.next
    dsimp only
    by_cases hpa : p = a
    · rw [hpa, Function.update_self, if_pos rfl]
    · rw [Function.update_of_ne hpa, if_neg hpa]
      by_cases hpe : p = e
      · rw [hpe, Function.update_self, if_pos rfl]
      · rw [Function.update_of_ne hpe, if_neg hpe]

/-- What `queue_push` does on success: the process is the last one of its queue. -/
theorem queuePush_ok (h : Represents T s L)
    (halloc : A.slbAlloc s.heap SIZEOF_QUEUE_ELEMENT = .ok (e, heap)) :
    ∃ s', queuePush s q task = .ok s' ∧
      Represents T s' (Function.update L q (L q ++ [task])) ∧ s'.pcb = s.pcb := by
  obtain ⟨nodes, hnodes, hpcb, hT⟩ := h
  rcases List.eq_nil_or_concat (nodes q) with hnil | ⟨l, a, hl⟩
  · exact hnodes.push_empty hpcb hT halloc hnil
  · rw [List.concat_eq_append] at hl
    exact hnodes.push_behind hpcb hT halloc hl

end Push

/-! ## Removing -/

/-- The elements behind `if (last != NULL) last->next = v`. -/
def SchedState.relink (s : SchedState A) : Option Nat → Option Nat → Nat → QueueElement
  | some a, v => Function.update s.element a { s.element a with next := v }
  | none, _ => s.element

theorem relink_self (a : Nat) (v : Option Nat) :
    s.relink (some a) v a = { s.element a with next := v } := Function.update_self _ _ _

theorem relink_of_ne {last v : Option Nat} {x : Nat} (h : ∀ a ∈ last, x ≠ a) :
    s.relink last v x = s.element x := by
  cases last with
  | none => rfl
  | some a => exact Function.update_of_ne (h a rfl) _ _

theorem relink_pcb (last v : Option Nat) (x : Nat) :
    (s.relink last v x).pcb = (s.element x).pcb := by
  cases last with
  | none => rfl
  | some a =>
      by_cases hx : x = a
      · rw [hx, relink_self]
      · rw [relink_of_ne (by simpa using hx)]

theorem queueUnlink_eq {q : ProcStatus} {task p head tail : Nat} {last : Option Nat}
    (hhead : (s.queue q).head = some head) (htail : (s.queue q).tail = some tail) :
    queueUnlink s q task last p = .ok
      { heap := A.slbFree s.heap p SIZEOF_QUEUE_ELEMENT,
        element := s.relink last (s.next p),
        queue := Function.update s.queue q
          ⟨if (s.element head).pcb = task then s.next p else some head,
            if (s.element tail).pcb = task then last else some tail⟩,
        pcb := s.pcb } := by
  have hsame : s.queue = Function.update s.queue q ⟨some head, some tail⟩ := by
    rw [← hhead, ← htail, Function.update_eq_self]
  unfold queueUnlink
  rw [hhead, deref_some, Res.ok_bind]
  by_cases h₁ : (s.element head).pcb = task
  · simp only [if_pos h₁, SchedState.setQueue, Function.update_self, htail, deref_some, Res.ok_bind]
    by_cases h₂ : (s.element tail).pcb = task
    · simp only [if_pos h₂, Function.update_idem]
      cases last <;> rfl
    · simp only [if_neg h₂]
      cases last <;> rfl
  · simp only [if_neg h₁, SchedState.setQueue, htail, deref_some, Res.ok_bind]
    by_cases h₂ : (s.element tail).pcb = task
    · simp only [if_pos h₂, hhead]
      cases last <;> rfl
    · simp only [if_neg h₂, ← hsame]
      cases last <;> rfl

section Unlink

variable {nodes : ProcStatus → List Nat} {q : ProcStatus} {task p : Nat} {l₁ l₂ : List Nat}

/-- The first element holds the process just when none stands before `p`. -/
theorem Linked.head_holds (h : Linked s nodes) (hl : nodes q = l₁ ++ p :: l₂)
    (htask : (s.element p).pcb = task) (hbefore : ∀ a ∈ l₁, (s.element a).pcb ≠ task) :
    ∃ head, (s.queue q).head = some head ∧ ((s.element head).pcb = task ↔ l₁ = []) := by
  have hfifo := h.fifo q
  rw [hl] at hfifo
  cases l₁ with
  | nil => exact ⟨p, hfifo.head_eq, by simpa using htask⟩
  | cons a l₁ => exact ⟨a, hfifo.head_eq, by simpa using hbefore a (by simp)⟩

theorem Linked.tail_holds (h : Linked s nodes) (hl : nodes q = l₁ ++ p :: l₂)
    (htask : (s.element p).pcb = task) (hbehind : ∀ a ∈ l₂, (s.element a).pcb ≠ task) :
    ∃ tail, (s.queue q).tail = some tail ∧ ((s.element tail).pcb = task ↔ l₂ = []) := by
  have hlast := (h.fifo q).last
  rw [hl, List.getLast?_append_of_ne_nil _ (by simp), List.getLast?_cons] at hlast
  refine ⟨_, hlast, ?_⟩
  cases l₂ with
  | nil => simpa using htask
  | cons c l₂ =>
      have hc : (c :: l₂).getLast?.getD p ∈ c :: l₂ := by
        rw [List.getLast?_eq_some_getLast (by simp), Option.getD_some]
        exact List.getLast_mem _
      simpa using hbehind _ hc

/-- The links without `p`, which the element before takes over or the head does. -/
theorem Linked.fifo_without (h : Linked s nodes) (hl : nodes q = l₁ ++ p :: l₂)
    (hnext : ∀ x, s'.next x = (s.relink l₁.getLast? (s.next p) x).next)
    (hends : s'.queue q = ⟨if l₁ = [] then s.next p else (s.queue q).head,
      if l₂ = [] then l₁.getLast? else (s.queue q).tail⟩) :
    Fifo s'.next (s'.queue q).head (s'.queue q).tail (l₁ ++ l₂) := by
  have hfifo := h.fifo q
  rw [hl] at hfifo
  rw [hends]
  rcases List.eq_nil_or_concat l₁ with rfl | ⟨k, a, rfl⟩
  · have hsame : s'.next = s.next := funext hnext
    rw [if_pos rfl, hsame]
    exact hfifo.removeFirst
  · have hnodup := hfifo.chain.nodup
    rw [List.concat_eq_append, List.append_assoc] at hfifo hnodup
    rw [if_neg (by simp)]
    simp only [List.concat_eq_append, List.getLast?_append, List.getLast?_singleton,
      Option.some_or, List.append_assoc] at hnext ⊢
    apply hfifo.removeBehind
    · rw [hnext, relink_self]
    · intro c hc
      have hca : c ≠ a := by
        rintro rfl
        apply (List.nodup_cons.1 (List.nodup_middle.1 hnodup)).1
        rcases List.mem_append.1 hc with hc | hc
        · exact List.mem_append_left _ hc
        · exact List.mem_append_right _ (List.mem_cons_of_mem _ hc)
      rw [hnext, relink_of_ne (by simpa using hca)]
      rfl

/-- Unlinking the element `p`, the only one of its queue that holds the process. -/
theorem Linked.queueUnlink_spec (h : Linked s nodes)
    (hpcb : ∀ q, (nodes q).map (fun p => (s.element p).pcb) = L q)
    (hT : ∀ t ∈ T, t ∈ A.live s.heap ∧ ∀ q, t ∉ nodes q) (hl : nodes q = l₁ ++ p :: l₂)
    (htask : (s.element p).pcb = task) (hbefore : ∀ a ∈ l₁, (s.element a).pcb ≠ task)
    (hbehind : ∀ a ∈ l₂, (s.element a).pcb ≠ task) :
    ∃ s', queueUnlink s q task l₁.getLast? p = .ok s' ∧
      Represents T s' (Function.update L q ((l₁ ++ l₂).map fun p => (s.element p).pcb)) ∧
      s'.pcb = s.pcb := by
  have hnodup := (h.fifo q).chain.nodup
  rw [hl] at hnodup
  have hp₁₂ := (List.nodup_cons.1 (List.nodup_middle.1 hnodup)).1
  have hp : p ∈ nodes q := by
    rw [hl]
    simp
  have hmem : ∀ x ∈ l₁ ++ l₂, x ∈ nodes q := by
    intro x hx
    rw [hl]
    rcases List.mem_append.1 hx with hx | hx
    · exact List.mem_append_left _ hx
    · exact List.mem_append_right _ (List.mem_cons_of_mem _ hx)
  obtain ⟨head, hhead, hheadtask⟩ := h.head_holds hl htask hbefore
  obtain ⟨tail, htail, htailtask⟩ := h.tail_holds hl htask hbehind
  have hlive : ∀ x, x ∈ A.live s.heap → x ≠ p →
      x ∈ A.live (A.slbFree s.heap p SIZEOF_QUEUE_ELEMENT) :=
    fun x hx hxp => A.free_live _ _ _ ⟨hx, hxp⟩
  rw [queueUnlink_eq hhead htail]
  simp only [hheadtask, htailtask]
  refine ⟨_, rfl, ?_, rfl⟩
  apply h.represents_update hpcb hT
  case hfifo =>
    apply h.fifo_without hl fun x => rfl
    dsimp only
    rw [Function.update_self, hhead, htail]
  case hl =>
    intro x hx
    have hxp : x ≠ p := by
      rintro rfl
      exact hp₁₂ hx
    exact ⟨hlive x (h.live q x (hmem x hx)) hxp, h.addresses q x (hmem x hx),
      fun ht => (hT x ht).2 q (hmem x hx), fun q' hq' => h.apart q q' hq'.symm (hmem x hx)⟩
  case hts => exact List.map_congr_left fun x _ => relink_pcb _ _ x
  case hqueue =>
    intro q' hq'
    exact Function.update_of_ne hq' _ _
  case helement =>
    intro q' hq' x hx
    apply relink_of_ne
    rintro a ha rfl
    exact h.apart q q' hq'.symm (hmem x (List.mem_append_left _ (List.mem_of_getLast? ha))) hx
  case hlive =>
    intro x hx
    rcases hx with ht | ⟨q', hq', hx⟩
    · exact hlive x (hT x ht).1 fun heq => (hT x ht).2 q (heq ▸ hp)
    · exact hlive x (h.live q' x hx) fun heq => h.apart q q' hq'.symm hp (heq ▸ hx)

end Unlink

/-- `queue_pop` takes the process out of its queue and keeps the order of the others. -/
theorem queuePop_spec (h : Represents T s L) (q : ProcStatus) (task : Nat) (hn : (L q).Nodup) :
    ∃ s', queuePop s q task = .ok s' ∧
      Represents T s' (Function.update L q ((L q).erase task)) ∧ s'.pcb = s.pcb := by
  have hrep := h
  obtain ⟨nodes, hnodes, hpcb, hT⟩ := h
  obtain ⟨l₁, l₂, hl, hbefore, hstop, hscan⟩ :=
    @scan_chain _ s.next (fun p => (s.element p).pcb = task) walkFuel none _ _
      (hnodes.fifo q).chain (hnodes.length_lt q)
  have hbefore : ∀ a ∈ l₁, (s.element a).pcb ≠ task := fun a ha => by simpa using hbefore a ha
  have hLq : L q = l₁.map (fun p => (s.element p).pcb) ++ l₂.map (fun p => (s.element p).pcb) := by
    rw [← hpcb q, hl, List.map_append]
  have hfirst : task ∉ l₁.map (fun p => (s.element p).pcb) := by
    intro hmem
    obtain ⟨a, ha, htask⟩ := List.mem_map.1 hmem
    exact hbefore a ha htask
  unfold queuePop
  rw [hscan, Res.ofFuel_some, Res.ok_bind]
  cases l₂ with
  | nil =>
      have habsent : task ∉ L q := by
        rw [hLq]
        simpa using hfirst
      refine ⟨s, rfl, ?_, rfl⟩
      rw [List.erase_of_not_mem habsent, Function.update_eq_self]
      exact hrep
  | cons p l₂ =>
      have htask : (s.element p).pcb = task := by simpa using hstop p (by simp)
      have hrest : ∀ a ∈ l₂, (s.element a).pcb ≠ task := by
        intro a ha heq
        rw [hLq, List.map_cons, htask] at hn
        apply (List.nodup_cons.1 (List.nodup_append.1 hn).2.1).1
        exact List.mem_map.2 ⟨a, ha, heq⟩
      have herase : (L q).erase task = (l₁ ++ l₂).map fun p => (s.element p).pcb := by
        rw [hLq, List.map_cons, htask, List.erase_append_right _ hfirst, List.erase_cons_head,
          List.map_append]
      rw [herase]
      simpa using hnodes.queueUnlink_spec hpcb hT hl htask hbefore hrest

/-! ## The operations -/

theorem queuePush_leads (s : SchedState A) (q : ProcStatus) (task : Nat) :
    A.Leads s.heap SchedState.heap (queuePush s q task) := by
  unfold queuePush
  have halloc : A.Leads s.heap Prod.snd (A.slbAlloc s.heap SIZEOF_QUEUE_ELEMENT) :=
    fun _ h => .alloc .refl h
  refine halloc.bind fun r hr => ?_
  dsimp only
  split
  · exact .ok hr
  · exact .step fun tail => .ok hr

theorem queueUnlink_leads (s : SchedState A) (q : ProcStatus) (task : Nat) (last : Option Nat)
    (p : Nat) : A.Leads s.heap SchedState.heap (queueUnlink s q task last p) := by
  unfold queueUnlink
  refine .step fun head => .step fun tail => .ok ?_
  cases last <;> dsimp only <;> split <;> split <;> exact .free .refl

theorem queuePop_leads (s : SchedState A) (q : ProcStatus) (task : Nat) :
    A.Leads s.heap SchedState.heap (queuePop s q task) := by
  unfold queuePop
  refine .step fun found => ?_
  obtain ⟨last, found⟩ := found
  cases found with
  | none => exact .ok .refl
  | some p => exact queueUnlink_leads s q task last p

theorem schedMove_leads (src dst : ProcStatus) (s : SchedState A) (task : Nat) :
    A.Leads s.heap SchedState.heap (schedMove src dst s task) := by
  unfold schedMove
  refine (queuePop_leads s src task).bind fun s₁ h₁ => ?_
  exact .bind (fun s₂ h₂ => h₁.trans (queuePush_leads s₁ dst task s₂ h₂)) fun s₂ h₂ => .ok h₂

theorem queuePush_spec (h : Represents T s L) (q : ProcStatus) (task : Nat) :
    OutOfMemory A s.heap (queuePush s q task) ∨
      ∃ s', queuePush s q task = .ok s' ∧ Represents T s' (L.put q task) ∧ s'.pcb = s.pcb := by
  cases halloc : A.slbAlloc s.heap SIZEOF_QUEUE_ELEMENT with
  | error e =>
      left
      refine ⟨_, _, e, .refl, halloc, ?_⟩
      unfold queuePush
      rw [halloc]
      rfl
  | ok r =>
      right
      rw [← Queues.update_put]
      exact queuePush_ok h halloc

theorem schedMove_spec (h : Represents T s L) (hL : L.Once) {src : ProcStatus} (dst : ProcStatus)
    {task : Nat} (hsrc : task ∈ L src) :
    OutOfMemory A s.heap (schedMove src dst s task) ∨
      ∃ s', schedMove src dst s task = .ok s' ∧ Represents T s' ((L.take task).put dst task) ∧
        s'.pcb = Function.update s.pcb task { s.pcb task with status := dst } := by
  obtain ⟨s₁, hpop, hrep, hpcb⟩ := queuePop_spec h src task (hL.nodup src)
  rw [Queues.update_take fun q hq hmem => hL.apart q src hq hmem hsrc] at hrep
  have hlater := queuePop_leads s src task s₁ hpop
  unfold schedMove
  rw [hpop, Res.ok_bind]
  rcases queuePush_spec hrep dst task with hfail | ⟨s₂, hpush, hrep₂, hpcb₂⟩
  · exact Or.inl ((hfail.later hlater).bind _)
  · right
    rw [hpush, Res.ok_bind]
    refine ⟨_, rfl, hrep₂.setStatus task dst, ?_⟩
    unfold SchedState.setStatus SchedState.setPcb
    rw [hpcb₂, hpcb]

end Aimv6.Sched
