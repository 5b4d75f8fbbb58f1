import Aimv6.Debug.DebugInfo
import Mathlib.Data.List.Induction

/-! # The lookup as a query of the table

A lookup classifies the stabs in front of the one it stops at. The test for
functions assigns where it means to compare: every stab that is neither a source
file nor a text line becomes a function and the name of the lines behind it.
-/

namespace Aimv6.Debug

/-- The address of the current source file behind some stabs. -/
def sourceBase (stabs : List Stab) : UInt32 :=
  ((stabs.filter isSource).getLast?.map fun s => FIX_INSTRUCTION_ADDR s.nValue).getD 0

def lastFun (stabs : List Stab) : Option Stab := (stabs.filter fun s => s.nType == N_FUN).getLast?

/-- Entry `i` is a text line. -/
def lineAt (stabs : List Stab) (i : Nat) : Bool := stabs[i]?.any isTextline

/-- Entry `i` is a text line of the instruction. -/
def matchAt (addr32 : UInt32) (stabs : List Stab) (i : Nat) : Bool :=
  stabs[i]?.any fun s => isTextline s && decide (sourceBase (stabs.take i) + s.nValue = addr32)

/-- A search from the pointer `last` on, should it come to entry `i`, stops there: at a match behind
`last`, or at another line behind a match. -/
def Stops (T : StabTable) (addr32 : UInt32) (last i : Nat) : Prop :=
  lineAt T.entries i = true ∧
    if matchAt addr32 T.entries i = true then last < T.address i
    else ∃ j < i, matchAt addr32 T.entries j = true

/-- What a search leaves of a stab that it goes past. -/
def marked (stab : Stab) : Stab :=
  if isSource stab || isTextline stab then stab else (isFunc stab).2

def Locals.past (addr32 : UInt32) (v : Locals) (stab : Stab) : Locals :=
  if isSource stab then
    { v with
      sourceAddr32 := FIX_INSTRUCTION_ADDR stab.nValue
      sourceFilename := some stab.nStrx }
  else if isTextline stab then
    { v with found := v.found || decide (v.sourceAddr32 + stab.nValue = addr32) }
  else
    { v with
      funcAddr32 := stab.nValue
      funcName := some stab.nStrx }

def localsAt (addr32 : UInt32) (stabs : List Stab) : Locals :=
  stabs.foldl (Locals.past addr32) Locals.start

section Stabs

variable {stab : Stab} {stabs : List Stab} {addr32 : UInt32} {i : Nat}

theorem not_source_of_textline (h : isTextline stab = true) : isSource stab = false := by
  have htype : stab.nType = N_SLINE := by simpa [isTextline] using h
  unfold isSource
  rw [htype]
  rfl

theorem marked_eq_self : marked stab = stab ↔
    isSource stab = true ∨ isTextline stab = true ∨ stab.nType = N_FUN := by
  unfold marked isFunc
  cases hs : isSource stab <;> cases ht : isTextline stab <;> try simp
  constructor
  · intro h
    rw [← h]
  · intro h
    rw [← h]

/-! ## The variables -/

theorem localsAt_append (stabs : List Stab) (stab : Stab) :
    localsAt addr32 (stabs ++ [stab]) = (localsAt addr32 stabs).past addr32 stab := by
  unfold localsAt
  rw [List.foldl_append]
  rfl

theorem sourceBase_append (stabs : List Stab) (stab : Stab) : sourceBase (stabs ++ [stab]) =
    if isSource stab then FIX_INSTRUCTION_ADDR stab.nValue else sourceBase stabs := by
  unfold sourceBase
  rw [List.filter_append, List.filter_singleton]
  cases isSource stab <;> simp

theorem localsAt_source (addr32 : UInt32) (stabs : List Stab) :
    (localsAt addr32 stabs).sourceAddr32 = sourceBase stabs := by
  induction stabs using List.reverseRecOn with
  | nil => rfl
  | append_singleton stabs stab ih =>
      rw [localsAt_append, sourceBase_append, Locals.past]
      split
      · rfl
      · split <;> exact ih

/-- The function of the variables is the last stab that is neither a source file nor a line. -/
theorem localsAt_func (addr32 : UInt32) (stabs : List Stab) :
    (localsAt addr32 stabs).funcName =
        ((stabs.filter fun s => !isSource s && !isTextline s).getLast?.map Stab.nStrx) ∧
      (localsAt addr32 stabs).funcAddr32 =
        ((stabs.filter fun s => !isSource s && !isTextline s).getLast?.map Stab.nValue).getD 0 := by
  induction stabs using List.reverseRecOn with
  | nil => exact ⟨rfl, rfl⟩
  | append_singleton stabs stab ih =>
      rw [localsAt_append, List.filter_append, List.filter_singleton, Locals.past]
      cases hs : isSource stab <;> cases ht : isTextline stab <;> simp [ih]

/-- Where every stab is a source file, a line or a function, the last function is the right one. -/
theorem localsAt_lastFun
    (h : ∀ s ∈ stabs, isSource s = true ∨ isTextline s = true ∨ s.nType = N_FUN) :
    (localsAt addr32 stabs).funcName = (lastFun stabs).map Stab.nStrx ∧
      (localsAt addr32 stabs).funcAddr32 = ((lastFun stabs).map Stab.nValue).getD 0 := by
  have hfilter : stabs.filter (fun s => !isSource s && !isTextline s) =
      stabs.filter fun s => s.nType == N_FUN := by
    refine List.filter_congr fun s hs => ?_
    by_cases hfun : s.nType = N_FUN
    · have hsource : isSource s = false := by
        unfold isSource
        rw [hfun]
        rfl
      have hline : isTextline s = false := by
        unfold isTextline
        rw [hfun]
        rfl
      simp [hsource, hline, hfun]
    · rcases h s hs with hsource | hline | hfun'
      · simp [hsource, hfun]
      · simp [hline, hfun]
      · exact absurd hfun' hfun
  unfold lastFun
  rw [← hfilter]
  exact localsAt_func addr32 stabs

theorem matchAt_eq (hi : stabs[i]? = some stab) : matchAt addr32 stabs i =
    (isTextline stab &&
      decide ((localsAt addr32 (stabs.take i)).sourceAddr32 + stab.nValue = addr32)) := by
  unfold matchAt
  rw [hi, localsAt_source]
  rfl

theorem take_succ_eq (hi : stabs[i]? = some stab) : stabs.take (i + 1) = stabs.take i ++ [stab] := by
  rw [List.take_add_one, hi]
  rfl

theorem localsAt_found (i : Nat) (hi : i ≤ stabs.length) :
    (localsAt addr32 (stabs.take i)).found = true ↔ ∃ j < i, matchAt addr32 stabs j = true := by
  induction i with
  | zero => simp [localsAt, Locals.start]
  | succ i ih =>
      have hget : stabs[i]? = some stabs[i] := List.getElem?_eq_getElem (by omega)
      have hstep : (localsAt addr32 (stabs.take (i + 1))).found = true ↔
          (localsAt addr32 (stabs.take i)).found = true ∨ matchAt addr32 stabs i = true := by
        rw [take_succ_eq hget, localsAt_append, matchAt_eq hget, Locals.past]
        cases hs : isSource stabs[i] with
        | true =>
            have ht : isTextline stabs[i] = false := by
              by_contra hc
              rw [not_source_of_textline (by simpa using hc)] at hs
              exact absurd hs (by decide)
            simp [ht]
        | false => cases ht : isTextline stabs[i] <;> simp
      rw [hstep, ih (by omega)]
      constructor
      · rintro (⟨j, hj, hm⟩ | hm)
        · exact ⟨j, by omega, hm⟩
        · exact ⟨i, by omega, hm⟩
      · rintro ⟨j, hj, hm⟩
        by_cases hji : j = i
        · exact Or.inr (hji ▸ hm)
        · exact Or.inl ⟨j, by omega, hm⟩

end Stabs

/-! ## The search -/

section Search

variable {T : StabTable} {addr32 : UInt32} {info : DebugInfo} {last curStab i : Nat} {v : Locals}
  {stab : Stab} {stabs : List Stab}

theorem searchStabs_past (h : isTextline stab = true →
    ¬ if v.sourceAddr32 + stab.nValue = addr32 then last < curStab else v.found = true) :
    searchStabs addr32 info last curStab v (stab :: stabs) =
      (searchStabs addr32 info last (curStab + SIZEOF_STAB) (v.past addr32 stab) stabs).behind
        (marked stab) := by
  rw [searchStabs, Locals.past, marked]
  cases hs : isSource stab with
  | true => rfl
  | false =>
      cases ht : isTextline stab with
      | false => rfl
      | true =>
          have hno := h ht
          by_cases hline : v.sourceAddr32 + stab.nValue = addr32
          · rw [if_pos hline] at hno
            simp [hline, hno]
          · rw [if_neg hline] at hno
            obtain ⟨file, func, base, funcAddr, found⟩ := v
            simp_all

/-- What is stored in `*info` for a line. -/
def report (v : Locals) (stab : Stab) : DebugInfo :=
  ⟨v.sourceFilename, v.funcName, v.funcAddr32, stab.nDesc.toUInt32⟩

theorem searchStabs_stop (hline : isTextline stab = true)
    (h : if v.sourceAddr32 + stab.nValue = addr32 then last < curStab else v.found = true) :
    searchStabs addr32 info last curStab v (stab :: stabs) =
      if v.sourceAddr32 + stab.nValue = addr32 then
        ⟨1, stab :: stabs, report v stab, curStab⟩
      else ⟨0, stab :: stabs, info, last⟩ := by
  have hs := not_source_of_textline hline
  rw [searchStabs]
  by_cases hmatch : v.sourceAddr32 + stab.nValue = addr32
  · rw [if_pos hmatch] at h
    simp [hs, hline, hmatch, h, report]
  · rw [if_neg hmatch] at h
    simp [hs, hline, hmatch, h]

theorem stops_iff (hi : T.entries[i]? = some stab) : Stops T addr32 last i ↔
    isTextline stab = true ∧
      if (localsAt addr32 (T.entries.take i)).sourceAddr32 + stab.nValue = addr32
        then last < T.address i else (localsAt addr32 (T.entries.take i)).found = true := by
  have hle : i ≤ T.entries.length := by
    have := (List.getElem?_eq_some_iff.1 hi).1
    omega
  have hline : lineAt T.entries i = isTextline stab := by
    unfold lineAt
    rw [hi]
    rfl
  unfold Stops
  rw [hline, matchAt_eq hi]
  refine and_congr_right fun ht => ?_
  simp only [ht, Bool.true_and, decide_eq_true_eq]
  split
  · rfl
  · exact (localsAt_found i hle).symm

/-- The search has gone past all entries in front of `i`, and what it has left of them. -/
structure Past (T : StabTable) (addr32 : UInt32) (last i : Nat) (entries : List Stab) : Prop where
  le : i ≤ T.entries.length
  before : ∀ j < i, ¬ Stops T addr32 last j
  entries : entries = (T.entries.take i).map marked ++ T.entries.drop i

/-- The answer of a search that stops at entry `i`. -/
structure StoppedAt (T : StabTable) (addr32 : UInt32) (info : DebugInfo) (last : Nat) (r : Lookup)
    (i : Nat) : Prop where
  past : Past T addr32 last i r.entries
  stops : Stops T addr32 last i
  ret : r.ret = if matchAt addr32 T.entries i = true then 1 else 0
  last : r.last = if matchAt addr32 T.entries i = true then T.address i else last
  line : ∃ stab, T.entries[i]? = some stab ∧ isTextline stab = true ∧
    r.info = if matchAt addr32 T.entries i = true then
      report (localsAt addr32 (T.entries.take i)) stab else info

/-- The answer of a search that goes past all entries. -/
structure RanOut (T : StabTable) (addr32 : UInt32) (info : DebugInfo) (last : Nat) (r : Lookup) :
    Prop where
  past : Past T addr32 last T.entries.length r.entries
  ret : r.ret = -1
  last : r.last = last
  info : r.info = info

/-- The answer of a search in the rest of a table, with what it has left in front. -/
def Lookup.prepend (front : List Stab) (r : Lookup) : Lookup :=
  { r with entries := front ++ r.entries }

theorem Lookup.prepend_behind (front : List Stab) (stab : Stab) (r : Lookup) :
    (r.behind stab).prepend front = r.prepend (front ++ [stab]) := by
  simp [prepend, behind]

theorem address_succ (T : StabTable) (i : Nat) : T.address (i + 1) = T.address i + SIZEOF_STAB := by
  unfold StabTable.address
  rw [Nat.mul_succ, Nat.add_assoc]

theorem searchStabs_from {r : Lookup} {k : Nat} (hk : i + k = T.entries.length)
    (hbefore : ∀ j < i, ¬ Stops T addr32 last j)
    (hr : (searchStabs addr32 info last (T.address i) (localsAt addr32 (T.entries.take i))
      (T.entries.drop i)).prepend ((T.entries.take i).map marked) = r) :
    (∃ j, StoppedAt T addr32 info last r j) ∨ RanOut T addr32 info last r := by
  induction k generalizing i with
  | zero =>
      right
      have hi : i = T.entries.length := hk
      subst hi
      subst hr
      have hdrop : T.entries.drop T.entries.length = [] := List.drop_length
      rw [hdrop]
      exact ⟨⟨Nat.le_refl _, hbefore, by rw [hdrop]; rfl⟩, rfl, rfl, rfl⟩
  | succ k ih =>
      have hlt : i < T.entries.length := by omega
      have hget : T.entries[i]? = some T.entries[i] := List.getElem?_eq_getElem hlt
      have hdrop : T.entries.drop i = T.entries[i] :: T.entries.drop (i + 1) :=
        List.drop_eq_getElem_cons hlt
      rw [hdrop] at hr
      by_cases hstops : Stops T addr32 last i
      · left
        obtain ⟨hline, hstop⟩ := (stops_iff hget).1 hstops
        have hmatch : matchAt addr32 T.entries i = true ↔
            (localsAt addr32 (T.entries.take i)).sourceAddr32 + T.entries[i].nValue = addr32 := by
          rw [matchAt_eq hget, hline, Bool.true_and, decide_eq_true_iff]
        rw [searchStabs_stop hline hstop] at hr
        have hentries : r.entries = (T.entries.take i).map marked ++ T.entries.drop i := by
          rw [← hr, hdrop]
          split <;> rfl
        have hpast : Past T addr32 last i r.entries := ⟨Nat.le_of_lt hlt, hbefore, hentries⟩
        by_cases hm : matchAt addr32 T.entries i = true
        · rw [if_pos (hmatch.1 hm)] at hr
          subst hr
          exact ⟨i, hpast, hstops, (if_pos hm).symm, (if_pos hm).symm, _, hget, hline,
            (if_pos hm).symm⟩
        · rw [if_neg fun hc => hm (hmatch.2 hc)] at hr
          subst hr
          exact ⟨i, hpast, hstops, (if_neg hm).symm, (if_neg hm).symm, _, hget, hline,
            (if_neg hm).symm⟩
      · have hnext : ∀ j < i + 1, ¬ Stops T addr32 last j := by
          intro j hj
          by_cases hji : j = i
          · rwa [hji]
          · exact hbefore j (by omega)
        refine ih (by omega) hnext ?_
        rw [searchStabs_past fun hline hstop => hstops ((stops_iff hget).2 ⟨hline, hstop⟩),
          Lookup.prepend_behind] at hr
        rw [address_succ, take_succ_eq hget, localsAt_append, List.map_append]
        exact hr

theorem getDebugInfo_cases (lo32 : UInt64 → UInt32) (T : StabTable) (addr : UInt64) (info : DebugInfo)
    (last : Nat) :
    (∃ j, StoppedAt T (FIX_INSTRUCTION_ADDR (lo32 addr)) info last
      (getDebugInfo lo32 T addr info last) j) ∨
    RanOut T (FIX_INSTRUCTION_ADDR (lo32 addr)) info last (getDebugInfo lo32 T addr info last) := by
  refine @searchStabs_from T _ info last 0 _ T.entries.length (Nat.zero_add _)
    (fun j hj => absurd hj (Nat.not_lt_zero j)) ?_
  rfl

end Search

/-! ## The query -/

/-- A lookup leaves the table as it is, names the last function in front of the line that it reports,
and gives the same answer when it is repeated. -/
structure PureQuery (lo32 : UInt64 → UInt32) (T : StabTable) (addr : UInt64) (info : DebugInfo)
    (last : Nat) : Prop where
  kept : (getDebugInfo lo32 T addr info last).entries = T.entries
  named : (getDebugInfo lo32 T addr info last).ret = 1 → ∃ i stab, T.entries[i]? = some stab ∧
    isTextline stab = true ∧ (getDebugInfo lo32 T addr info last).last = T.address i ∧
    (getDebugInfo lo32 T addr info last).info.funcName =
      (lastFun (T.entries.take i)).map Stab.nStrx ∧
    (getDebugInfo lo32 T addr info last).info.funcAddrLo =
      ((lastFun (T.entries.take i)).map Stab.nValue).getD 0
  repeated : ∀ info₂, (getDebugInfo lo32 (T.after (getDebugInfo lo32 T addr info last)) addr info₂
      last).ret = (getDebugInfo lo32 T addr info last).ret ∧
    (getDebugInfo lo32 (T.after (getDebugInfo lo32 T addr info last)) addr info₂ last).last =
      (getDebugInfo lo32 T addr info last).last ∧
    ((getDebugInfo lo32 T addr info last).ret = 1 →
      (getDebugInfo lo32 (T.after (getDebugInfo lo32 T addr info last)) addr info₂ last).info =
        (getDebugInfo lo32 T addr info last).info)

section Query

variable {T : StabTable} {addr32 : UInt32} {info info₂ : DebugInfo} {last i : Nat} {r r₂ : Lookup}
  {entries : List Stab}

/-- Every stab that the search comes to is a source file, a text line or a function. -/
def Classified (T : StabTable) (addr32 : UInt32) (last : Nat) : Prop :=
  ∀ i stab, T.entries[i]? = some stab → (∀ j < i, ¬ Stops T addr32 last j) →
    isSource stab = true ∨ isTextline stab = true ∨ stab.nType = N_FUN

theorem Past.kept_iff (h : Past T addr32 last i entries) :
    entries = T.entries ↔ ∀ stab ∈ T.entries.take i, marked stab = stab := by
  have hsplit : T.entries = T.entries.take i ++ T.entries.drop i := (List.take_append_drop _ _).symm
  constructor
  · intro heq
    have hmap : (T.entries.take i).map marked = T.entries.take i :=
      List.append_cancel_right (h.entries.symm.trans (heq.trans hsplit))
    intro stab hstab
    obtain ⟨j, hj, rfl⟩ := List.mem_iff_getElem.1 hstab
    have hget := List.getElem_map (f := marked) (l := T.entries.take i) (i := j) (h := by simpa using hj)
    rw [← hget]
    exact List.getElem_of_eq hmap _
  · intro hall
    rw [h.entries, List.map_congr_left hall, List.map_id', ← hsplit]

theorem Past.classified_iff (h : Past T addr32 last i entries)
    (hend : i = T.entries.length ∨ Stops T addr32 last i) :
    Classified T addr32 last ↔ ∀ stab ∈ T.entries.take i, marked stab = stab := by
  constructor
  · intro hall stab hstab
    obtain ⟨j, hj, rfl⟩ := List.mem_iff_getElem.1 hstab
    have hji : j < i := by
      rw [List.length_take] at hj
      omega
    refine marked_eq_self.2 (hall j _ ?_ fun m hm => h.before m (by omega))
    rw [List.getElem_take]
    exact List.getElem?_eq_getElem _
  · intro hall j stab hget hbefore
    by_cases hji : j < i
    · refine marked_eq_self.1 (hall stab (List.mem_of_getElem? (i := j) ?_))
      rw [List.getElem?_take, if_pos hji, hget]
    · rcases hend with hlen | hstops
      · have := (List.getElem?_eq_some_iff.1 hget).1
        omega
      · have hj : j = i := by
          by_contra hne
          exact hbefore i (by omega) hstops
        rw [hj] at hget
        exact Or.inr (Or.inl ((stops_iff hget).1 hstops).1)

theorem StoppedAt.unique {j : Nat} (h : StoppedAt T addr32 info last r i)
    (h₂ : StoppedAt T addr32 info₂ last r₂ j) : i = j := by
  by_contra hne
  rcases Nat.lt_or_gt_of_ne hne with hlt | hlt
  · exact h₂.past.before i hlt h.stops
  · exact h.past.before j hlt h₂.stops

theorem same_answer
    (h : (∃ j, StoppedAt T addr32 info last r j) ∨ RanOut T addr32 info last r)
    (h₂ : (∃ j, StoppedAt T addr32 info₂ last r₂ j) ∨ RanOut T addr32 info₂ last r₂) :
    r₂.ret = r.ret ∧ r₂.last = r.last ∧ (r.ret = 1 → r₂.info = r.info) := by
  rcases h with ⟨j, h⟩ | h
  · rcases h₂ with ⟨j₂, h₂⟩ | h₂
    · obtain rfl := h.unique h₂
      refine ⟨h₂.ret.trans h.ret.symm, h₂.last.trans h.last.symm, fun hone => ?_⟩
      obtain ⟨stab, hget, -, hinfo⟩ := h.line
      obtain ⟨stab₂, hget₂, -, hinfo₂⟩ := h₂.line
      obtain rfl := Option.some.inj (hget.symm.trans hget₂)
      by_cases hm : matchAt addr32 T.entries j = true
      · rw [hinfo, hinfo₂, if_pos hm, if_pos hm]
      · have hret := h.ret
        rw [if_neg hm, hone] at hret
        exact absurd hret (by decide)
    · obtain ⟨stab, hget, -⟩ := h.line
      exact absurd h.stops (h₂.past.before j (List.getElem?_eq_some_iff.1 hget).1)
  · rcases h₂ with ⟨j₂, h₂⟩ | h₂
    · obtain ⟨stab, hget, -⟩ := h₂.line
      exact absurd h₂.stops (h.past.before j₂ (List.getElem?_eq_some_iff.1 hget).1)
    · refine ⟨h₂.ret.trans h.ret.symm, h₂.last.trans h.last.symm, fun hone => ?_⟩
      rw [h.ret] at hone
      exact absurd hone (by decide)

theorem after_eq (h : r.entries = T.entries) : T.after r = T := by
  unfold StabTable.after
  rw [h]

end Query

variable {lo32 : UInt64 → UInt32} {T : StabTable} {addr : UInt64} {info : DebugInfo} {last : Nat}

theorem kept_iff_classified : (getDebugInfo lo32 T addr info last).entries = T.entries ↔
    Classified T (FIX_INSTRUCTION_ADDR (lo32 addr)) last := by
  rcases getDebugInfo_cases lo32 T addr info last with ⟨j, h⟩ | h
  · rw [h.past.kept_iff, h.past.classified_iff (Or.inr h.stops)]
  · rw [h.past.kept_iff, h.past.classified_iff (Or.inl rfl)]

/-- A lookup is a pure query with the right function exactly where all stabs that it comes to are
source files, text lines or functions. -/
theorem pure_query_iff (lo32 : UInt64 → UInt32) (T : StabTable) (addr : UInt64) (info : DebugInfo)
    (last : Nat) : PureQuery lo32 T addr info last ↔
      Classified T (FIX_INSTRUCTION_ADDR (lo32 addr)) last := by
  constructor
  · intro h
    exact kept_iff_classified.1 h.kept
  · intro hall
    have hkept := (@kept_iff_classified lo32 T addr info last).2 hall
    refine ⟨hkept, fun hone => ?_, fun info₂ => ?_⟩
    · rcases getDebugInfo_cases lo32 T addr info last with ⟨j, h⟩ | h
      · obtain ⟨stab, hget, hline, hinfo⟩ := h.line
        have hret := h.ret
        rw [hone] at hret
        by_cases hm : matchAt (FIX_INSTRUCTION_ADDR (lo32 addr)) T.entries j = true
        · have hmarked := (h.past.classified_iff (Or.inr h.stops)).1 hall
          have hfun := @localsAt_lastFun _ (FIX_INSTRUCTION_ADDR (lo32 addr))
            fun s hs => marked_eq_self.1 (hmarked s hs)
          refine ⟨j, stab, hget, hline, h.last.trans (if_pos hm), ?_⟩
          rw [hinfo, if_pos hm]
          exact hfun
        · rw [if_neg hm] at hret
          exact absurd hret (by decide)
      · rw [h.ret] at hone
        exact absurd hone (by decide)
    · rw [after_eq hkept]
      exact same_answer (getDebugInfo_cases lo32 T addr info last)
        (getDebugInfo_cases lo32 T addr info₂ last)

def sampleTable : StabTable :=
  ⟨0x1000, [⟨1, N_SO, 0, 2, 0x8000⟩, ⟨5, N_FUN, 0, 0, 0x8000⟩, ⟨9, 0xa0, 0, 0, 8⟩,
    ⟨0, N_SLINE, 0, 7, 0⟩, ⟨0, N_SLINE, 0, 8, 4⟩], by decide⟩

/-- Behind the parameter its name and offset stand for the function, and its stab has changed. -/
theorem pure_query_fails : ∃ r, getDebugInfo UInt64.toUInt32 sampleTable 0x8000 ⟨none, none, 0, 0⟩ 0 =
      r ∧ r.ret = 1 ∧ r.info.funcName = some 9 ∧ r.info.funcAddrLo = 8 ∧
    r.entries[2]? = some ⟨9, N_FUN, 0, 0, 8⟩ ∧
    ¬ PureQuery UInt64.toUInt32 sampleTable 0x8000 ⟨none, none, 0, 0⟩ 0 := by
  have hentries : (getDebugInfo UInt64.toUInt32 sampleTable 0x8000 ⟨none, none, 0, 0⟩ 0).entries ≠
      sampleTable.entries := by decide
  exact ⟨_, rfl, by decide, by decide, by decide, by decide, fun h => hentries h.kept⟩

end Aimv6.Debug
