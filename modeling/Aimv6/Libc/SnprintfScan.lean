import Aimv6.Libc.SnprintfConcat

/-! # Where the scan of a format ends

A format that ends inside a directive is scanned beyond its NUL: the switch takes
the NUL for an unknown conversion, prints it and steps over it. Only a buffer
that is full by then ends the call before the next character is read.
-/

namespace Aimv6.Libc

open Support

variable {T : Target} {m : State T} {text : Long T → List UInt8} {fmt ds : List UInt8}
  {ap : Nat → Long T} {size : Nat}

/-- The part of a format in front of an unfinished directive, a percent sign and digits. -/
def finished (fmt : List UInt8) : List UInt8 := ((fmt.reverse.dropWhile isDigit).drop 1).reverse

theorem unfinished_cases {inside : Bool} (hnul : 0 ∉ fmt) (h : complete inside fmt = false) :
    (inside = true ∧ ∀ ch ∈ fmt, isDigit ch = true) ∨
      ∃ head ds, fmt = head ++ '%'.toUInt8 :: ds ∧ complete inside head = true ∧
        ∀ ch ∈ ds, isDigit ch = true := by
  induction fmt generalizing inside with
  | nil =>
      left
      cases inside with
      | false => exact absurd h (by decide)
      | true => exact ⟨rfl, fun ch hch => absurd hch List.not_mem_nil⟩
  | cons ch fmt ih =>
      have hzero : ch ≠ 0 := fun hzero => hnul (hzero ▸ List.mem_cons_self)
      have hnul' : 0 ∉ fmt := fun hmem => hnul (List.mem_cons_of_mem _ hmem)
      rw [complete, if_neg hzero] at h
      cases inside with
      | true =>
          rw [if_pos rfl] at h
          rcases ih hnul' h with ⟨hdigit, hall⟩ | ⟨head, ds, rfl, hhead, hds⟩
          · left
            refine ⟨rfl, fun d hd => ?_⟩
            rcases List.mem_cons.1 hd with rfl | hd
            · exact hdigit
            · exact hall d hd
          · right
            refine ⟨ch :: head, ds, rfl, ?_, hds⟩
            rw [complete, if_neg hzero, if_pos rfl]
            exact hhead
      | false =>
          rw [if_neg (by decide)] at h
          right
          rcases ih hnul' h with ⟨hpercent, hall⟩ | ⟨head, ds, rfl, hhead, hds⟩
          · exact ⟨[], fmt, by rw [of_decide_eq_true hpercent]; rfl, rfl, hall⟩
          · refine ⟨ch :: head, ds, rfl, ?_, hds⟩
            rw [complete, if_neg hzero, if_neg (by decide)]
            exact hhead

theorem finished_append {head : List UInt8} (hds : ∀ ch ∈ ds, isDigit ch = true) :
    finished (head ++ '%'.toUInt8 :: ds) = head := by
  have hdrop : (ds.reverse ++ '%'.toUInt8 :: head.reverse).dropWhile isDigit =
      '%'.toUInt8 :: head.reverse := by
    rw [List.dropWhile_append_of_pos (fun ch hch => hds ch (List.mem_reverse.1 hch))]
    rfl
  unfold finished
  rw [List.reverse_append, List.reverse_cons, List.append_assoc, List.singleton_append, hdrop,
    List.drop_one, List.tail_cons, List.reverse_reverse]

theorem finished_spec (hnul : 0 ∉ fmt) (h : complete false fmt = false) :
    ∃ ds, fmt = finished fmt ++ '%'.toUInt8 :: ds ∧ complete false (finished fmt) = true ∧
      ∀ ch ∈ ds, isDigit ch = true := by
  rcases unfinished_cases hnul h with ⟨hinside, -⟩ | ⟨head, ds, rfl, hhead, hds⟩
  · exact absurd hinside (by decide)
  · rw [finished_append hds]
    exact ⟨ds, rfl, hhead, hds⟩

theorem digits_emits (hc : m.control = .fmtLoop ∨ m.control = .widthLoop) (hfmt : m.fmt = ds)
    (hds : ∀ ch ∈ ds, isDigit ch = true) :
    ∃ m', Emits (State.step text) m [] m' ∧ m'.control = .fmtLoop ∧ m'.fmt = [] := by
  induction ds generalizing m with
  | nil =>
      rcases hc with hc | hc
      · exact ⟨m, Emits.refl m, hc, hfmt⟩
      · have hstep : State.step text m = .silent { m with control := .fmtLoop } := by
          unfold State.step
          rw [hc]
          dsimp only
          rw [hfmt]
          rfl
        exact ⟨_, Emits.quiet hstep, rfl, hfmt⟩
  | cons ch ds ih =>
      have hdigit := hds ch List.mem_cons_self
      have hds' : ∀ ch ∈ ds, isDigit ch = true := fun d hd => hds d (List.mem_cons_of_mem _ hd)
      have hwidth : ∀ {m : State T}, m.control = .widthLoop → m.fmt = ch :: ds →
          ∃ m', Emits (State.step text) m [] m' ∧ m'.control = .fmtLoop ∧ m'.fmt = [] := by
        intro m hc hfmt
        have hstep : State.step text m = .silent { m.skip .widthLoop with
            width := m.width * 10 + BitVec.ofNat _ ((deref m.fmt).toNat - 48) } := by
          unfold State.step
          rw [hc]
          exact if_pos (by rw [hfmt]; exact hdigit)
        rw [skip_cons hfmt] at hstep
        obtain ⟨m', hrun, hend⟩ := @ih { m with
          control := .widthLoop
          fmt := ds
          width := m.width * 10 + BitVec.ofNat _ ((deref m.fmt).toNat - 48) } (Or.inr rfl) rfl hds'
        exact ⟨m', Emits.silent hstep hrun, hend⟩
      rcases hc with hc | hc
      · rcases Label.of_digit.2 hdigit with hlabel | hlabel
        · have hstep : State.step text m =
              .silent { m.skip .fmtLoop with flag := m.flag ||| FLAG_ZEROPAD } := by
            unfold State.step
            rw [hc]
            dsimp only
            unfold State.fmtSwitch
            rw [show deref m.fmt = ch by rw [hfmt]; rfl, hlabel]
          rw [skip_cons hfmt] at hstep
          obtain ⟨m', hrun, hend⟩ := @ih { m with
            control := .fmtLoop, fmt := ds, flag := m.flag ||| FLAG_ZEROPAD } (Or.inl rfl) rfl hds'
          exact ⟨m', Emits.silent hstep hrun, hend⟩
        · have hstep : State.step text m = .silent { m with control := .widthLoop } := by
            unfold State.step
            rw [hc]
            dsimp only
            unfold State.fmtSwitch
            rw [show deref m.fmt = ch by rw [hfmt]; rfl, hlabel]
          obtain ⟨m', hrun, hend⟩ := @hwidth { m with control := .widthLoop } rfl hfmt
          exact ⟨m', Emits.silent hstep hrun, hend⟩
      · exact hwidth hc hfmt

/-- The unfinished directive: the percent sign and the NUL are printed, and the NUL is stepped over. -/
theorem Behind.faults (text : Long T → List UInt8) {c : Settings T}
    (h : Behind m ('%'.toUInt8 :: ds) ap c) (hds : ∀ ch ∈ ds, isDigit ch = true) :
    ∃ m', Emits (State.step text) m ['%'.toUInt8, 0] m' ∧ State.step text m' = .fault := by
  obtain ⟨at₁, hrun, hc, hfmt⟩ := @digits_emits T { m with control := .fmtLoop, fmt := ds } text ds
    (Or.inl rfl) rfl hds
  have hunknown : State.step text at₁ = .emit '%'.toUInt8 { at₁ with control := .printDefault } := by
    unfold State.step
    rw [hc]
    dsimp only
    unfold State.fmtSwitch
    rw [hfmt]
    rfl
  have hnul : State.step text { at₁ with control := .printDefault } =
      .emit 0 { at₁ with control := .beyond } := by
    unfold State.step State.skip
    dsimp only
    rw [hfmt]
    rfl
  refine ⟨_, ((percent_emits h.control h.fmt).trans hrun).trans
    (Emits.emit hunknown (Emits.emit hnul (Emits.refl _))), rfl⟩

theorem splice_self (n : Nat) (ap : Nat → Long T) : splice n ap (fun i => ap (n + i)) = ap := by
  funext i
  unfold splice
  split
  · rfl
  · show ap (n + (i - n)) = ap i
    rw [Nat.add_sub_of_le (by omega)]

/-- A call comes back, and no character behind the NUL is read, exactly where the format is complete,
or where the buffer is full before the end of the unfinished directive. -/
theorem scan_inside_iff (text : Long T → List UInt8) (ap : Nat → Long T) (hnul : 0 ∉ fmt)
    (hsize : 1 ≤ size) (str : Nat → UInt8) :
    (∃ fuel r str', vsnprintf text fuel str size fmt ap = some (r, str')) ↔
      complete false fmt = true ∨ ∀ out, Stops (State.step text) (State.start (finished fmt) ap) out →
        size ≤ out.length + 2 := by
  by_cases hfmt : complete false fmt = true
  · obtain ⟨fuel, r, str', out, hrun, -⟩ := @vsnprintf_holds T text fmt ap size hfmt hsize str
    exact iff_of_true ⟨fuel, r, str', hrun⟩ (Or.inl hfmt)
  · obtain ⟨ds, hsplit, hhead, hds⟩ := finished_spec hnul (Bool.eq_false_iff.2 hfmt)
    have hnul' : 0 ∉ finished fmt := by
      intro hmem
      rw [hsplit] at hnul
      exact hnul (List.mem_append_left _ hmem)
    have hstart : State.start (finished fmt ++ '%'.toUInt8 :: ds)
        (splice (words false (finished fmt)) ap fun i => ap (words false (finished fmt) + i)) =
        State.start fmt ap := by
      rw [splice_self, ← hsplit]
    have hends : ∀ out, Stops (State.step text) (State.start (finished fmt) ap) out →
        ∃ m, Emits (State.step text) (State.start fmt ap) (out ++ ['%'.toUInt8, 0]) m ∧
          State.step text m = .fault := by
      intro out hstop
      obtain ⟨m, hrun, hbehind⟩ := stops_behind ('%'.toUInt8 :: ds)
        (fun i => ap (words false (finished fmt) + i)) hhead hnul' hstop
      obtain ⟨m', hrun', hfault⟩ := hbehind.faults text hds
      rw [hstart] at hrun
      exact ⟨m', hrun.trans hrun', hfault⟩
    constructor
    · rintro ⟨fuel, r, str', hcall⟩
      right
      intro out hstop
      by_contra hlong
      obtain ⟨m, hrun, hfault⟩ := hends out hstop
      have hroom : (⟨str, 0⟩ : Buffer).pos + (out ++ ['%'.toUInt8, 0]).length < size := by
        rw [List.length_append]
        show 0 + (out.length + 2) < size
        omega
      obtain ⟨k, hfill⟩ := hrun.fill_faulted hfault hroom
      obtain ⟨o, hfill', hfine⟩ := vsnprintf_some hcall
      exact hfine (fill_unique hfill' hfill)
    · intro hcond
      have hcond := hcond.resolve_left hfmt
      have hlong : ∃ out m, Emits (State.step text) (State.start fmt ap) out m ∧ out.length = size := by
        obtain ⟨out, hfirst⟩ := (snprintf_lively text).firstBytes size (start_inv hhead ap)
        cases hfirst with
        | inl hfirst =>
            obtain ⟨hlen, m, hrun⟩ := hfirst
            have hrun' := (start_extend ('%'.toUInt8 :: ds)
              (fun i => ap (words false (finished fmt) + i)) hhead hrun).1
            rw [hstart] at hrun'
            exact ⟨out, _, hrun', hlen⟩
        | inr hfirst =>
            obtain ⟨m, hrun, -⟩ := hends out hfirst.2
            have hle : size ≤ (out ++ ['%'.toUInt8, 0]).length := by
              rw [List.length_append]
              exact hcond out hfirst.2
            obtain ⟨u, hu⟩ := hrun.take hle
            exact ⟨_, u, hu, List.length_take_of_le hle⟩
      obtain ⟨out, m, hrun, hlen⟩ := hlong
      obtain ⟨fuel, hcall⟩ := vsnprintf_long hrun hlen hsize str
      exact ⟨fuel, _, _, hcall⟩

/-- The format `"%5"` in a buffer of two. -/
theorem scan_inside_iff_sample : 0 ∉ "%5".toList.map Char.toUInt8 ∧ 1 ≤ 2 ∧
    ((∃ fuel r str', vsnprintf (T := .armv7a) (fun _ => []) fuel (fun _ => 255) 2
        ("%5".toList.map Char.toUInt8) (fun _ => 0) = some (r, str')) ↔
      complete false ("%5".toList.map Char.toUInt8) = true ∨
        ∀ out, Stops (State.step fun _ => []) (State.start (finished ("%5".toList.map Char.toUInt8))
          fun _ => (0 : Long .armv7a)) out → 2 ≤ out.length + 2) := by
  have hnul : 0 ∉ "%5".toList.map Char.toUInt8 := by decide
  have hsize : 1 ≤ 2 := by decide
  exact ⟨hnul, hsize, scan_inside_iff (T := .armv7a) (fun _ => []) (fun _ => 0) hnul hsize _⟩

/-- `vsnprintf(str, 16, "%", ap)` reads on behind its format. -/
theorem scan_beyond : ¬∀ (T : Target) (text : Long T → List UInt8) (fmt : List UInt8)
    (ap : Nat → Long T) (size : Nat) (str : Nat → UInt8), 0 ∉ fmt → 1 ≤ size →
    ∃ fuel r str', vsnprintf text fuel str size fmt ap = some (r, str') := by
  intro h
  obtain ⟨fuel, r, str', hcall⟩ := h .armv7a (fun _ => []) ['%'.toUInt8] (fun _ => 0) 16
    (fun _ => 255) (by decide) (by decide)
  have hstart : Behind (State.start ['%'.toUInt8] fun _ => (0 : Long .armv7a)) ['%'.toUInt8] _ _ :=
    ⟨rfl, rfl, rfl, rfl⟩
  obtain ⟨m, hrun, hfault⟩ := hstart.faults (fun _ => []) fun ch hch => absurd hch List.not_mem_nil
  have hroom : (⟨fun _ => 255, 0⟩ : Buffer).pos + ['%'.toUInt8, 0].length < 16 := by decide
  obtain ⟨k, hfill⟩ := hrun.fill_faulted hfault hroom
  obtain ⟨o, hfill', hfine⟩ := vsnprintf_some hcall
  exact hfine (fill_unique hfill' hfill)

end Aimv6.Libc
