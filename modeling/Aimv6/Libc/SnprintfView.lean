import Aimv6.Libc.SnprintfSteps

/-! # What a step of the formatter reads

Of the variables that are set in the body of the loop a turn reads none that it
has not set, and of the flags only the sign is looked at. So a run depends on
the format, the arguments, the width and the sign alone.
-/

namespace Aimv6.Libc

open Support

variable {T : Target} {text : Long T → List UInt8} {fmt : List UInt8} {ap : Nat → Long T}

/-- The bytes in front of `n`. -/
def shown (n : Nat) (buf : Nat → UInt8) : Nat → UInt8 := fun i => if i < n then buf i else 0

/-- The variables that are read before they are set. -/
def State.view (m : State T) : State T :=
  match m.control with
  | .digitLoop | .printDigits | .zeroPad | .blankPad =>
      { m with flag := m.flag &&& FLAG_NEG, buf := shown m.bufPos m.buf, len := 0, s := [] }
  | .copyString | .padString =>
      { m with flag := m.flag &&& FLAG_NEG, uval := 0, base := 0, bufPos := 0, buf := fun _ => 0 }
  | _ => { State.start m.fmt m.ap with
      control := m.control, width := m.width, flag := m.flag &&& FLAG_NEG }

theorem flag_view (flag : BitVec 32) : flag &&& FLAG_NEG &&& FLAG_NEG = flag &&& FLAG_NEG := by
  rw [BitVec.and_assoc, BitVec.and_self]

theorem flag_view_or (flag b : BitVec 32) :
    (flag &&& FLAG_NEG ||| b) &&& FLAG_NEG = (flag ||| b) &&& FLAG_NEG := by
  rw [BitVec.and_or_distrib_right, flag_view, ← BitVec.and_or_distrib_right]

section
variable {c : Control} {uval uval' width base base' : Long T} {flag flag' len len' : BitVec 32}
  {n bufPos' : Nat} {buf buf' : Nat → UInt8} {s s' : List UInt8}

theorem view_of_digits (hc : c = .digitLoop ∨ c = .printDigits ∨ c = .zeroPad ∨ c = .blankPad) :
    State.view ⟨c, fmt, ap, uval, width, base, flag, len, n, buf, s⟩ =
      ⟨c, fmt, ap, uval, width, base, flag &&& FLAG_NEG, 0, n, shown n buf, []⟩ := by
  rcases hc with rfl | rfl | rfl | rfl <;> rfl

theorem view_of_string (hc : c = .copyString ∨ c = .padString) :
    State.view ⟨c, fmt, ap, uval, width, base, flag, len, n, buf, s⟩ =
      ⟨c, fmt, ap, 0, width, 0, flag &&& FLAG_NEG, len, 0, fun _ => 0, s⟩ := by
  rcases hc with rfl | rfl <;> rfl

theorem view_of_scan (hc : c = .main ∨ c = .fmtLoop ∨ c = .widthLoop ∨ c = .nextFmt ∨
      c = .printDefault ∨ c = .beyond) :
    State.view ⟨c, fmt, ap, uval, width, base, flag, len, n, buf, s⟩ =
      ⟨c, fmt, ap, 0, width, 0, flag &&& FLAG_NEG, 0, 0, fun _ => 0, []⟩ := by
  rcases hc with rfl | rfl | rfl | rfl | rfl | rfl <;> rfl

theorem view_digits (hc : c = .digitLoop ∨ c = .printDigits ∨ c = .zeroPad ∨ c = .blankPad)
    (hflag : flag &&& FLAG_NEG = flag' &&& FLAG_NEG) (hbuf : ∀ i < n, buf i = buf' i) :
    State.view ⟨c, fmt, ap, uval, width, base, flag, len, n, buf, s⟩ =
      State.view ⟨c, fmt, ap, uval, width, base, flag', len', n, buf', s'⟩ := by
  have hshown : shown n buf = shown n buf' := by
    funext i
    unfold shown
    split
    · exact hbuf i ‹_›
    · rfl
  rw [view_of_digits hc, view_of_digits hc, hflag, hshown]

theorem view_string (hc : c = .copyString ∨ c = .padString)
    (hflag : flag &&& FLAG_NEG = flag' &&& FLAG_NEG) :
    State.view ⟨c, fmt, ap, uval, width, base, flag, len, n, buf, s⟩ =
      State.view ⟨c, fmt, ap, uval', width, base', flag', len, bufPos', buf', s⟩ := by
  rw [view_of_string hc, view_of_string hc, hflag]

theorem view_scan (hc : c = .main ∨ c = .fmtLoop ∨ c = .widthLoop ∨ c = .nextFmt ∨
      c = .printDefault ∨ c = .beyond) (hflag : flag &&& FLAG_NEG = flag' &&& FLAG_NEG) :
    State.view ⟨c, fmt, ap, uval, width, base, flag, len, n, buf, s⟩ =
      State.view ⟨c, fmt, ap, uval', width, base', flag', len', bufPos', buf', s'⟩ := by
  rw [view_of_scan hc, view_of_scan hc, hflag]

end

theorem byWidth_view {flag flag' : BitVec 32} {uval width base : Long T} {len len' : BitVec 32} {n : Nat}
    {buf buf' : Nat → UInt8} {s s' : List UInt8} (hflag : flag &&& FLAG_NEG = flag' &&& FLAG_NEG)
    (hbuf : ∀ i < n, buf i = buf' i) :
    Action.Agree State.view (State.byWidth ⟨.digitLoop, fmt, ap, uval, width, base, flag, len, n, buf, s⟩)
      (State.byWidth ⟨.digitLoop, fmt, ap, uval, width, base, flag', len', n, buf', s'⟩) := by
  have hsign : flag &&& FLAG_NEG ≠ 0 ↔ flag' &&& FLAG_NEG ≠ 0 := by rw [hflag]
  unfold State.byWidth State.emitSign State.store
  dsimp only
  apply Action.Agree.ite Iff.rfl
  · intro _
    exact Action.Agree.ite hsign (fun _ => Action.Agree.emit rfl (view_digits (by simp) hflag hbuf))
      (fun _ => Action.Agree.silent (view_digits (by simp) hflag hbuf))
  · intro _
    apply Action.Agree.ite (and_congr Iff.rfl (iff_of_true (flag_zeropad flag) (flag_zeropad flag')))
    · intro _
      exact Action.Agree.ite hsign (fun _ => Action.Agree.emit rfl (view_digits (by simp) hflag hbuf))
        (fun _ => Action.Agree.silent (view_digits (by simp) hflag hbuf))
    · intro _
      apply Action.Agree.ite Iff.rfl
      · intro _
        apply Action.Agree.ite hsign
        · intro _
          refine Action.Agree.ite Iff.rfl (fun _ => Action.Agree.silent (view_digits (by simp) hflag ?_)) (fun _ => rfl)
          intro i hi
          by_cases hin : i = n
          · rw [hin, Function.update_self, Function.update_self]
          · rw [Function.update_of_ne hin, Function.update_of_ne hin]
            exact hbuf i (by omega)
        · exact fun _ => Action.Agree.silent (view_digits (by simp) hflag hbuf)
      · exact fun _ => Action.Agree.silent (view_scan (by simp) hflag)

theorem padLoop_view {c : Control} (hc : c = .zeroPad ∨ c = .blankPad) {flag flag' : BitVec 32}
    {uval width base : Long T} {len len' : BitVec 32} {n : Nat} {buf buf' : Nat → UInt8}
    {s s' : List UInt8} (hflag : flag &&& FLAG_NEG = flag' &&& FLAG_NEG)
    (hbuf : ∀ i < n, buf i = buf' i) (ch : UInt8) :
    Action.Agree State.view (State.padLoop ⟨c, fmt, ap, uval, width, base, flag, len, n, buf, s⟩ ch)
      (State.padLoop ⟨c, fmt, ap, uval, width, base, flag', len', n, buf', s'⟩ ch) := by
  have hdigits : c = .digitLoop ∨ c = .printDigits ∨ c = .zeroPad ∨ c = .blankPad :=
    Or.inr (Or.inr hc)
  unfold State.padLoop State.emitBuf
  dsimp only
  apply Action.Agree.ite Iff.rfl
  · intro hnonneg
    apply Action.Agree.ite Iff.rfl
    · exact fun _ => Action.Agree.emit rfl (view_digits hdigits hflag hbuf)
    · intro hlt
      have hindex : (width - 1).toNat < n := by
        have htop := (width - 1).isLt
        rw [BitVec.toInt_eq_toNat_cond] at hnonneg hlt
        split at hnonneg <;> omega
      exact Action.Agree.ite Iff.rfl
        (fun _ => Action.Agree.emit (hbuf _ hindex) (view_digits hdigits hflag hbuf)) (fun _ => rfl)
  · exact fun _ => Action.Agree.silent (view_scan (by simp) hflag)

theorem step_view (m : State T) :
    Action.Agree State.view (State.step text m.view) (State.step text m) := by
  obtain ⟨control, fmt, ap, uval, width, base, flag, len, bufPos, buf, s⟩ := m
  have hflag := flag_view flag
  have hbuf : ∀ i < bufPos, shown bufPos buf i = buf i := fun i hi => if_pos hi
  cases control with
  | main =>
      rw [view_of_scan (by simp)]
      unfold State.step State.skip
      dsimp only
      refine Action.Agree.ite Iff.rfl (fun _ => rfl) (fun _ => Action.Agree.ite Iff.rfl ?_ ?_)
      · intro _
        cases fmt with
        | nil => exact Action.Agree.silent (view_scan (by simp) hflag)
        | cons ch fmt => exact Action.Agree.silent (view_scan (by simp) hflag)
      · exact fun _ => Action.Agree.silent (view_scan (by simp) hflag)
  | fmtLoop =>
      rw [view_of_scan (by simp)]
      unfold State.step State.fmtSwitch State.getInt State.getUint
      dsimp only
      cases hlabel : Label.of (deref fmt) with
      | zero =>
          cases fmt with
          | nil => exact Action.Agree.silent (view_scan (by simp [State.skip]) (flag_view_or _ _))
          | cons ch fmt => exact Action.Agree.silent (view_scan (by simp [State.skip]) (flag_view_or _ _))
      | nonzero => exact Action.Agree.silent (view_scan (by simp) hflag)
      | d =>
          dsimp only
          split
          · exact Action.Agree.silent (view_digits (by simp) (flag_view_or _ _) (by omega))
          · exact Action.Agree.silent (view_digits (by simp) hflag (by omega))
      | o => exact Action.Agree.silent (view_digits (by simp) hflag (by omega))
      | x => exact Action.Agree.silent (view_digits (by simp) hflag (by omega))
      | u => exact Action.Agree.silent (view_digits (by simp) hflag (by omega))
      | c => exact Action.Agree.emit rfl (view_scan (by simp) hflag)
      | s => exact Action.Agree.silent (view_string (by simp) hflag)
      | percent => exact Action.Agree.emit rfl (view_scan (by simp) hflag)
      | other => exact Action.Agree.emit rfl (view_scan (by simp) hflag)
  | widthLoop =>
      rw [view_of_scan (by simp)]
      unfold State.step State.skip
      dsimp only
      apply Action.Agree.ite Iff.rfl
      · intro _
        cases fmt with
        | nil => exact Action.Agree.silent (view_scan (by simp) hflag)
        | cons ch fmt => exact Action.Agree.silent (view_scan (by simp) hflag)
      · exact fun _ => Action.Agree.silent (view_scan (by simp) hflag)
  | digitLoop =>
      have hnext : ∀ ch : UInt8, ∀ i < bufPos + 1,
          Function.update (shown bufPos buf) bufPos ch i = Function.update buf bufPos ch i := by
        intro ch i hi
        by_cases hin : i = bufPos
        · rw [hin, Function.update_self, Function.update_self]
        · rw [Function.update_of_ne hin, Function.update_of_ne hin]
          exact hbuf i (by omega)
      rw [view_of_digits (by simp)]
      unfold State.step State.store
      dsimp only
      apply Action.Agree.ite Iff.rfl
      · intro _
        exact Action.Agree.ite Iff.rfl (fun _ => Action.Agree.silent (view_digits (by simp) hflag (hnext _)))
          (fun _ => rfl)
      · intro _
        apply Action.Agree.ite Iff.rfl
        · rintro rfl
          exact byWidth_view hflag (hnext _)
        · exact fun _ => byWidth_view hflag hbuf
  | printDigits =>
      rw [view_of_digits (by simp)]
      unfold State.step State.emitBuf
      dsimp only
      cases bufPos with
      | zero => exact Action.Agree.silent (view_scan (by simp) hflag)
      | succ k =>
          refine Action.Agree.ite Iff.rfl (fun _ => Action.Agree.emit (hbuf k (Nat.lt_succ_self k)) ?_) (fun _ => rfl)
          exact view_digits (by simp) hflag fun i hi => hbuf i (Nat.lt_succ_of_lt hi)
  | zeroPad => exact padLoop_view (by simp) hflag hbuf _
  | blankPad => exact padLoop_view (by simp) hflag hbuf _
  | copyString =>
      rw [view_of_string (by simp)]
      unfold State.step
      dsimp only
      exact Action.Agree.ite Iff.rfl (fun _ => Action.Agree.emit rfl (view_string (by simp) hflag))
        (fun _ => Action.Agree.silent (view_string (by simp) hflag))
  | padString =>
      rw [view_of_string (by simp)]
      unfold State.step
      dsimp only
      exact Action.Agree.ite Iff.rfl (fun _ => Action.Agree.emit rfl (view_string (by simp) hflag))
        (fun _ => Action.Agree.silent (view_scan (by simp) hflag))
  | nextFmt =>
      rw [view_of_scan (by simp)]
      unfold State.step State.skip
      cases fmt with
      | nil => exact Action.Agree.silent (view_scan (by simp) rfl)
      | cons ch fmt => exact Action.Agree.silent (view_scan (by simp) rfl)
  | printDefault =>
      rw [view_of_scan (by simp)]
      unfold State.step State.skip
      cases fmt with
      | nil => exact Action.Agree.emit rfl (view_scan (by simp) hflag)
      | cons ch fmt => exact Action.Agree.emit rfl (view_scan (by simp) hflag)
  | beyond => rfl

end Aimv6.Libc
