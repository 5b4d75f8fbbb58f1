import Aimv6.Libc.SnprintfSteps

/-! # The formatter in a buffer

`vsnprintf` leaves the first characters of the unbounded output and a NUL in
the buffer, wherever the output is cut. It returns the length of the output,
but for one size: where the NUL is what fills the buffer.
-/

namespace Aimv6.Libc

open Support

variable {T : Target} {text : Long T → List UInt8} {fmt out : List UInt8} {ap : Nat → Long T}
variable {size : Nat} {str : Nat → UInt8}

/-- The string `out` with its NUL. -/
def Holds (str : Nat → UInt8) (out : List UInt8) : Prop :=
  (∀ i (h : i < out.length), str i = out[i]) ∧ str out.length = 0

/-- The buffer behind the first characters of the output. -/
def filled (str : Nat → UInt8) (out : List UInt8) : Buffer := Buffer.putAll ⟨str, 0⟩ out

theorem filled_pos (str : Nat → UInt8) (out : List UInt8) : (filled str out).pos = out.length :=
  (Buffer.putAll_pos ⟨str, 0⟩ out).trans (Nat.zero_add _)

theorem filled_inside (str : Nat → UInt8) {out : List UInt8} {i : Nat} (h : i < out.length) :
    (filled str out).str i = out[i] := by
  have hin := Buffer.putAll_inside ⟨str, 0⟩ out h
  rw [Nat.zero_add] at hin
  exact hin

theorem filled_outside (str : Nat → UInt8) {out : List UInt8} {i : Nat} (h : out.length ≤ i) :
    (filled str out).str i = str i :=
  Buffer.putAll_outside ⟨str, 0⟩ out (Or.inr (by rw [Nat.zero_add]; exact h))

theorem holds_update {s : Nat → UInt8} {k : Nat} (hk : k ≤ out.length)
    (hs : ∀ i (h : i < out.length), i < k → s i = out[i]) :
    Holds (Function.update s k 0) (out.take k) := by
  have hlen : (out.take k).length = k := List.length_take_of_le hk
  constructor
  · intro i hi
    rw [hlen] at hi
    rw [Function.update_of_ne (Nat.ne_of_lt hi), List.getElem_take]
    exact hs i (by omega) hi
  · rw [hlen, Function.update_self]

theorem vsnprintf_long {m : State T} (h : Emits (State.step text) (State.start fmt ap) out m)
    (hlen : out.length = size) (hsize : 1 ≤ size) (str : Nat → UInt8) :
    ∃ fuel, vsnprintf text fuel str size fmt ap =
      some (asInt size, Function.update (filled str out).str (size - 1) 0) := by
  obtain ⟨fuel, hfill⟩ := h.fill_full (b := ⟨str, 0⟩) hsize (by rw [Nat.zero_add]; exact hlen)
  refine ⟨fuel, ?_⟩
  unfold vsnprintf
  rw [hfill]
  rfl

theorem vsnprintf_exact (h : Stops (State.step text) (State.start fmt ap) out)
    (hlen : out.length + 1 = size) (str : Nat → UInt8) :
    ∃ fuel, vsnprintf text fuel str size fmt ap =
      some (asInt size, Function.update ((filled str out).put 0).str (size - 1) 0) := by
  have hroom : (⟨str, 0⟩ : Buffer).pos + out.length < size := by
    show 0 + out.length < size
    omega
  obtain ⟨fuel, hfill⟩ := h.fill_stopped hroom
  have hpos : ((filled str out).put 0).pos = size := by
    show (filled str out).pos + 1 = size
    rw [filled_pos, hlen]
  refine ⟨fuel, ?_⟩
  unfold vsnprintf
  rw [hfill]
  exact if_pos hpos

theorem vsnprintf_short (h : Stops (State.step text) (State.start fmt ap) out)
    (hlen : out.length + 1 < size) (str : Nat → UInt8) :
    ∃ fuel, vsnprintf text fuel str size fmt ap =
      some (asInt out.length, ((filled str out).put 0).str) := by
  have hroom : (⟨str, 0⟩ : Buffer).pos + out.length < size := by
    show 0 + out.length < size
    omega
  obtain ⟨fuel, hfill⟩ := h.fill_stopped hroom
  have hpos : ((filled str out).put 0).pos = out.length + 1 := by
    show (filled str out).pos + 1 = out.length + 1
    rw [filled_pos]
  refine ⟨fuel, ?_⟩
  unfold vsnprintf
  rw [hfill]
  show (if ((filled str out).put 0).pos = size then _ else
    some (asInt (((filled str out).put 0).pos - 1), _)) = _
  rw [if_neg (by omega), hpos]
  rfl

theorem vsnprintf_some {fuel : Nat} {r : Int × (Nat → UInt8)}
    (h : vsnprintf text fuel str size fmt ap = some r) :
    ∃ o, fill (State.step text) size fuel (State.start fmt ap) ⟨str, 0⟩ = some o ∧ o ≠ .faulted := by
  unfold vsnprintf at h
  cases hfill : fill (State.step text) size fuel (State.start fmt ap) ⟨str, 0⟩ with
  | none => rw [hfill] at h; exact absurd h (by simp)
  | some o =>
      refine ⟨o, rfl, ?_⟩
      rintro rfl
      rw [hfill] at h
      exact absurd h (by simp)

theorem vsnprintf_unique {fuel fuel' : Nat} {r r' : Int × (Nat → UInt8)}
    (h : vsnprintf text fuel str size fmt ap = some r)
    (h' : vsnprintf text fuel' str size fmt ap = some r') : r = r' := by
  obtain ⟨o, hfill, -⟩ := vsnprintf_some h
  obtain ⟨o', hfill', -⟩ := vsnprintf_some h'
  have hsame := fill_unique hfill hfill'
  unfold vsnprintf at h h'
  rw [hfill, hsame] at h
  rw [hfill'] at h'
  exact Option.some.inj (h.symm.trans h')

theorem vsnprintf_whole (h : Stops (State.step text) (State.start fmt ap) out)
    (hlen : out.length < size) (str : Nat → UInt8) :
    ∃ fuel r str', vsnprintf text fuel str size fmt ap = some (r, str') ∧
      (∀ i, size ≤ i → str' i = str i) ∧ Holds str' out := by
  have hput : ∀ i, i ≠ out.length → ((filled str out).put 0).str i = (filled str out).str i := by
    intro i hi
    exact Function.update_of_ne (by rw [filled_pos]; exact hi) _ _
  have hholds : ∀ s : Nat → UInt8, (∀ i, i < out.length → s i = (filled str out).str i) →
      Holds (Function.update s out.length 0) out := by
    intro s hs
    have hcut := holds_update (Nat.le_refl out.length) fun i h _ =>
      (hs i h).trans (filled_inside str h)
    rwa [List.take_length] at hcut
  by_cases hexact : out.length + 1 = size
  · obtain ⟨fuel, hrun⟩ := vsnprintf_exact h hexact str
    refine ⟨fuel, _, _, hrun, fun i hi => ?_, ?_⟩
    · rw [Function.update_of_ne (by omega), hput i (by omega), filled_outside str (by omega)]
    · rw [show size - 1 = out.length by omega]
      exact hholds _ fun i hi => hput i (by omega)
  · have hroom : out.length + 1 < size := by omega
    obtain ⟨fuel, hrun⟩ := vsnprintf_short h hroom str
    refine ⟨fuel, _, _, hrun, fun i hi => ?_, ?_⟩
    · rw [hput i (by omega), filled_outside str (by omega)]
    · show Holds (Function.update (filled str out).str (filled str out).pos 0) out
      rw [filled_pos]
      exact hholds _ fun i _ => rfl

/-- What is left in the buffer: the first characters of the output, a NUL, and nothing beyond. -/
theorem vsnprintf_holds (hfmt : complete false fmt = true) (hsize : 1 ≤ size)
    (str : Nat → UInt8) : ∃ fuel r str' out, vsnprintf text fuel str size fmt ap = some (r, str') ∧
      (∀ i, size ≤ i → str' i = str i) ∧
      FirstBytes (State.step text) (State.start fmt ap) (size - 1) out ∧ Holds str' out := by
  obtain ⟨out, hout⟩ := (snprintf_lively text).firstBytes size (start_inv hfmt ap)
  have hfirst := hout.take (Nat.sub_le size 1)
  cases hout with
  | inl hlong =>
      obtain ⟨hlen, m, hm⟩ := hlong
      obtain ⟨fuel, hrun⟩ := vsnprintf_long hm hlen hsize str
      refine ⟨fuel, _, _, _, hrun, fun i hi => ?_, hfirst, ?_⟩
      · rw [Function.update_of_ne (by omega), filled_outside str (by omega)]
      · exact holds_update (by omega) fun i h _ => filled_inside str h
  | inr hshort =>
      obtain ⟨hlt, hstop⟩ := hshort
      obtain ⟨fuel, r, str', hrun, houtside, hholds⟩ := vsnprintf_whole hstop hlt str
      rw [List.take_of_length_le (by omega)] at hfirst
      exact ⟨fuel, r, str', out, hrun, houtside, hfirst, hholds⟩

/-- A call on any complete format, arguments and size comes back; it writes inside the buffer only
and leaves the first characters of the unbounded output there, up to the NUL; and no access, not
even of the unbounded run, is out of bounds. -/
theorem vsnprintf_bounded (text : Long T → List UInt8) (ap : Nat → Long T)
    (hfmt : complete false fmt = true) (hsize : 1 ≤ size) (str : Nat → UInt8) :
    (∃ fuel r str' out, vsnprintf text fuel str size fmt ap = some (r, str') ∧
      (∀ i, size ≤ i → str' i = str i) ∧
      FirstBytes (State.step text) (State.start fmt ap) (size - 1) out ∧ Holds str' out) ∧
    ∀ out m, Emits (State.step text) (State.start fmt ap) out m → State.step text m ≠ .fault := by
  constructor
  · exact vsnprintf_holds hfmt hsize str
  · intro out m hm
    have hlively := snprintf_lively text
    exact hlively.sound m (hlively.emits (start_inv hfmt ap) hm)

/-- `vsnprintf(str, 4, "%d!", ap)`, which cuts the output inside the number. -/
theorem vsnprintf_bounded_sample :
    complete false ("%d!".toList.map Char.toUInt8) = true ∧ 1 ≤ 4 ∧
      ∃ fuel r str' out, vsnprintf (T := .armv7a) (fun _ => []) fuel (fun _ => 255) 4
          ("%d!".toList.map Char.toUInt8) (fun _ => 12345) = some (r, str') ∧
        FirstBytes (State.step fun _ => []) (State.start ("%d!".toList.map Char.toUInt8)
          (fun _ => (12345 : Long .armv7a))) 3 out ∧ Holds str' out := by
  have hfmt : complete false ("%d!".toList.map Char.toUInt8) = true := by decide
  have hsize : 1 ≤ 4 := by decide
  obtain ⟨fuel, r, str', out, hrun, -, hfirst, hholds⟩ :=
    (vsnprintf_bounded (T := .armv7a) (fun _ => []) (fun _ => 12345) hfmt hsize (fun _ => 255)).1
  exact ⟨hfmt, hsize, fuel, r, str', out, hrun, hfirst, hholds⟩

/-! ## The value returned -/

/-- What the value returned says about the output: its length, if nothing is cut off, and the size
only if something is. -/
def ReturnsLength (text : Long T → List UInt8) (fmt : List UInt8) (ap : Nat → Long T) (size : Nat)
    (r : Int) : Prop :=
  (∀ out, Stops (State.step text) (State.start fmt ap) out → out.length ≤ size - 1 →
    r = out.length) ∧
  (r = size → ¬∃ out, Stops (State.step text) (State.start fmt ap) out ∧ out.length ≤ size - 1)

theorem asInt_of_lt {n : Nat} (h : n < 2147483648) : asInt n = n := by
  unfold asInt
  rw [Nat.mod_eq_of_lt (by omega), toInt_of_lt h]

theorem asInt_eq_iff {n : Nat} : asInt n = n ↔ n < 2147483648 := by
  constructor
  · intro h
    by_contra hlarge
    have hmod := Nat.mod_le n 4294967296
    unfold asInt toInt at h
    split at h <;> omega
  · exact asInt_of_lt

theorem asInt_ne_pred {n : Nat} (h : 1 ≤ n) : asInt n ≠ (n - 1 : Nat) := by
  intro heq
  have hmod := Nat.div_add_mod n 4294967296
  unfold asInt toInt at heq
  split at heq <;> omega

/-- Nothing is cut off: the value returned is right where the NUL does not fill the buffer and the
length is an `int`. -/
theorem returnsLength_short (h : Stops (State.step text) (State.start fmt ap) out)
    (hlen : out.length + 1 < size) :
    ReturnsLength text fmt ap size (asInt out.length) ↔ out.length < 2147483648 := by
  constructor
  · intro hret
    exact asInt_eq_iff.1 (hret.1 out h (by omega))
  · intro hint
    rw [asInt_of_lt hint]
    constructor
    · intro out' h' _
      rw [h.unique h']
    · intro hsize
      omega

theorem not_returnsLength_exact (h : Stops (State.step text) (State.start fmt ap) out)
    (hlen : out.length + 1 = size) : ¬ReturnsLength text fmt ap size (asInt size) := by
  intro hret
  have hr := hret.1 out h (by omega)
  rw [show out.length = size - 1 by omega] at hr
  exact asInt_ne_pred (by omega) hr

theorem returnsLength_long {m : State T}
    (h : Emits (State.step text) (State.start fmt ap) out m) (hlen : out.length = size)
    (hsize : 1 ≤ size) : ReturnsLength text fmt ap size (asInt size) := by
  have hlong : ∀ out', Stops (State.step text) (State.start fmt ap) out' → ¬out'.length ≤ size - 1 := by
    intro out' h' hle
    obtain ⟨rest, rfl, -⟩ := h'.of_emits h
    rw [List.length_append] at hle
    omega
  exact ⟨fun out' h' hle => absurd hle (hlong out' h'), fun _ hall => by
    obtain ⟨out', h', hle⟩ := hall
    exact hlong out' h' hle⟩

/-- The value returned says what it should exactly where the NUL is not what fills the buffer, and a
shorter output has a length that is an `int`. -/
theorem vsnprintf_returns_iff (text : Long T → List UInt8) (ap : Nat → Long T)
    (hfmt : complete false fmt = true) (hsize : 1 ≤ size) (str : Nat → UInt8) :
    (∃ fuel r str', vsnprintf text fuel str size fmt ap = some (r, str') ∧
      ReturnsLength text fmt ap size r) ↔
    ∀ out, Stops (State.step text) (State.start fmt ap) out →
      out.length ≠ size - 1 ∧ (out.length < size - 1 → out.length < 2147483648) := by
  obtain ⟨out, hout⟩ := (snprintf_lively text).firstBytes size (start_inv hfmt ap)
  cases hout with
  | inl hlong =>
      obtain ⟨hlen, m, hm⟩ := hlong
      obtain ⟨fuel, hrun⟩ := vsnprintf_long hm hlen hsize str
      constructor
      · intro _ out' h'
        obtain ⟨rest, rfl, -⟩ := h'.of_emits hm
        rw [List.length_append]
        omega
      · exact fun _ => ⟨fuel, _, _, hrun, returnsLength_long hm hlen hsize⟩
  | inr hshort =>
      obtain ⟨hlt, hstop⟩ := hshort
      by_cases hexact : out.length + 1 = size
      · obtain ⟨fuel, hrun⟩ := vsnprintf_exact hstop hexact str
        constructor
        · intro hret
          obtain ⟨fuel', r, str', hrun', hret⟩ := hret
          obtain ⟨rfl, -⟩ := Prod.mk.inj (vsnprintf_unique hrun hrun')
          exact absurd hret (not_returnsLength_exact hstop hexact)
        · intro hall
          exact absurd (by omega) (hall out hstop).1
      · have hroom : out.length + 1 < size := by omega
        obtain ⟨fuel, hrun⟩ := vsnprintf_short hstop hroom str
        constructor
        · intro hret out' h'
          obtain ⟨fuel', r, str', hrun', hret⟩ := hret
          obtain ⟨rfl, -⟩ := Prod.mk.inj (vsnprintf_unique hrun hrun')
          rw [← hstop.unique h']
          exact ⟨by omega, fun _ => (returnsLength_short hstop hroom).1 hret⟩
        · intro hall
          have hint := (hall out hstop).2 (by omega)
          exact ⟨fuel, _, _, hrun, (returnsLength_short hstop hroom).2 hint⟩

theorem vsnprintf_returns_iff_sample :
    complete false ("a".toList.map Char.toUInt8) = true ∧ 1 ≤ 8 ∧
      ((∃ fuel r str', vsnprintf (T := .armv7a) (fun _ => []) fuel (fun _ => 255) 8
          ("a".toList.map Char.toUInt8) (fun _ => 0) = some (r, str') ∧
        ReturnsLength (fun _ => []) ("a".toList.map Char.toUInt8) (fun _ => (0 : Long .armv7a)) 8 r) ↔
      ∀ out, Stops (State.step fun _ => []) (State.start ("a".toList.map Char.toUInt8)
          fun _ => (0 : Long .armv7a)) out →
        out.length ≠ 8 - 1 ∧ (out.length < 8 - 1 → out.length < 2147483648)) := by
  have hfmt : complete false ("a".toList.map Char.toUInt8) = true := by decide
  have hsize : 1 ≤ 8 := by decide
  exact ⟨hfmt, hsize,
    vsnprintf_returns_iff (T := .armv7a) (fun _ => []) (fun _ => 0) hfmt hsize (fun _ => 255)⟩

theorem a_in_two_stops : Stops (State.step fun _ => [])
    (State.start ("a".toList.map Char.toUInt8) fun _ => (0 : Long .armv7a)) ("a".toList.map Char.toUInt8) :=
  ⟨_, Emits.silent rfl (Emits.emit rfl (Emits.refl _)), rfl⟩

/-- `vsnprintf(str, 2, "a", ap)` cuts nothing off and returns 2, not 1. -/
theorem vsnprintf_returns_fails :
    ¬∀ (T : Target) (text : Long T → List UInt8) (fmt : List UInt8) (ap : Nat → Long T) (size : Nat)
      (str : Nat → UInt8), complete false fmt = true → 1 ≤ size →
      ∃ fuel r str', vsnprintf text fuel str size fmt ap = some (r, str') ∧
        ReturnsLength text fmt ap size r := by
  intro h
  obtain ⟨fuel, r, str', hrun, hret⟩ := h .armv7a (fun _ => []) ("a".toList.map Char.toUInt8)
    (fun _ => 0) 2 (fun _ => 255) (by decide) (by decide)
  have hlen : ("a".toList.map Char.toUInt8).length + 1 = 2 := by decide
  obtain ⟨fuel', hexact⟩ := vsnprintf_exact a_in_two_stops hlen (fun _ => 255)
  obtain ⟨rfl, -⟩ := Prod.mk.inj (vsnprintf_unique hexact hrun)
  exact not_returnsLength_exact a_in_two_stops hlen hret

end Aimv6.Libc
