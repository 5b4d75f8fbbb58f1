import Mathlib.Data.Nat.Digits.Lemmas
import Mathlib.Data.List.Basic

/-! # Numerals

Positional numerals over the digits `0` to `9` and `A` to `F`, most significant
digit first, and the reader that takes them back. A numeral of a positive number
does not start with a zero.
-/

namespace Support

/-- The digit for a value below 16. -/
def digitChar (d : Nat) : UInt8 := if d < 10 then (48 + d).toUInt8 else (55 + d).toUInt8

/-- The value of a digit. -/
def digitValue (ch : UInt8) : Option Nat :=
  if 48 ≤ ch.toNat ∧ ch.toNat ≤ 57 then some (ch.toNat - 48)
  else if 65 ≤ ch.toNat ∧ ch.toNat ≤ 70 then some (ch.toNat - 55)
  else none

theorem digitValue_digitChar {d : Nat} (h : d < 16) : digitValue (digitChar d) = some d := by
  have hall : ∀ e ∈ List.range 16, digitValue (digitChar e) = some e := by decide
  exact hall d (List.mem_range.2 h)

theorem digitChar_eq_zero {d : Nat} (h : d < 16) : digitChar d = 48 ↔ d = 0 := by
  have hall : ∀ e ∈ List.range 16, digitChar e = 48 ↔ e = 0 := by decide
  exact hall d (List.mem_range.2 h)

/-- A digit is neither a sign nor the end of a string. -/
theorem digitChar_ne {d : Nat} (h : d < 16) : digitChar d ≠ 45 ∧ digitChar d ≠ 0 := by
  have hall : ∀ e ∈ List.range 16, digitChar e ≠ 45 ∧ digitChar e ≠ 0 := by decide
  exact hall d (List.mem_range.2 h)

/-- The digits of a number, and none of zero. -/
def digitText (b n : Nat) : List UInt8 := ((Nat.digits b n).map digitChar).reverse

/-- The numeral of a number. -/
def numeral (b n : Nat) : List UInt8 := if n = 0 then [48] else digitText b n

/-- The numeral of an integer. -/
def signedNumeral (b : Nat) (i : Int) : List UInt8 :=
  if i < 0 then 45 :: numeral b i.natAbs else numeral b i.natAbs

def readDigit (b : Nat) (acc : Nat) (ch : UInt8) : Option Nat :=
  (digitValue ch).bind fun d => if d < b then some (acc * b + d) else none

/-- The number that a text of digits denotes. -/
def readNat (b : Nat) (txt : List UInt8) : Option Nat :=
  if txt = [] then none else txt.foldlM (readDigit b) 0

/-- The integer that a text of digits behind an optional minus sign denotes. -/
def readInt (b : Nat) : List UInt8 → Option Int
  | 45 :: txt => (readNat b txt).map fun n : Nat => -(n : Int)
  | txt => (readNat b txt).map Int.ofNat

/-- No zero in front, unless it is the only digit. -/
def NoLeadingZero (txt : List UInt8) : Prop := txt.head? = some 48 → txt = [48]

/-- The last `w` digits of a number, with zeros in front. -/
def fixedText (b w n : Nat) : List UInt8 :=
  (List.range w).map fun k => digitChar (n / b ^ (w - 1 - k) % b)

theorem fixedText_succ (b w n : Nat) :
    fixedText b (w + 1) n = fixedText b w (n / b) ++ [digitChar (n % b)] := by
  unfold fixedText
  rw [List.range_succ, List.map_append]
  have hlast : w + 1 - 1 - w = 0 := by omega
  rw [List.map_singleton, hlast, pow_zero, Nat.div_one]
  congr 1
  refine List.map_congr_left fun k hk => ?_
  have hlt := List.mem_range.1 hk
  rw [Nat.div_div_eq_div_mul, ← pow_succ', show w + 1 - 1 - k = w - 1 - k + 1 by omega]

section
variable {b : Nat} (hb : 1 < b) (hb' : b ≤ 16)
include hb

theorem digitText_succ {n : Nat} (hn : 0 < n) :
    digitText b n = digitText b (n / b) ++ [digitChar (n % b)] := by
  unfold digitText
  rw [Nat.digits_def' hb hn, List.map_cons, List.reverse_cons]

theorem digitText_ne_nil {n : Nat} (hn : 0 < n) : digitText b n ≠ [] := by
  rw [digitText_succ hb hn]
  simp

theorem numeral_ne_nil (n : Nat) : numeral b n ≠ [] := by
  unfold numeral
  split
  case isTrue => simp
  case isFalse hn => exact digitText_ne_nil hb (Nat.pos_of_ne_zero hn)

include hb'

theorem foldlM_digitText (n : Nat) : (digitText b n).foldlM (readDigit b) 0 = some n := by
  induction n using Nat.strong_induction_on with
  | _ n ih =>
      by_cases hn : n = 0
      · rw [hn, digitText, Nat.digits_zero]
        rfl
      · have hpos := Nat.pos_of_ne_zero hn
        have hmod : n % b < b := Nat.mod_lt n (by omega)
        have hread : readDigit b (n / b) (digitChar (n % b)) = some n := by
          unfold readDigit
          rw [digitValue_digitChar (by omega), Option.bind_some, if_pos hmod, Nat.div_add_mod']
        rw [digitText_succ hb hpos, List.foldlM_append, ih (n / b) (Nat.div_lt_self hpos hb)]
        show (readDigit b (n / b) (digitChar (n % b))).bind some = some n
        rw [hread, Option.bind_some]

/-- A text of fixed width is read back as far as it goes. -/
theorem foldlM_fixedText (w n : Nat) :
    (fixedText b w n).foldlM (readDigit b) 0 = some (n % b ^ w) := by
  induction w generalizing n with
  | zero =>
      rw [pow_zero, Nat.mod_one]
      rfl
  | succ w ih =>
      have hmod : n % b < b := Nat.mod_lt n (by omega)
      have hread : readDigit b (n / b % b ^ w) (digitChar (n % b)) = some (n % b ^ (w + 1)) := by
        unfold readDigit
        rw [digitValue_digitChar (by omega), Option.bind_some, if_pos hmod, pow_succ',
          Nat.mod_mul, Nat.mul_comm, Nat.add_comm]
      rw [fixedText_succ, List.foldlM_append, ih]
      show (readDigit b (n / b % b ^ w) (digitChar (n % b))).bind some = _
      rw [hread, Option.bind_some]

theorem readNat_numeral (n : Nat) : readNat b (numeral b n) = some n := by
  unfold readNat
  rw [if_neg (numeral_ne_nil hb n)]
  unfold numeral
  split
  case isTrue hn =>
    show (readDigit b 0 48).bind some = some n
    have hread : readDigit b 0 48 = some 0 := by
      show (if 0 < b then some (0 * b + 0) else none) = some 0
      rw [if_pos (by omega), Nat.zero_mul]
    rw [hread, hn, Option.bind_some]
  case isFalse => exact foldlM_digitText hb hb' n

theorem mem_numeral {n : Nat} {ch : UInt8} (h : ch ∈ numeral b n) : ch ≠ 45 ∧ ch ≠ 0 := by
  unfold numeral at h
  split at h
  case isTrue =>
    rw [List.mem_singleton.1 h]
    decide
  case isFalse =>
    obtain ⟨d, hd, rfl⟩ := List.mem_map.1 (List.mem_reverse.1 h)
    have hlt := Nat.digits_lt_base hb hd
    exact digitChar_ne (by omega)

theorem numeral_head_ne (n : Nat) : (numeral b n).head? ≠ some 45 := by
  intro h
  exact (mem_numeral hb hb' (List.mem_of_mem_head? h)).1 rfl

theorem numeral_noLeadingZero (n : Nat) : NoLeadingZero (numeral b n) := by
  intro h
  unfold numeral at h ⊢
  split at h
  case isTrue hn => rw [if_pos hn]
  case isFalse hn =>
    have hne : Nat.digits b n ≠ [] := Nat.digits_ne_nil_iff_ne_zero.2 hn
    have hlast := Nat.getLast_digit_ne_zero b hn
    rw [digitText, List.head?_reverse, List.getLast?_map, List.getLast?_eq_getLast_of_ne_nil hne,
      Option.map_some] at h
    have hlt := Nat.digits_lt_base hb (List.getLast_mem hne)
    exact absurd ((digitChar_eq_zero (by omega)).1 (Option.some.inj h)) hlast

theorem readInt_signedNumeral (i : Int) : readInt b (signedNumeral b i) = some i := by
  unfold signedNumeral
  split
  case isTrue hneg =>
    show (readNat b (numeral b i.natAbs)).map (fun n : Nat => -(n : Int)) = some i
    rw [readNat_numeral hb hb', Option.map_some]
    congr 1
    omega
  case isFalse hpos =>
    have hhead := numeral_head_ne hb hb' i.natAbs
    have hread : readInt b (numeral b i.natAbs) =
        (readNat b (numeral b i.natAbs)).map Int.ofNat := by
      unfold readInt
      split
      case h_1 txt htxt =>
        rw [htxt] at hhead
        exact absurd rfl hhead
      case h_2 => rfl
    rw [hread, readNat_numeral hb hb', Option.map_some]
    congr 1
    exact Int.natAbs_of_nonneg (by omega)

theorem signedNumeral_head (i : Int) : (signedNumeral b i).head? = some 45 ↔ i < 0 := by
  unfold signedNumeral
  split
  case isTrue hneg => exact iff_of_true rfl hneg
  case isFalse hpos => exact iff_of_false (numeral_head_ne hb hb' i.natAbs) hpos

end

end Support
