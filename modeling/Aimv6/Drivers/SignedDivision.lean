import Aimv6.Drivers.DivisionSpec

/-! # Signed division over the unsigned loop

`__aeabi_idivmod` divides the absolute values and gives the quotient its sign.
The pair it loads into `r0` and `r1` is right for every denominator but
`INT_MIN`; what it returns is always zero.
-/

namespace Aimv6.Drivers

/-- `INT_MIN`. -/
def INT_MIN : BitVec 32 := BitVec.intMin 32

theorem ABS_eq (x : BitVec 32) : ABS x = if x.msb then -x else x := by
  rw [ABS, ← BitVec.slt_zero_eq_msb]
  rfl

theorem ABS_ne_zero {d : BitVec 32} (hd : d ≠ 0) : ABS d ≠ 0 := by
  rw [ABS_eq]
  split
  · exact mt BitVec.neg_eq_zero_iff.1 hd
  · exact hd

theorem ABS_lt {d : BitVec 32} (hd : d ≠ INT_MIN) : (ABS d).toNat < 2147483648 := by
  have hne : d.toNat ≠ 2147483648 := fun h => hd (BitVec.eq_of_toNat_eq h)
  have hlt := d.isLt
  rw [ABS_eq, BitVec.msb_eq_decide]
  by_cases h : 2147483648 ≤ d.toNat
  · rw [if_pos (by simpa using h), BitVec.toNat_neg]
    omega
  · rw [if_neg (by simpa using h)]
    omega

theorem uidivmod_ABS {n d : BitVec 32} (hd : d ≠ 0) (hmin : d ≠ INT_MIN) {fuel : Nat}
    (hfuel : wordFuel ≤ fuel) :
    uidivmod fuel (ABS n) (ABS d) =
      some ⟨ABS n / ABS d, some (ABS n / ABS d, ABS n % ABS d)⟩ := by
  have hlt := ABS_lt hmin
  exact uidivmod_spec (ABS_ne_zero hd) (fun hover => by have := hover.1; omega) hfuel

theorem zero_slt {d : BitVec 32} (hd : d ≠ 0) : (0 : BitVec 32).slt d = !d.msb := by
  rw [← BitVec.slt_zero_eq_msb, Bool.eq_iff_iff, Bool.not_eq_true', ← Bool.not_eq_true,
    BitVec.slt_iff_toInt_lt, BitVec.slt_iff_toInt_lt]
  have hne : d.toInt ≠ 0 := fun h => hd (BitVec.eq_of_toInt_eq h)
  show (0 : Int) < d.toInt ↔ ¬d.toInt < 0
  omega

/-- The sign fix-ups turn the quotient of the absolute values into the signed quotient. -/
theorem quotient_signed {n d : BitVec 32} (hd : d ≠ 0) :
    (let result := ABS n / ABS d
     let result := if n.slt 0 && (0 : BitVec 32).slt d then -result else result
     if (0 : BitVec 32).sle n && d.slt 0 then -result else result) = n.sdiv d := by
  have hn : n.slt 0 = n.msb := BitVec.slt_zero_eq_msb
  have hn' : (0 : BitVec 32).sle n = !n.msb := BitVec.zero_sle_eq_not_msb
  have hd' : d.slt 0 = d.msb := BitVec.slt_zero_eq_msb
  rw [BitVec.sdiv_eq, hn, hn', hd', zero_slt hd, ABS_eq, ABS_eq]
  cases n.msb <;> cases d.msb <;> rfl

theorem idivmod_spec {n d : BitVec 32} (hd : d ≠ 0) (hmin : d ≠ INT_MIN) {fuel : Nat}
    (hfuel : wordFuel ≤ fuel) :
    idivmod fuel n d = some ⟨0, some (n.sdiv d, n - n.sdiv d * d)⟩ := by
  rw [← quotient_signed hd]
  unfold idivmod
  rw [if_neg hd, uidivmod_ABS hd hmin hfuel]
  rfl

theorem sdiv_eq_ofInt (n d : BitVec 32) : n.sdiv d = BitVec.ofInt 32 (n.toInt.tdiv d.toInt) := by
  apply BitVec.eq_of_toInt_eq
  rw [BitVec.toInt_sdiv, BitVec.toInt_ofInt]

/-- Even where the quotient wraps, what it leaves of the numerator is the exact remainder. -/
theorem sdiv_remainder (n d : BitVec 32) : n.sdiv d * d + n.srem d = n := by
  have hrem : n.srem d = BitVec.ofInt 32 (n.toInt.tmod d.toInt) := by
    rw [← BitVec.toInt_srem, BitVec.ofInt_toInt]
  calc n.sdiv d * d + n.srem d
      = BitVec.ofInt 32 (n.toInt.tdiv d.toInt) * BitVec.ofInt 32 d.toInt +
          BitVec.ofInt 32 (n.toInt.tmod d.toInt) := by
        rw [sdiv_eq_ofInt, hrem, BitVec.ofInt_toInt]
    _ = BitVec.ofInt 32 (n.toInt.tdiv d.toInt * d.toInt + n.toInt.tmod d.toInt) := by
        rw [BitVec.ofInt_add, BitVec.ofInt_mul]
    _ = n := by rw [Int.tdiv_mul_add_tmod, BitVec.ofInt_toInt]

theorem remain_eq (n d : BitVec 32) : n - n.sdiv d * d = n.srem d := by
  have h := sdiv_remainder n d
  rw [BitVec.add_comm] at h
  calc n - n.sdiv d * d = n.srem d + n.sdiv d * d - n.sdiv d * d := by rw [h]
    _ = n.srem d := BitVec.add_sub_cancel _ _

theorem srem_smaller {n d : BitVec 32} (hd : d ≠ 0) : |(n.srem d).toInt| < |d.toInt| := by
  have hpos : 0 < d.toInt.natAbs :=
    Int.natAbs_pos.2 fun h => hd (BitVec.eq_of_toInt_eq h)
  have hlt := Nat.mod_lt n.toInt.natAbs hpos
  rw [BitVec.toInt_srem, Int.abs_eq_natAbs, Int.abs_eq_natAbs, Int.natAbs_tmod]
  exact Int.ofNat_lt.2 hlt

theorem srem_sign (n d : BitVec 32) : n.srem d = 0 ∨ (n.srem d).toInt.sign = n.toInt.sign := by
  have hsign := Int.sign_tmod n.toInt d.toInt
  rw [← BitVec.toInt_srem] at hsign
  by_cases hdvd : d.toInt ∣ n.toInt
  · left
    rw [if_pos hdvd, Int.sign_eq_zero_iff_zero] at hsign
    exact BitVec.eq_of_toInt_eq hsign
  · right
    rw [hsign, if_neg hdvd]

/-- The pair of a signed division: the quotient rounded toward zero, and a remainder smaller than
the denominator with the sign of the numerator. -/
theorem idivmod_divides {n d : BitVec 32} (hd : d ≠ 0) (hmin : d ≠ INT_MIN) :
    ∃ fuel value result remain, idivmod fuel n d = some ⟨value, some (result, remain)⟩ ∧
      result = BitVec.ofInt 32 (n.toInt.tdiv d.toInt) ∧ n = result * d + remain ∧
      |remain.toInt| < |d.toInt| ∧ (remain = 0 ∨ remain.toInt.sign = n.toInt.sign) := by
  have hcall := idivmod_spec (n := n) hd hmin (Nat.le_refl wordFuel)
  rw [remain_eq] at hcall
  exact ⟨wordFuel, 0, n.sdiv d, n.srem d, hcall, sdiv_eq_ofInt n d, (sdiv_remainder n d).symm,
    srem_smaller hd, srem_sign n d⟩

theorem idivmod_divides_sample :
    (-1 : BitVec 32) ≠ 0 ∧ (-1 : BitVec 32) ≠ INT_MIN ∧
      ∃ fuel value result remain, idivmod fuel INT_MIN (-1) = some ⟨value, some (result, remain)⟩ ∧
        result = BitVec.ofInt 32 (INT_MIN.toInt.tdiv (-1 : BitVec 32).toInt) ∧
        INT_MIN = result * -1 + remain ∧ |remain.toInt| < |(-1 : BitVec 32).toInt| ∧
        (remain = 0 ∨ remain.toInt.sign = INT_MIN.toInt.sign) :=
  ⟨by decide, by decide, idivmod_divides (by decide) (by decide)⟩

/-- The pair is in the registers, but the value of the call is zero. -/
theorem idiv_eq_zero {n d : BitVec 32} {fuel : Nat} {q : BitVec 32} (hd : d ≠ 0)
    (h : idiv fuel n d = some q) : q = 0 := by
  unfold idiv idivmod at h
  rw [if_neg hd] at h
  cases huidivmod : uidivmod fuel (ABS n) (ABS d) with
  | none =>
      rw [huidivmod] at h
      exact absurd h (by simp)
  | some r =>
      rw [huidivmod] at h
      exact (Option.some.inj h).symm

theorem idiv_spec {n d : BitVec 32} (hd : d ≠ 0) (hmin : d ≠ INT_MIN) {fuel : Nat}
    (hfuel : wordFuel ≤ fuel) : idiv fuel n d = some 0 := by
  unfold idiv
  rw [idivmod_spec hd hmin hfuel]
  rfl

theorem uidiv_spec {n d : BitVec 32} (hd : d ≠ 0) (h : ¬Overshoots n d) {fuel : Nat}
    (hfuel : wordFuel ≤ fuel) : uidiv fuel n d = some (n / d) := by
  unfold uidiv
  rw [uidivmod_spec hd h hfuel]
  rfl

/-- On the common range the two divisions return one value only where the quotient is zero; the
numerator need not even be in it. -/
theorem idiv_agrees_iff {n d : BitVec 32} (hpos : 1 ≤ d.toNat)
    (hlt : d.toNat < 2147483648) :
    (∃ fuel, idiv fuel n d = some (n / d) ∧ uidiv fuel n d = some (n / d)) ↔
      n.toNat < d.toNat := by
  have hd : d ≠ 0 := by
    intro h
    rw [h] at hpos
    exact absurd hpos (by decide)
  have hmin : d ≠ INT_MIN := by
    intro h
    rw [h] at hlt
    exact absurd hlt (by decide)
  have hquot : n / d = 0 ↔ n.toNat < d.toNat := by
    rw [← BitVec.toNat_inj, BitVec.toNat_udiv]
    show n.toNat / d.toNat = 0 ↔ _
    rw [Nat.div_eq_zero_iff]
    omega
  constructor
  · intro h
    obtain ⟨fuel, hidiv, -⟩ := h
    exact hquot.1 (idiv_eq_zero hd hidiv)
  · intro h
    have hfits : ¬Overshoots n d := fun hover => by have := hover.1; omega
    have hsigned := idiv_spec (n := n) hd hmin (Nat.le_refl wordFuel)
    rw [← hquot.2 h] at hsigned
    exact ⟨wordFuel, hsigned, uidiv_spec hd hfits (Nat.le_refl wordFuel)⟩

theorem idiv_agrees_iff_sample :
    1 ≤ (5 : BitVec 32).toNat ∧ (5 : BitVec 32).toNat < 2147483648 ∧
      ((∃ fuel, idiv fuel 3 5 = some (3 / 5) ∧ uidiv fuel 3 5 = some (3 / 5)) ↔
        (3 : BitVec 32).toNat < (5 : BitVec 32).toNat) :=
  ⟨by decide, by decide, idiv_agrees_iff (by decide) (by decide)⟩

/-- `7 / 2` is zero for the signed division. -/
theorem idiv_agrees_fails :
    ¬∀ n d : BitVec 32, n.toNat < 2147483648 → 1 ≤ d.toNat → d.toNat < 2147483648 →
      ∃ fuel, idiv fuel n d = some (n / d) ∧ uidiv fuel n d = some (n / d) := by
  intro h
  obtain ⟨fuel, hidiv, -⟩ := h 7 2 (by decide) (by decide) (by decide)
  exact absurd (idiv_eq_zero (by decide) hidiv) (by decide)

end Aimv6.Drivers
