import Aimv6.Drivers.Division

/-! # What the division functions compute

While the denominator is doubled it stays `d * i` for a power of two `i`, and
the shift stays twice the denominator. While it is halved again, what has been
subtracted is `d` times the quotient so far.
-/

namespace Aimv6.Drivers

open Support

/-- More iterations than any of the loops can make. -/
def wordFuel : Nat := 4294967297

theorem toNat_shl {a : BitVec 32} (h : a.toNat < 2147483648) : (a <<< 1).toNat = 2 * a.toNat := by
  rw [BitVec.toNat_shiftLeft, Nat.shiftLeft_eq]
  omega

theorem toNat_shr (a : BitVec 32) : (a >>> 1).toNat = a.toNat / 2 := by
  rw [BitVec.toNat_ushiftRight, Nat.shiftRight_eq_div_pow]

/-- A denominator `d` scaled by the power of two `i`, and what is left to divide. -/
structure Scaled (n d : BitVec 32) (v : DivVars) : Prop where
  power : ∃ k, v.i.toNat = 2 ^ k
  denominator : v.denominator.toNat = d.toNat * v.i.toNat
  divided : v.quot.toNat * d.toNat + v.numerator.toNat = n.toNat

/-- The state of the doubling loop. -/
structure Doubling (n d : BitVec 32) (v : DivVars) : Prop where
  scaled : Scaled n d v
  shift : v.shift = v.denominator <<< 1

theorem Scaled.i_pos {n d : BitVec 32} {v : DivVars} (h : Scaled n d v) : 0 < v.i.toNat := by
  obtain ⟨k, hk⟩ := h.power
  rw [hk]
  exact Nat.two_pow_pos k

theorem Scaled.i_le {n d : BitVec 32} {v : DivVars} (h : Scaled n d v) (hd : 0 < d.toNat) :
    v.i.toNat ≤ v.denominator.toNat := by
  rw [h.denominator]
  exact Nat.le_mul_of_pos_left v.i.toNat hd

theorem Scaled.start (n d : BitVec 32) : Scaled n d ⟨n, d, 1, d <<< 1, 0⟩ where
  power := ⟨0, rfl⟩
  denominator := (Nat.mul_one d.toNat).symm
  divided := by
    show 0 * d.toNat + n.toNat = n.toNat
    omega

theorem Scaled.double {n d : BitVec 32} {v : DivVars} (h : Scaled n d v) (hd : 0 < d.toNat)
    (hlt : v.denominator.toNat < 2147483648) : Scaled n d v.double where
  power := by
    obtain ⟨k, hk⟩ := h.power
    have hi : v.i.toNat < 2147483648 := Nat.lt_of_le_of_lt (h.i_le hd) hlt
    exact ⟨k + 1, by rw [DivVars.double, toNat_shl hi, hk, Nat.pow_succ, Nat.mul_comm]⟩
  denominator := by
    have hi : v.i.toNat < 2147483648 := Nat.lt_of_le_of_lt (h.i_le hd) hlt
    show (v.denominator <<< 1).toNat = d.toNat * (v.i <<< 1).toNat
    rw [toNat_shl hlt, toNat_shl hi, h.denominator, Nat.mul_left_comm]
  divided := h.divided

theorem Doubling.step {n d : BitVec 32} {v : DivVars} (h : Doubling n d v) (hd : 0 < d.toNat)
    (hden : v.denominator.toNat < 2147483648) : Doubling n d v.double where
  scaled := h.scaled.double hd hden
  shift := by
    show v.shift <<< 1 = (v.denominator <<< 1) <<< 1
    rw [h.shift]

/-- From a denominator below `2 ^ 31` the doubling loop ends on a scaled denominator. -/
theorem doubleLoop_spec {n d : BitVec 32} (hd : 0 < d.toNat) {fuel : Nat} (hfuel : wordFuel ≤ fuel)
    {v : DivVars} (h : Doubling n d v) (hden : v.denominator.toNat < 2147483648) :
    ∃ v', doubleLoop fuel v = some v' ∧ Scaled n d v' := by
  have hloop : ∃ v', doubleLoop fuel v = some v' ∧
      (Doubling n d v' ∧ v'.denominator.toNat < 2147483648) ∧
      v'.doubles = false := by
    apply whileLoop_total (m := fun v => 2147483648 - v.denominator.toNat)
    · intro u hu hc
      obtain ⟨hu, hlt⟩ := hu
      have hi := hu.scaled.i_pos
      have hle := hu.scaled.i_le hd
      have hshift : u.shift.toNat = 2 * u.denominator.toNat := by rw [hu.shift, toNat_shl hlt]
      have hsmall : u.shift.toNat < 2147483648 := by
        simp only [DivVars.doubles, Bool.and_eq_true, decide_eq_true_eq] at hc
        exact BitVec.lt_def.1 hc.1
      have hdouble : u.double.denominator.toNat = 2 * u.denominator.toNat := toNat_shl hlt
      exact ⟨u.double, rfl, ⟨hu.step hd hlt, by omega⟩, by omega⟩
    · exact ⟨h, hden⟩
    · unfold wordFuel at hfuel
      omega
  obtain ⟨v', hv', ⟨hdoubling, -⟩, -⟩ := hloop
  exact ⟨v', hv', hdoubling.scaled⟩

theorem Scaled.subtract {n d : BitVec 32} {v : DivVars} (h : Scaled n d v) (hd : 0 < d.toNat)
    (hle : v.denominator.toNat ≤ v.numerator.toNat) :
    Scaled n d v.subtract ∧ v.subtract.numerator.toNat < v.numerator.toNat := by
  have hi := h.i_pos
  have hile := h.i_le hd
  have hsub : v.subtract.numerator.toNat = v.numerator.toNat - v.denominator.toNat :=
    BitVec.toNat_sub_of_le (BitVec.le_def.2 hle)
  -- The new quotient times `d` is still at most the numerator the call was given.
  have hquot : (v.quot.toNat + v.i.toNat) * d.toNat + (v.numerator.toNat - v.denominator.toNat) =
      n.toNat := by
    have hdiv := h.divided
    rw [Nat.add_mul, Nat.mul_comm v.i.toNat, ← h.denominator]
    omega
  have hfits : v.quot.toNat + v.i.toNat < 4294967296 := by
    have hn := n.isLt
    have := Nat.le_mul_of_pos_right (v.quot.toNat + v.i.toNat) hd
    omega
  have hadd : v.subtract.quot.toNat = v.quot.toNat + v.i.toNat := by
    show (v.quot + v.i).toNat = _
    rw [BitVec.toNat_add, Nat.mod_eq_of_lt hfits]
  constructor
  · exact ⟨h.power, h.denominator, by rw [hadd, hsub, hquot]⟩
  · omega

/-- The inner loop leaves less than the denominator, and the scale as it was. -/
theorem subtractLoop_spec {n d : BitVec 32} (hd : 0 < d.toNat) {fuel : Nat}
    (hfuel : wordFuel ≤ fuel) {v : DivVars} (h : Scaled n d v) :
    ∃ v', subtractLoop fuel v = some v' ∧ Scaled n d v' ∧ v'.i = v.i ∧
      v'.numerator.toNat < v'.denominator.toNat := by
  have hloop : ∃ v', subtractLoop fuel v = some v' ∧ (Scaled n d v' ∧ v'.i = v.i) ∧
      decide (v'.numerator ≥ v'.denominator) = false := by
    apply whileLoop_total (m := fun v => v.numerator.toNat)
    · intro u hu hc
      have hle : u.denominator.toNat ≤ u.numerator.toNat := BitVec.le_def.1 (of_decide_eq_true hc)
      obtain ⟨hscaled, hless⟩ := hu.1.subtract hd hle
      exact ⟨u.subtract, rfl, ⟨hscaled, hu.2⟩, hless⟩
    · exact ⟨h, rfl⟩
    · have := v.numerator.isLt
      unfold wordFuel at hfuel
      omega
  obtain ⟨v', hv', ⟨hscaled, hi⟩, hend⟩ := hloop
  have hlt : ¬v'.numerator ≥ v'.denominator := of_decide_eq_false hend
  exact ⟨v', hv', hscaled, hi, by rw [ge_iff_le, BitVec.le_def] at hlt; omega⟩

/-- The state of the halving loop: scaled, or finished. -/
def Halving (n d : BitVec 32) (v : DivVars) : Prop :=
  Scaled n d v ∨ v.i = 0 ∧ v.quot.toNat * d.toNat + v.numerator.toNat = n.toNat ∧
    v.numerator.toNat < d.toNat

theorem Scaled.halve {n d : BitVec 32} {v : DivVars} (h : Scaled n d v)
    (hlt : v.numerator.toNat < v.denominator.toNat) : Halving n d v.halve := by
  obtain ⟨k, hk⟩ := h.power
  cases k with
  | zero =>
      right
      have hden : v.denominator.toNat = d.toNat := by rw [h.denominator, hk, Nat.pow_zero, Nat.mul_one]
      have hi : v.halve.i = 0 := BitVec.eq_of_toNat_eq ((toNat_shr v.i).trans (by rw [hk]; rfl))
      exact ⟨hi, h.divided, by rw [← hden]; exact hlt⟩
  | succ k =>
      left
      have hi : v.halve.i.toNat = 2 ^ k := by
        rw [DivVars.halve, toNat_shr, hk, Nat.pow_succ, Nat.mul_div_cancel _ (by omega)]
      have hden : v.halve.denominator.toNat = d.toNat * 2 ^ k := by
        rw [DivVars.halve, toNat_shr, h.denominator, hk, Nat.pow_succ, ← Nat.mul_assoc,
          Nat.mul_div_cancel _ (by omega)]
      exact ⟨⟨k, hi⟩, by rw [hden, hi], h.divided⟩

theorem halveLoop_spec {n d : BitVec 32} (hd : 0 < d.toNat) {fuel : Nat}
    (hfuel : wordFuel ≤ fuel) {v : DivVars} (h : Scaled n d v) :
    ∃ v', halveLoop fuel v = some v' ∧ v'.quot = n / d ∧ v'.numerator = n % d := by
  have hloop : ∃ v', halveLoop fuel v = some v' ∧ Halving n d v' ∧ decide (v'.i > 0) = false := by
    apply whileLoop_total (m := fun v => v.i.toNat)
    · intro u hu hc
      have hpos : 0 < u.i.toNat := BitVec.lt_def.1 (of_decide_eq_true hc)
      cases hu with
      | inr hfin =>
          rw [hfin.1] at hpos
          exact absurd hpos (by decide)
      | inl hscaled =>
          obtain ⟨u', hu', hscaled', hi, hlt⟩ := subtractLoop_spec hd hfuel hscaled
          have hhalf : u'.halve.i.toNat = u.i.toNat / 2 := by rw [DivVars.halve, toNat_shr, hi]
          exact ⟨u'.halve, by rw [hu', Option.map_some], hscaled'.halve hlt, by omega⟩
    · exact Or.inl h
    · have := v.i.isLt
      unfold wordFuel at hfuel
      omega
  obtain ⟨v', hv', hfinal, hend⟩ := hloop
  have hzero : ¬v'.i > 0 := of_decide_eq_false hend
  cases hfinal with
  | inl hscaled => exact absurd (show (0 : BitVec 32) < v'.i from BitVec.lt_def.2 hscaled.i_pos) hzero
  | inr hfin =>
      have hdivmod : n.toNat / d.toNat = v'.quot.toNat ∧ n.toNat % d.toNat = v'.numerator.toNat :=
        (Nat.div_mod_unique hd).2 ⟨by rw [Nat.mul_comm d.toNat, Nat.add_comm]; exact hfin.2.1, hfin.2.2⟩
      exact ⟨v', hv', BitVec.eq_of_toNat_eq (by rw [BitVec.toNat_udiv]; exact hdivmod.1.symm),
        BitVec.eq_of_toNat_eq (by rw [BitVec.toNat_umod]; exact hdivmod.2.symm)⟩

/-- Above `2 ^ 31` the doubled denominator has lost its top bit; the doubling loop starts all the
same when what is left of it looks small. -/
def Overshoots (n d : BitVec 32) : Prop :=
  2147483648 ≤ d.toNat ∧ 2 * (d.toNat - 2147483648) < 2147483648 ∧
    2 * (d.toNat - 2147483648) ≤ n.toNat

instance (n d : BitVec 32) : Decidable (Overshoots n d) :=
  inferInstanceAs (Decidable (_ ∧ _))

/-- The variables of `__aeabi_uidivmod` before its loops. -/
def startVars (n d : BitVec 32) : DivVars := ⟨n, d, 1, d <<< 1, 0⟩

theorem startVars_doubling (n d : BitVec 32) : Doubling n d (startVars n d) :=
  ⟨Scaled.start n d, rfl⟩

theorem toNat_shl_high {d : BitVec 32} (h : 2147483648 ≤ d.toNat) :
    (d <<< 1).toNat = 2 * (d.toNat - 2147483648) := by
  have hd := d.isLt
  rw [BitVec.toNat_shiftLeft, Nat.shiftLeft_eq]
  omega

theorem startVars_test {n d : BitVec 32} (h : 2147483648 ≤ d.toNat) :
    (startVars n d).doubles = true ↔ Overshoots n d := by
  rw [DivVars.doubles, Bool.and_eq_true, decide_eq_true_eq, decide_eq_true_eq, BitVec.lt_def, BitVec.le_def]
  show (d <<< 1).toNat < 2147483648 ∧ (d <<< 1).toNat ≤ n.toNat ↔ _
  rw [toNat_shl_high h]
  unfold Overshoots
  exact (and_iff_right h).symm

theorem uidivmod_eq {n d : BitVec 32} (hd : d ≠ 0) (fuel : Nat) :
    uidivmod fuel n d = (doubleLoop fuel (startVars n d)).bind fun v =>
      (halveLoop fuel v).bind fun v => some ⟨v.quot, some (v.quot, v.numerator)⟩ := by
  unfold uidivmod
  rw [if_neg hd]
  rfl

theorem toNat_pos {d : BitVec 32} (hd : d ≠ 0) : 0 < d.toNat :=
  Nat.pos_of_ne_zero fun h => hd (BitVec.eq_of_toNat_eq h)

theorem startVars_doubles {n d : BitVec 32} (hd : d ≠ 0) (h : ¬Overshoots n d) {fuel : Nat}
    (hfuel : wordFuel ≤ fuel) : ∃ v, doubleLoop fuel (startVars n d) = some v ∧ Scaled n d v := by
  by_cases hhigh : 2147483648 ≤ d.toNat
  · obtain ⟨k, rfl⟩ : ∃ k, fuel = k + 1 := ⟨fuel - 1, by unfold wordFuel at hfuel; omega⟩
    have htest := Bool.eq_false_iff.2 (mt (startVars_test hhigh).1 h)
    exact ⟨startVars n d, whileLoop_of_false htest, Scaled.start n d⟩
  · exact doubleLoop_spec (toNat_pos hd) hfuel (startVars_doubling n d) (Nat.lt_of_not_le hhigh)

theorem uidivmod_spec {n d : BitVec 32} (hd : d ≠ 0) (h : ¬Overshoots n d) {fuel : Nat}
    (hfuel : wordFuel ≤ fuel) : uidivmod fuel n d = some ⟨n / d, some (n / d, n % d)⟩ := by
  obtain ⟨v, hdouble, hscaled⟩ := startVars_doubles hd h hfuel
  obtain ⟨v', hhalve, hquot, hrem⟩ := halveLoop_spec (toNat_pos hd) hfuel hscaled
  rw [uidivmod_eq hd, hdouble, Option.bind_some, hhalve, Option.bind_some, hquot, hrem]

theorem halveLoop_mono {fuel fuel' : Nat} (hle : fuel ≤ fuel') {v v' : DivVars}
    (h : halveLoop fuel v = some v') : halveLoop fuel' v = some v' := by
  apply whileLoop_mono _ hle h
  intro u u' hu
  obtain ⟨w, hw, hu'⟩ := Option.map_eq_some_iff.1 hu
  have : subtractLoop fuel' u = some w := whileLoop_mono (fun _ _ => id) hle hw
  rw [this, Option.map_some, hu']

theorem uidivmod_mono {fuel fuel' : Nat} (hle : fuel ≤ fuel') {n d : BitVec 32} (hd : d ≠ 0)
    {r : Divided} (h : uidivmod fuel n d = some r) : uidivmod fuel' n d = some r := by
  rw [uidivmod_eq hd] at h ⊢
  obtain ⟨v, hdouble, hrest⟩ := Option.bind_eq_some_iff.1 h
  obtain ⟨v', hhalve, hr⟩ := Option.bind_eq_some_iff.1 hrest
  have hdouble' : doubleLoop fuel' (startVars n d) = some v :=
    whileLoop_mono (fun _ _ => id) hle hdouble
  rw [hdouble', Option.bind_some, halveLoop_mono hle hhalve, Option.bind_some, hr]

/-- What is left of a denominator whose top bit is lost. -/
def lowPart (d : BitVec 32) : BitVec 32 := d - 0x80000000

theorem toNat_lowPart {d : BitVec 32} (h : 2147483648 ≤ d.toNat) :
    (lowPart d).toNat = d.toNat - 2147483648 :=
  BitVec.toNat_sub_of_le (BitVec.le_def.2 h)

theorem lowPart_shl {d : BitVec 32} (h : 2147483648 ≤ d.toNat) : lowPart d <<< 1 = d <<< 1 := by
  have hlt : (lowPart d).toNat < 2147483648 := by
    have := d.isLt
    rw [toNat_lowPart h]
    omega
  apply BitVec.eq_of_toNat_eq
  rw [toNat_shl hlt, toNat_shl_high h, toNat_lowPart h]

/-- The first pass of the doubling loop leads an overshooting denominator to where its low part
is led. -/
theorem doubleLoop_overshoots {n d : BitVec 32} (h : Overshoots n d) (fuel : Nat) :
    doubleLoop fuel (startVars n d) = doubleLoop fuel (startVars n (lowPart d)) := by
  cases fuel with
  | zero => rfl
  | succ fuel =>
      have hshift : (startVars n (lowPart d)).shift = (startVars n d).shift := lowPart_shl h.1
      have hnext : (startVars n (lowPart d)).double = (startVars n d).double := by
        show DivVars.mk n (lowPart d <<< 1) (1 <<< 1) (lowPart d <<< 1 <<< 1) 0 = _
        rw [lowPart_shl h.1]
        rfl
      have htest := (startVars_test h.1).2 h
      have htest' : (startVars n (lowPart d)).doubles = true := by
        rw [DivVars.doubles, hshift]
        exact htest
      have hlow : doubleLoop (fuel + 1) (startVars n (lowPart d)) =
          doubleLoop fuel (startVars n (lowPart d)).double := whileLoop_of_true htest' rfl
      calc doubleLoop (fuel + 1) (startVars n d)
          = doubleLoop fuel (startVars n d).double := whileLoop_of_true htest rfl
        _ = doubleLoop fuel (startVars n (lowPart d)).double := by rw [hnext]
        _ = doubleLoop (fuel + 1) (startVars n (lowPart d)) := hlow.symm

theorem doubleLoop_zero (n : BitVec 32) (fuel : Nat) : doubleLoop fuel (startVars n 0) = none := by
  apply whileLoop_none (I := fun v => v.shift = 0)
  · intro v hv
    constructor
    · rw [DivVars.doubles, hv]
      exact Bool.and_eq_true_iff.2 ⟨rfl, decide_eq_true (BitVec.le_def.2 (Nat.zero_le _))⟩
    · intro v' hv'
      obtain rfl := Option.some.inj hv'
      show v.shift <<< 1 = 0
      rw [hv]
      rfl
  · rfl

/-- The low part of an overshooting denominator goes into the numerator at least twice. -/
theorem Overshoots.two_le {n d : BitVec 32} (h : Overshoots n d) (hlow : lowPart d ≠ 0) :
    2 ≤ (n / lowPart d).toNat := by
  rw [BitVec.toNat_udiv, Nat.le_div_iff_mul_le (toNat_pos hlow), toNat_lowPart h.1]
  exact h.2.2

theorem uidivmod_overshoots {n d : BitVec 32} (h : Overshoots n d) {fuel : Nat} {r : Divided}
    (hr : uidivmod fuel n d = some r) : lowPart d ≠ 0 ∧ r.value = n / lowPart d := by
  have hd : d ≠ 0 := by
    intro hd
    have := h.1
    rw [hd] at this
    exact absurd this (by decide)
  rw [uidivmod_eq hd, doubleLoop_overshoots h] at hr
  have hlow : lowPart d ≠ 0 := by
    intro hlow
    rw [hlow, doubleLoop_zero, Option.bind_none] at hr
    exact absurd hr (by simp)
  rw [← uidivmod_eq hlow] at hr
  have hfits : ¬Overshoots n (lowPart d) := by
    intro hover
    have := hover.1
    have := d.isLt
    rw [toNat_lowPart h.1] at *
    omega
  have hmore := uidivmod_mono (Nat.le_max_left fuel wordFuel) hlow hr
  rw [uidivmod_spec hlow hfits (Nat.le_max_right fuel wordFuel)] at hmore
  exact ⟨hlow, congrArg Divided.value (Option.some.inj hmore).symm⟩

theorem udiv_high {n d : BitVec 32} (h : 2147483648 ≤ d.toNat) : (n / d).toNat < 2 := by
  have hn := n.isLt
  rw [BitVec.toNat_udiv, Nat.div_lt_iff_lt_mul (by omega)]
  omega

/-- The loops end on the quotient and the remainder exactly where the denominator does not
overshoot. -/
theorem uidivmod_divides_iff {n d : BitVec 32} (hd : d ≠ 0) :
    (∃ fuel, uidivmod fuel n d = some ⟨n / d, some (n / d, n % d)⟩) ↔ ¬Overshoots n d := by
  constructor
  · intro h hover
    obtain ⟨fuel, hr⟩ := h
    obtain ⟨hlow, hquot⟩ := uidivmod_overshoots hover hr
    have htwo := hover.two_le hlow
    have hone := udiv_high (n := n) hover.1
    rw [← hquot] at htwo
    exact absurd htwo (Nat.not_le.2 hone)
  · intro h
    exact ⟨wordFuel, uidivmod_spec hd h (Nat.le_refl wordFuel)⟩

theorem uidivmod_divides_iff_sample :
    (7 : BitVec 32) ≠ 0 ∧
      ((∃ fuel, uidivmod fuel 100 7 = some ⟨100 / 7, some (100 / 7, 100 % 7)⟩) ↔
        ¬Overshoots 100 7) :=
  ⟨by decide, uidivmod_divides_iff (by decide)⟩

/-- `5 / 0x80000001` comes back as 5. -/
theorem uidivmod_fails :
    ¬∀ n d : BitVec 32, d ≠ 0 →
      ∃ fuel, uidivmod fuel n d = some ⟨n / d, some (n / d, n % d)⟩ := by
  intro h
  obtain ⟨fuel, hr⟩ := h 5 0x80000001 (by decide)
  have hover : Overshoots 5 0x80000001 := by decide
  have hquot := (uidivmod_overshoots hover hr).2
  exact absurd hquot (by decide)

end Aimv6.Drivers
