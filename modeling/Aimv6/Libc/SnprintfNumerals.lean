import Aimv6.Libc.SnprintfBounds
import Aimv6.Support.Numerals

/-! # The numerals of the formatter

The loop over `uval` stores the digits of a number from the least significant on
and the loop over `buf_pos` emits them backwards. So a directive without a width
prints the numeral of its argument, which a reader takes back.
-/

namespace Aimv6.Libc

open Support

variable {T : Target} {m : State T} {text : Long T → List UInt8}

theorem digits_getD {d : Nat} (h : d < 16) : digits.getD d 0 = digitChar d := by
  have hall : ∀ e ∈ List.range 16, digits.getD e 0 = digitChar e := by decide
  exact hall d (List.mem_range.2 h)

/-- The digits of `uval`, least significant first. -/
def State.digitsOf (m : State T) : List UInt8 :=
  (Nat.digits m.base.toNat m.uval.toNat).map digitChar

/-- The buffer with the digits of `uval` behind what it holds. -/
def State.stored (m : State T) : Buffer := Buffer.putAll ⟨m.buf, m.bufPos⟩ m.digitsOf

/-- The state behind the loop over `uval`. -/
def State.divided (m : State T) : State T :=
  { m with uval := 0, buf := m.stored.str, bufPos := m.stored.pos }

theorem uval_pos (h : m.uval ≠ 0) : 0 < m.uval.toNat :=
  Nat.pos_of_ne_zero fun hzero => h (BitVec.eq_of_toNat_eq (by simpa using hzero))

theorem digitLoop_emits (hc : m.control = .digitLoop) (hfit : DigitsFit m)
    (hbase : m.base.toNat ≤ 16) :
    Emits (State.step text) m [] m.divided ∧ DigitsFit m.divided := by
  obtain ⟨k, hk⟩ : ∃ k, m.uval.toNat = k := ⟨_, rfl⟩
  induction k using Nat.strong_induction_on generalizing m with
  | _ k ih =>
      by_cases huval : m.uval = 0
      · have hzero : m.uval.toNat = 0 := by simp [huval]
        have hsame : m.divided = m := by
          unfold State.divided State.stored State.digitsOf
          rw [hzero, Nat.digits_zero, ← huval]
          rfl
        rw [hsame]
        exact ⟨Emits.refl m, hfit⟩
      · have hpos := uval_pos huval
        have htwo : 1 < m.base.toNat := Nat.lt_of_lt_of_le (by decide) hfit.base
        obtain ⟨next, hnext⟩ : ∃ next, next = { m with
          uval := m.uval / m.base
          buf := Function.update m.buf m.bufPos (digitChar (m.uval.toNat % m.base.toNat))
          bufPos := m.bufPos + 1 } := ⟨_, rfl⟩
        have hstep : State.step text m = .silent next := by
          have hdigit : digits.getD (m.uval % m.base).toNat 0 =
              digitChar (m.uval.toNat % m.base.toNat) := by
            rw [BitVec.toNat_umod]
            exact digits_getD (Nat.lt_of_lt_of_le (Nat.mod_lt _ (by omega)) hbase)
          have hroom : m.bufPos < BUF_SIZE := Nat.lt_trans (hfit.room huval) (by decide)
          unfold State.step
          rw [hc]
          dsimp only
          rw [if_pos huval, hdigit]
          unfold State.store
          rw [if_pos hroom, hnext, ← hc]
        have hdivided : next.divided = m.divided := by
          have hdigits : m.digitsOf =
              digitChar (m.uval.toNat % m.base.toNat) :: next.digitsOf := by
            unfold State.digitsOf
            rw [Nat.digits_def' htwo hpos, List.map_cons, hnext, BitVec.toNat_udiv]
          have hstored : m.stored = next.stored := by
            unfold State.stored
            rw [hdigits, hnext]
            rfl
          unfold State.divided
          rw [hstored, hnext]
        have hless : next.uval.toNat < k := by
          rw [hnext, ← hk]
          show (m.uval / m.base).toNat < _
          rw [BitVec.toNat_udiv]
          exact Nat.div_lt_self hpos htwo
        have hfit' : DigitsFit next := by
          rw [hnext]
          exact hfit.next huval rfl rfl rfl
        have hc' : next.control = .digitLoop := by rw [hnext]; exact hc
        have hbase' : next.base.toNat ≤ 16 := by rw [hnext]; exact hbase
        obtain ⟨hrun, hroom⟩ := ih next.uval.toNat hless hc' hfit' hbase' rfl
        rw [← hdivided]
        exact ⟨Emits.silent hstep hrun, hroom⟩

theorem printDigits_emits {n : Nat} (hc : m.control = .printDigits) (hn : m.bufPos = n)
    (hpos : n ≤ BUF_SIZE) : Emits (State.step text) m ((List.range n).map m.buf).reverse
      { m with control := .nextFmt, bufPos := 0 } := by
  induction n generalizing m with
  | zero =>
      apply Emits.quiet
      unfold State.step
      rw [hc]
      dsimp only
      rw [hn]
  | succ n ih =>
      rw [List.range_succ, List.map_append, List.reverse_append]
      have hstep : State.step text m = .emit (m.buf n) { m with bufPos := n } := by
        unfold State.step
        rw [hc]
        dsimp only
        rw [hn]
        dsimp only
        unfold State.emitBuf
        rw [if_pos (Nat.lt_of_succ_le hpos), ← hc]
      exact Emits.emit hstep (@ih { m with bufPos := n } hc rfl (Nat.le_of_succ_le hpos))

/-- The digits that are in the buffer behind the loop over `uval`, in the order they are printed. -/
theorem stored_digits (hpos : m.bufPos = 0) :
    ((List.range m.stored.pos).map m.stored.str).reverse =
      digitText m.base.toNat m.uval.toNat := by
  unfold digitText
  congr 1
  have hlen : m.stored.pos = m.digitsOf.length := by
    unfold State.stored
    rw [Buffer.putAll_pos, hpos, Nat.zero_add]
  apply List.ext_getElem
  · rw [List.length_map, List.length_range, hlen]
    rfl
  · intro i hi hi'
    rw [List.getElem_map, List.getElem_range]
    have hin := Buffer.putAll_inside ⟨m.buf, m.bufPos⟩ m.digitsOf hi'
    rw [hpos, Nat.zero_add] at hin
    unfold State.stored
    rw [hpos]
    exact hin

def signText (flag : BitVec 32) : List UInt8 := if flag &&& FLAG_NEG ≠ 0 then [45] else []

/-- What the loop over `width` prints of `ds`: the last `w` digits, with zeros in front. -/
def lastDigits (w : Nat) (ds : List UInt8) : List UInt8 :=
  List.replicate (w - ds.length) 48 ++ ds.drop (ds.length - w)

/-- What is printed of the digits `ds` for a width. -/
def fieldText (width : Long T) (sign ds : List UInt8) : List UInt8 :=
  if width = 0 then sign ++ ds
  else if (0 : Long T).slt width then sign ++ lastDigits width.toNat ds
  else []

theorem toInt_of_small {v : Long T} (h : 2 * v.toNat < 2 ^ T.longBits) : v.toInt = v.toNat := by
  rw [BitVec.toInt_eq_toNat_cond, if_pos h]

theorem toNat_sub_one {v : Long T} {w : Nat} (h : v.toNat = w + 1) : (v - 1).toNat = w := by
  have hlt := v.isLt
  have hone : (1 : Long T).toNat = 1 := by cases T <;> rfl
  rw [BitVec.toNat_sub, hone, h]
  have hsum : 2 ^ T.longBits - 1 + (w + 1) = 2 ^ T.longBits + w := by omega
  rw [hsum, Nat.add_mod_left, Nat.mod_eq_of_lt (by omega)]

/-- The loop over `width`, from the last character of the field to the first. -/
theorem zeroPad_emits {w : Nat} (hc : m.control = .zeroPad) (hw : m.width.toNat = w)
    (hsmall : 2 * w < 2 ^ T.longBits) (hpos : m.bufPos ≤ BUF_SIZE) :
    Emits (State.step text) m
      ((List.range w).map fun i => if m.bufPos ≤ i then 48 else m.buf i).reverse
      { m with control := .nextFmt, width := -1 } := by
  have hstep : State.step text m = m.padLoop 48 := by
    unfold State.step
    rw [hc]
    rfl
  induction w generalizing m with
  | zero =>
      have hzero : m.width = 0 := BitVec.eq_of_toNat_eq (by rw [hw]; simp)
      have hminus : (0 : Long T) - 1 = -1 := by cases T <;> rfl
      have hneg : (-1 : Long T).toInt = -1 := by cases T <;> decide
      apply Emits.quiet
      rw [hstep]
      unfold State.padLoop
      rw [hzero, hminus]
      dsimp only
      rw [if_neg (by rw [hneg]; decide)]
  | succ w ih =>
      have hnat : (m.width - 1).toNat = w := toNat_sub_one hw
      have hint : (m.width - 1).toInt = w := by rw [toInt_of_small (by omega), hnat]
      obtain ⟨next, hnext⟩ : ∃ next, next = { m with width := m.width - 1 } := ⟨_, rfl⟩
      have hc' : next.control = .zeroPad := by rw [hnext]; exact hc
      have hw' : next.width.toNat = w := by rw [hnext]; exact hnat
      have hrest := ih hc' hw' (by omega) (by rw [hnext]; exact hpos) (by
        unfold State.step
        rw [hc']
        rfl)
      have hemit : State.step text m = .emit (if m.bufPos ≤ w then 48 else m.buf w) next := by
        rw [hstep]
        unfold State.padLoop
        dsimp only
        rw [hint, if_pos (Int.natCast_nonneg w)]
        by_cases hle : m.bufPos ≤ w
        · rw [if_pos (by omega), if_pos hle, hnext]
        · rw [if_neg (by omega), if_neg hle]
          unfold State.emitBuf
          rw [hnat, if_pos (by omega), hnext]
      rw [List.range_succ, List.map_append, List.reverse_append]
      rw [hnext] at hrest
      exact Emits.emit hemit (hnext ▸ hrest)

theorem lastDigits_eq (w n : Nat) (buf : Nat → UInt8) :
    ((List.range w).map fun i => if n ≤ i then 48 else buf i).reverse =
      lastDigits w ((List.range n).map buf).reverse := by
  unfold lastDigits
  apply List.ext_getElem
  · simp only [List.length_reverse, List.length_map, List.length_range, List.length_append,
      List.length_replicate, List.length_drop]
    omega
  · intro i hi hi'
    rw [List.length_reverse, List.length_map, List.length_range] at hi
    rw [List.getElem_append]
    simp only [List.getElem_reverse, List.getElem_map, List.getElem_range, List.length_map,
      List.length_range, List.length_reverse, List.length_replicate, List.getElem_replicate,
      List.getElem_drop]
    split
    case isTrue hout => rw [dif_pos (by omega)]
    case isFalse hin =>
      rw [dif_neg (by omega)]
      congr 1
      omega

/-- A sign and the digits in the buffer are printed as the width says. -/
theorem byWidth_emits {d : State T} (hstep : State.step text m = d.byWidth)
    (hpos : d.bufPos ≤ BUF_SIZE) :
    ∃ m', Emits (State.step text) m
      (fieldText d.width (signText d.flag) ((List.range d.bufPos).map d.buf).reverse) m' ∧
      m'.control = .nextFmt ∧ m'.fmt = d.fmt ∧ m'.ap = d.ap := by
  have hsign : ∀ {control out m'}, State.step text m = d.emitSign control →
      Emits (State.step text) { d with control := control } out m' →
      Emits (State.step text) m (signText d.flag ++ out) m' := by
    intro control out m' hstep hrun
    unfold State.emitSign at hstep
    unfold signText
    by_cases hneg : d.flag &&& FLAG_NEG ≠ 0
    · rw [if_pos hneg] at hstep ⊢
      exact Emits.emit hstep hrun
    · rw [if_neg hneg] at hstep ⊢
      exact Emits.silent hstep hrun
  unfold State.byWidth at hstep
  unfold fieldText
  by_cases hzero : d.width = 0
  · rw [if_pos hzero] at hstep ⊢
    exact ⟨_, hsign hstep (printDigits_emits rfl rfl hpos), rfl, rfl, rfl⟩
  · rw [if_neg hzero] at hstep ⊢
    by_cases hwidth : (0 : Long T).slt d.width
    · have hsmall : 2 * d.width.toNat < 2 ^ T.longBits := by
        rw [BitVec.slt_iff_toInt_lt, show (0 : Long T).toInt = 0 from BitVec.toInt_zero,
          BitVec.toInt_eq_toNat_cond] at hwidth
        split at hwidth <;> omega
      rw [if_pos ⟨hwidth, flag_zeropad d.flag⟩] at hstep
      rw [if_pos hwidth, ← lastDigits_eq]
      exact ⟨_, hsign hstep (zeroPad_emits (m := { d with control := .zeroPad }) rfl rfl hsmall hpos),
        rfl, rfl, rfl⟩
    · rw [if_neg (fun h => hwidth h.1), if_neg hwidth] at hstep
      rw [if_neg hwidth]
      exact ⟨_, Emits.quiet hstep, rfl, rfl, rfl⟩

/-- From the loop over `uval` on, a directive prints the field of the numeral. -/
theorem field_emits (hc : m.control = .digitLoop) (hfit : DigitsFit m) (hpos : m.bufPos = 0)
    (hbase : m.base.toNat ≤ 16) :
    ∃ m', Emits (State.step text) m
      (fieldText m.width (signText m.flag) (numeral m.base.toNat m.uval.toNat)) m' ∧
      m'.control = .nextFmt ∧ m'.fmt = m.fmt ∧ m'.ap = m.ap := by
  obtain ⟨hloop, hroom⟩ : Emits (State.step text) m [] m.divided ∧ DigitsFit m.divided :=
    digitLoop_emits hc hfit hbase
  have hdigits : ((List.range m.divided.bufPos).map m.divided.buf).reverse =
      digitText m.base.toNat m.uval.toNat := stored_digits hpos
  have hlen : m.divided.bufPos = (digitText m.base.toNat m.uval.toNat).length := by
    rw [← hdigits, List.length_reverse, List.length_map, List.length_range]
  have hcount : m.divided.bufPos ≤ BUF_SIZE := Nat.le_trans hroom.count (by decide)
  have hstep : State.step text m.divided = if m.divided.bufPos = 0 then
      State.byWidth { m.divided with buf := Function.update m.divided.buf 0 48, bufPos := 1 }
      else m.divided.byWidth := by
    unfold State.step
    rw [show m.divided.control = .digitLoop from hc]
    dsimp only
    rw [if_neg (show ¬m.divided.uval ≠ 0 from fun h => h rfl)]
    rfl
  unfold numeral
  by_cases hzero : m.uval.toNat = 0
  · have hempty : m.divided.bufPos = 0 := by
      rw [hlen, hzero, digitText, Nat.digits_zero]
      rfl
    rw [if_pos hempty] at hstep
    rw [if_pos hzero]
    obtain ⟨m', hprint, hend⟩ := byWidth_emits hstep (show 1 ≤ BUF_SIZE by decide)
    have hbuf : (List.map (Function.update m.divided.buf 0 48) (List.range 1)).reverse = [48] := by
      simp
    dsimp only at hprint
    rw [hbuf] at hprint
    exact ⟨m', hloop.trans hprint, hend⟩
  · have hsome : m.divided.bufPos ≠ 0 := by
      have htwo : 1 < m.base.toNat := Nat.lt_of_lt_of_le (by decide) hfit.base
      have hne := digitText_ne_nil htwo (Nat.pos_of_ne_zero hzero)
      rw [hlen]
      exact fun h => hne (List.eq_nil_of_length_eq_zero h)
    rw [if_neg hsome] at hstep
    rw [if_neg hzero]
    obtain ⟨m', hprint, hend⟩ := byWidth_emits hstep hcount
    rw [hdigits] at hprint
    exact ⟨m', hloop.trans hprint, hend⟩

/-! ## Directives -/

/-- In front of the rest of the format, without a width or a flag. -/
structure AtMain (m : State T) (fmt : List UInt8) (ap : Nat → Long T) : Prop where
  control : m.control = .main
  fmt : m.fmt = fmt
  ap : m.ap = ap
  width : m.width = 0
  flag : m.flag = 0

def rest (ap : Nat → Long T) : Nat → Long T := fun i => ap (i + 1)

/-- Behind the percent sign, the flags and the width. -/
structure AtSwitch (m : State T) (fmt : List UInt8) (ap : Nat → Long T) (width : Long T) : Prop where
  control : m.control = .fmtLoop
  fmt : m.fmt = fmt
  ap : m.ap = ap
  width : m.width = width
  positive : m.flag &&& FLAG_NEG = 0

theorem nextFmt_emits {ch : UInt8} {fmt : List UInt8} {ap : Nat → Long T}
    (hc : m.control = .nextFmt) (hfmt : m.fmt = ch :: fmt) (hap : m.ap = ap) :
    ∃ m', Emits (State.step text) m [] m' ∧ AtMain m' fmt ap := by
  have hstep : State.step text m = .silent { m.skip .main with flag := 0, width := 0 } := by
    unfold State.step
    rw [hc]
  refine ⟨_, Emits.quiet hstep, ?_⟩
  rw [skip_cons hfmt]
  exact ⟨rfl, rfl, hap, rfl, rfl⟩

theorem percent_emits {fmt : List UInt8} (hc : m.control = .main)
    (hfmt : m.fmt = '%'.toUInt8 :: fmt) :
    Emits (State.step text) m [] { m with control := .fmtLoop, fmt := fmt } := by
  have hstep : State.step text m = .silent (m.skip .fmtLoop) := by
    unfold State.step
    rw [hc]
    dsimp only
    rw [hfmt]
    rfl
  rw [skip_cons hfmt] at hstep
  exact Emits.quiet hstep

theorem AtMain.percent {fmt : List UInt8} {ap : Nat → Long T}
    (h : AtMain m ('%'.toUInt8 :: fmt) ap) :
    ∃ m', Emits (State.step text) m [] m' ∧ AtSwitch m' fmt ap 0 := by
  refine ⟨_, percent_emits h.control h.fmt, rfl, rfl, h.ap, h.width, ?_⟩
  show m.flag &&& FLAG_NEG = 0
  rw [h.flag]
  decide

/-- A directive that takes its digits from `uval` prints the field and is done. -/
theorem directive_emits {ch : UInt8} {fmt : List UInt8} {ap : Nat → Long T} {base uval width : Long T}
    {flag : BitVec 32} (h : AtSwitch m (ch :: fmt) ap width)
    (hbase : 8 ≤ base.toNat ∧ base.toNat ≤ 16)
    (hswitch : m.fmtSwitch text = .silent { m.getUint base with uval := uval, flag := flag }) :
    ∃ m', Emits (State.step text) m
      (fieldText width (signText flag) (numeral base.toNat uval.toNat)) m' ∧
      AtMain m' fmt (rest ap) := by
  obtain ⟨at₁, hat₁⟩ : ∃ at₁, at₁ = { m.getUint base with uval := uval, flag := flag } := ⟨_, rfl⟩
  rw [← hat₁] at hswitch
  have hstep : State.step text m = .silent at₁ := by
    rw [← hswitch]
    unfold State.step
    rw [h.control]
  have hfit : DigitsFit at₁ := hat₁ ▸ DigitsFit.start hbase.1 m uval flag
  have hwidth : at₁.width = width := by
    rw [hat₁]
    exact h.width
  obtain ⟨at₂, hprint, hc, hfmt, hap⟩ : ∃ at₂, Emits (State.step text) at₁
      (fieldText at₁.width (signText at₁.flag) (numeral at₁.base.toNat at₁.uval.toNat)) at₂ ∧
      at₂.control = .nextFmt ∧ at₂.fmt = at₁.fmt ∧ at₂.ap = at₁.ap :=
    field_emits (by rw [hat₁]; rfl) hfit (by rw [hat₁]; rfl) (by rw [hat₁]; exact hbase.2)
  have hfmt' : at₂.fmt = ch :: fmt := by
    rw [hfmt, hat₁]
    exact h.fmt
  have hap' : at₂.ap = rest ap := by
    rw [hap, hat₁, ← h.ap]
    rfl
  obtain ⟨m', hnext, hmain⟩ : ∃ m', Emits (State.step text) at₂ [] m' ∧ AtMain m' fmt (rest ap) :=
    nextFmt_emits hc hfmt' hap'
  have hall := (Emits.quiet hstep).trans (hprint.trans hnext)
  rw [List.append_nil, List.nil_append, hwidth, hat₁] at hall
  exact ⟨m', hall, hmain⟩

/-- The conversions of an unsigned word. -/
inductive Conversion where
  | u
  | o
  | x
  | p
deriving DecidableEq, Repr

def Conversion.char : Conversion → UInt8
  | .u => 'u'.toUInt8
  | .o => 'o'.toUInt8
  | .x => 'x'.toUInt8
  | .p => 'p'.toUInt8

def Conversion.base : Conversion → Nat
  | .u => 10
  | .o => 8
  | .x => 16
  | .p => 16

theorem Conversion.base_bounds (c : Conversion) : 8 ≤ c.base ∧ c.base ≤ 16 := by
  cases c <;> decide

theorem signText_positive {flag : BitVec 32} (h : flag &&& FLAG_NEG = 0) : signText flag = [] := by
  unfold signText
  exact if_neg (not_not.2 h)

theorem unsigned_emits (c : Conversion) {fmt : List UInt8} {ap : Nat → Long T} {width : Long T}
    (h : AtSwitch m (c.char :: fmt) ap width) :
    ∃ m', Emits (State.step text) m (fieldText width [] (numeral c.base (ap 0).toNat)) m' ∧
      AtMain m' fmt (rest ap) := by
  have hswitch : ∃ base : Long T, base.toNat = c.base ∧
      m.fmtSwitch text = .silent { m.getUint base with uval := ap 0, flag := m.flag } := by
    have hfmt : deref m.fmt = c.char := by
      rw [h.fmt]
      rfl
    unfold State.fmtSwitch
    rw [hfmt, ← h.ap]
    cases c with
    | u => exact ⟨10, base_ten, rfl⟩
    | o => exact ⟨8, base_eight, rfl⟩
    | x => exact ⟨16, base_sixteen, rfl⟩
    | p => exact ⟨16, base_sixteen, rfl⟩
  obtain ⟨base, hbase, hswitch⟩ := hswitch
  have hprint := directive_emits h (hbase ▸ c.base_bounds) hswitch
  rw [hbase, signText_positive h.positive] at hprint
  exact hprint

/-- The magnitude that is printed behind the sign; the least value is its own negation. -/
theorem toNat_neg_of_slt {v : Long T} (h : v.slt 0 = true) : (-v).toNat = v.toInt.natAbs := by
  have hlt := v.isLt
  have hmsb : v.msb = true := (BitVec.slt_zero_eq_msb (x := v)).symm.trans h
  rw [BitVec.msb_eq_true_iff_two_mul_ge] at hmsb
  rw [BitVec.toNat_neg, BitVec.toInt_eq_toNat_cond, if_neg (by omega), Nat.mod_eq_of_lt (by omega)]
  omega

theorem slt_zero_iff {v : Long T} : v.slt 0 = true ↔ v.toInt < 0 := by
  rw [BitVec.slt_iff_toInt_lt]
  rw [show (0 : Long T).toInt = 0 from BitVec.toInt_zero]

def minus (i : Int) : List UInt8 := if i < 0 then [45] else []

theorem signedNumeral_eq (i : Int) : signedNumeral 10 i = minus i ++ numeral 10 i.natAbs := by
  unfold signedNumeral minus
  split
  · rfl
  · rfl

theorem signed_emits {fmt : List UInt8} {ap : Nat → Long T} {width : Long T}
    (h : AtSwitch m ('d'.toUInt8 :: fmt) ap width) :
    ∃ m', Emits (State.step text) m
      (fieldText width (minus (ap 0).toInt) (numeral 10 (ap 0).toInt.natAbs)) m' ∧
      AtMain m' fmt (rest ap) := by
  have hten : 8 ≤ (10 : Long T).toNat ∧ (10 : Long T).toNat ≤ 16 := by rw [base_ten]; decide
  have hswitch : m.fmtSwitch text = .silent m.getInt := by
    unfold State.fmtSwitch
    rw [show deref m.fmt = 'd'.toUInt8 by rw [h.fmt]; rfl]
    rfl
  unfold State.getInt at hswitch
  rw [h.ap] at hswitch
  unfold minus
  by_cases hneg : (ap 0).slt 0 = true
  · rw [if_pos hneg] at hswitch
    rw [if_pos (slt_zero_iff.1 hneg)]
    have hsign : signText (m.flag ||| FLAG_NEG) = [45] := by
      unfold signText
      apply if_pos
      intro hzero
      have hbit := congrArg (fun b : BitVec 32 => b.getLsbD 8) hzero
      rw [BitVec.getLsbD_and, BitVec.getLsbD_or] at hbit
      simp [FLAG_NEG] at hbit
    have hprint := directive_emits h hten hswitch
    rw [base_ten, toNat_neg_of_slt hneg, hsign] at hprint
    exact hprint
  · have hsame : m.getUint 10 = { m.getUint 10 with uval := ap 0, flag := m.flag } := by
      rw [← h.ap]
      rfl
    have hnonneg : ¬(ap 0).toInt < 0 := fun hlt => hneg (slt_zero_iff.2 hlt)
    rw [if_neg hneg, hsame] at hswitch
    rw [if_neg hnonneg]
    have hprint := directive_emits h hten hswitch
    have hmag : (ap 0).toInt.natAbs = (ap 0).toNat := by
      have hlt := (ap 0).isLt
      rw [BitVec.toInt_eq_toNat_cond] at hnonneg ⊢
      split at hnonneg <;> omega
    rw [base_ten, signText_positive h.positive, ← hmag] at hprint
    exact hprint

theorem AtMain.stops {ap : Nat → Long T} (h : AtMain m [] ap) : State.step text m = .stop := by
  unfold State.step
  rw [h.control]
  dsimp only
  rw [h.fmt]
  rfl

theorem start_atMain (fmt : List UInt8) (ap : Nat → Long T) : AtMain (State.start fmt ap) fmt ap :=
  ⟨rfl, rfl, rfl, rfl, rfl⟩

/-- In a buffer that is large enough the format `fmt` leaves `txt` for the argument `a`. -/
def Prints (T : Target) (fmt : List UInt8) (a : Long T) (txt : List UInt8) : Prop :=
  ∀ (text : Long T → List UInt8) (ap : Nat → Long T) (size : Nat) (str : Nat → UInt8), ap 0 = a →
    txt.length < size → ∃ fuel r str', vsnprintf text fuel str size fmt ap = some (r, str') ∧
      Holds str' txt

theorem fieldText_zero (sign ds : List UInt8) : fieldText (0 : Long T) sign ds = sign ++ ds :=
  if_pos rfl

theorem prints_of_emits {fmt txt : List UInt8} {v : Long T}
    (h : ∀ (text : Long T → List UInt8) (ap : Nat → Long T), ap 0 = v →
      Stops (State.step text) (State.start fmt ap) txt) : Prints T fmt v txt := by
  intro text ap size str hap hsize
  obtain ⟨fuel, r, str', hcall, -, hholds⟩ := vsnprintf_whole (h text ap hap) hsize str
  exact ⟨fuel, r, str', hcall, hholds⟩

theorem prints_signed (v : Long T) :
    Prints T ['%'.toUInt8, 'd'.toUInt8] v (signedNumeral 10 v.toInt) := by
  apply prints_of_emits
  intro text ap hap
  obtain ⟨m₁, hpercent, hswitch⟩ : ∃ m', Emits (State.step text) (State.start _ ap) [] m' ∧ _ :=
    (start_atMain ['%'.toUInt8, 'd'.toUInt8] ap).percent
  obtain ⟨m, hrun, hmain⟩ : ∃ m', Emits (State.step text) m₁ _ m' ∧ _ := signed_emits hswitch
  rw [hap, fieldText_zero, ← signedNumeral_eq] at hrun
  exact ⟨m, hpercent.trans hrun, hmain.stops⟩

theorem prints_unsigned (c : Conversion) (u : Long T) :
    Prints T ['%'.toUInt8, c.char] u (numeral c.base u.toNat) := by
  apply prints_of_emits
  intro text ap hap
  obtain ⟨m₁, hpercent, hswitch⟩ : ∃ m', Emits (State.step text) (State.start _ ap) [] m' ∧ _ :=
    (start_atMain ['%'.toUInt8, c.char] ap).percent
  obtain ⟨m, hrun, hmain⟩ : ∃ m', Emits (State.step text) m₁ _ m' ∧ _ := unsigned_emits c hswitch
  rw [hap, fieldText_zero, List.nil_append] at hrun
  exact ⟨m, hpercent.trans hrun, hmain.stops⟩

/-- What is printed for a word is its numeral: a reader takes it back, it has no leading zero, and
different words have different texts. -/
theorem numerals_round_trip (T : Target) :
    (∃ txt : Long T → List UInt8, Function.Injective txt ∧
      ∀ v, Prints T ['%'.toUInt8, 'd'.toUInt8] v (txt v) ∧ readInt 10 (txt v) = some v.toInt ∧
        ((txt v).head? = some '-'.toUInt8 ↔ v.toInt < 0) ∧
        NoLeadingZero (if v.toInt < 0 then (txt v).tail else txt v)) ∧
    ∀ c : Conversion, ∃ txt : Long T → List UInt8, Function.Injective txt ∧
      ∀ u, Prints T ['%'.toUInt8, c.char] u (txt u) ∧ readNat c.base (txt u) = some u.toNat ∧
        NoLeadingZero (txt u) := by
  constructor
  · have hread : ∀ v : Long T, readInt 10 (signedNumeral 10 v.toInt) = some v.toInt := fun v =>
      readInt_signedNumeral (by decide) (by decide) v.toInt
    refine ⟨fun v => signedNumeral 10 v.toInt, fun v v' h => ?_, fun v => ⟨prints_signed v, hread v,
      signedNumeral_head (by decide) (by decide) v.toInt, ?_⟩⟩
    · dsimp only at h
      have hsame := hread v
      rw [h, hread v'] at hsame
      exact BitVec.eq_of_toInt_eq (Option.some.inj hsame).symm
    · have hzero := numeral_noLeadingZero (b := 10) (by decide) (by decide) v.toInt.natAbs
      dsimp only
      unfold signedNumeral
      by_cases hneg : v.toInt < 0
      · rw [if_pos hneg, if_pos hneg]
        exact hzero
      · rw [if_neg hneg, if_neg hneg]
        exact hzero
  · intro c
    have hbase := c.base_bounds
    have hread : ∀ u : Long T, readNat c.base (numeral c.base u.toNat) = some u.toNat := fun u =>
      readNat_numeral (by omega) hbase.2 u.toNat
    refine ⟨fun u => numeral c.base u.toNat, fun u u' h => ?_, fun u => ⟨prints_unsigned c u, hread u,
      numeral_noLeadingZero (by omega) hbase.2 u.toNat⟩⟩
    dsimp only at h
    have hsame := hread u
    rw [h, hread u'] at hsame
    exact BitVec.eq_of_toNat_eq (Option.some.inj hsame).symm

end Aimv6.Libc
