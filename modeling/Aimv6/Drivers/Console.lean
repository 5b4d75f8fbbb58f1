import Aimv6.Drivers.Uart
import Aimv6.Support.Loops
import Aimv6.Support.Numerals
import Mathlib.Data.List.TakeWhile

/-! # What the kernel prints

`uart.c` and `uart-printf.c`: strings, numbers and formatted text on the serial
line. Whatever the calls are and however the line keeps up, it carries the text
of one call behind that of another, complete and in order; formatted text is cut
where the buffer ends and at its first NUL.
-/

namespace Aimv6.Drivers

open Support

def BUFSIZ : Nat := 1024

/-- `table` of `puthex` -/
def hexTable : List UInt8 := "0123456789ABCDEF".toList.map Char.toUInt8

/-- `buf` of `puthex`: `"00000000\r\n\0"` in 15 bytes. -/
def hexBuf : Nat → UInt8 := fun k => if k < 8 then 48 else if k = 8 then 13 else if k = 9 then 10 else 0

/-- `puthex(num)`: `i` is 28 - 4 * k. -/
def puthex (c : Chip) (fuel num : Nat) : Driver Nat Unit :=
  let buf := countUp (fun k buf =>
    let i := 28 - 4 * k
    Function.update buf ((28 - i) >>> 2) (hexTable.getD (num >>> i &&& 0xF) 0)) 8 hexBuf
  uartSpinPuts c fuel buf fuel 0

variable {T : Libc.Target}

/-- `uart_spin_vprintf(fmt, ap)`, with what lies on the stack where its buffer is. -/
def uartSpinVprintf (c : Chip) (text : Libc.Long T → List UInt8) (fuel : Nat)
    (printfBuf : Nat → UInt8) (fmt : List UInt8) (ap : Nat → Libc.Long T) : Driver Nat Int :=
  match Libc.vsnprintf text fuel printfBuf BUFSIZ fmt ap with
  | none => .waiting
  | some (result, str) => do
      uartSpinPuts c fuel str fuel 0
      pure result

inductive ConsoleCall (T : Libc.Target) where
  | puts (str : Nat → UInt8)
  | puthex (num : Nat)
  | printf (printfBuf : Nat → UInt8) (fmt : List UInt8) (ap : Nat → Libc.Long T)

namespace ConsoleCall

def driver (c : Chip) (text : Libc.Long T → List UInt8) (fuel : Nat) : ConsoleCall T → Driver Nat Unit
  | puts str => uartSpinPuts c fuel str fuel 0
  | puthex num => Drivers.puthex c fuel num
  | printf printfBuf fmt ap => do
      let _ ← uartSpinVprintf c text fuel printfBuf fmt ap
      pure ()

/-- What callers see to: a string has its NUL, a number is a word, a format is complete. -/
def Valid : ConsoleCall T → Prop
  | puts str => ∃ k, str k = 0
  | puthex num => num < 4294967296
  | printf _ fmt _ => Libc.complete false fmt = true

def Prints (text : Libc.Long T → List UInt8) : ConsoleCall T → List UInt8 → Prop
  | puts str, out => Libc.Holds str out ∧ 0 ∉ out
  | puthex num, out => ∃ ds, out = ds ++ [13, 10] ∧ ds.length = 8 ∧ readNat 16 ds = some num
  | printf _ fmt ap, out => ∃ o, out = o.takeWhile (fun ch => decide (ch ≠ 0)) ∧
      FirstBytes (Libc.State.step text) (Libc.State.start fmt ap) (BUFSIZ - 1) o

end ConsoleCall

def printAll (c : Chip) (text : Libc.Long T → List UInt8) (fuel : Nat) :
    List (ConsoleCall T) → Driver Nat Unit
  | [] => pure ()
  | p :: ps => do
      p.driver c text fuel
      printAll c text fuel ps

variable {c : Chip} {depth fuel : Nat} {text : Libc.Long T → List UInt8} {q q' : Line}
  {L S S₀ W out : List UInt8}

/-! ## Strings -/

theorem holds_cons {str : Nat → UInt8} {b : UInt8} : Libc.Holds str (b :: out) ↔
    str 0 = b ∧ Libc.Holds (fun k => str (k + 1)) out := by
  constructor
  · rintro ⟨hchars, hend⟩
    exact ⟨hchars 0 (Nat.succ_pos _), fun i hi => hchars (i + 1) (Nat.succ_lt_succ hi), hend⟩
  · rintro ⟨hb, hchars, hend⟩
    refine ⟨fun i hi => ?_, hend⟩
    cases i with
    | zero => exact hb
    | succ i => exact hchars i (Nat.lt_of_succ_lt_succ hi)

theorem holds_takeWhile {str : Nat → UInt8} (h : Libc.Holds str out) :
    Libc.Holds str (out.takeWhile fun ch => decide (ch ≠ 0)) := by
  induction out generalizing str with
  | nil => exact h
  | cons b out ih =>
      obtain ⟨hb, hrest⟩ := holds_cons.1 h
      by_cases hzero : b = 0
      · rw [List.takeWhile_cons_of_neg (by simp [hzero])]
        exact ⟨fun i hi => absurd hi (Nat.not_lt_zero i), hb.trans hzero⟩
      · rw [List.takeWhile_cons_of_pos (by simp [hzero])]
        exact holds_cons.2 ⟨hb, ih hrest⟩

theorem takeWhile_no_nul (out : List UInt8) : 0 ∉ out.takeWhile fun ch => decide (ch ≠ 0) := by
  intro h
  have hne : decide ((0 : UInt8) ≠ 0) = true :=
    List.mem_takeWhile_imp (p := fun ch => decide (ch ≠ 0)) h
  exact absurd hne (by decide)

theorem exists_string {str : Nat → UInt8} {k : Nat} (h : str k = 0) :
    ∃ out, Libc.Holds str out ∧ 0 ∉ out := by
  induction k generalizing str with
  | zero => exact ⟨[], ⟨fun i hi => absurd hi (Nat.not_lt_zero i), h⟩, List.not_mem_nil⟩
  | succ k ih =>
      by_cases hzero : str 0 = 0
      · exact ⟨[], ⟨fun i hi => absurd hi (Nat.not_lt_zero i), hzero⟩, List.not_mem_nil⟩
      · obtain ⟨out, hout, hnul⟩ := @ih (fun k => str (k + 1)) h
        refine ⟨str 0 :: out, holds_cons.2 ⟨rfl, hout⟩, fun hc => ?_⟩
        rcases List.mem_cons.1 hc with hc | hc
        · exact hzero hc.symm
        · exact hnul hc

/-! ## `puthex` -/

theorem hexTable_getD {d : Nat} (h : d < 16) : hexTable.getD d 0 = digitChar d := by
  have hall : ∀ e ∈ List.range 16, hexTable.getD e 0 = digitChar e := by decide
  exact hall d (List.mem_range.2 h)

theorem hexTable_digit {num k : Nat} (hk : k < 8) :
    hexTable.getD (num >>> (28 - 4 * k) &&& 0xF) 0 = digitChar (num / 16 ^ (8 - 1 - k) % 16) := by
  have hpow : 2 ^ (28 - 4 * k) = 16 ^ (8 - 1 - k) := by
    rw [show (16 : Nat) = 2 ^ 4 from rfl, ← pow_mul, show 28 - 4 * k = 4 * (8 - 1 - k) by omega]
  have hand : num >>> (28 - 4 * k) &&& 0xF = num / 16 ^ (8 - 1 - k) % 16 := by
    rw [Nat.shiftRight_eq_div_pow, hpow]
    exact Nat.and_two_pow_sub_one_eq_mod _ 4
  rw [hand]
  exact hexTable_getD (Nat.mod_lt _ (by decide))

theorem hexBuf_holds (num : Nat) :
    Libc.Holds (countUp (fun k buf =>
      let i := 28 - 4 * k
      Function.update buf ((28 - i) >>> 2) (hexTable.getD (num >>> i &&& 0xF) 0)) 8 hexBuf)
      (fixedText 16 8 num ++ [13, 10]) := by
  have hloop := countUp_invariant (n := 8) (s := hexBuf) (g := fun k buf =>
      let i := 28 - 4 * k
      Function.update buf ((28 - i) >>> 2) (hexTable.getD (num >>> i &&& 0xF) 0))
    (I := fun n buf => ∀ k, buf k =
      if k < n then digitChar (num / 16 ^ (8 - 1 - k) % 16) else hexBuf k)
    (fun n buf hn h k => ?_) (fun k => (if_neg (Nat.not_lt_zero k)).symm)
  · have hlen : (fixedText 16 8 num).length = 8 := by
      unfold fixedText
      rw [List.length_map, List.length_range]
    have hall : (fixedText 16 8 num ++ [13, 10]).length = 10 := by
      rw [List.length_append, hlen]
      rfl
    constructor
    · intro i hi
      rw [hloop i]
      by_cases hlt : i < 8
      · rw [if_pos hlt, List.getElem_append_left (by omega)]
        unfold fixedText
        rw [List.getElem_map, List.getElem_range]
      · rw [if_neg hlt, List.getElem_append_right (by omega)]
        simp only [hlen]
        rcases (show i = 8 ∨ i = 9 by omega) with rfl | rfl <;> rfl
    · rw [hall, hloop 10]
      rfl
  · -- pass `n` stores the digit at place `n`
    have hplace : (28 - (28 - 4 * n)) >>> 2 = n := by
      rw [show 28 - (28 - 4 * n) = n * 2 ^ 2 by omega, Nat.shiftRight_eq_div_pow,
        Nat.mul_div_cancel _ (by decide)]
    dsimp only
    rw [hplace]
    by_cases hk : k = n
    · rw [hk, Function.update_self, if_pos (Nat.lt_succ_self n)]
      exact hexTable_digit hn
    · rw [Function.update_of_ne hk, h k]
      by_cases hlt : k < n
      · rw [if_pos hlt, if_pos (by omega)]
      · rw [if_neg hlt, if_neg (by omega)]

theorem hexText_no_nul (num : Nat) : 0 ∉ fixedText 16 8 num ++ [13, 10] := by
  intro h
  rcases List.mem_append.1 h with h | h
  · obtain ⟨k, -, hk⟩ := List.mem_map.1 h
    exact (digitChar_ne (Nat.mod_lt _ (by decide))).2 hk
  · exact absurd h (by decide)

theorem readNat_hexText {num : Nat} (h : num < 4294967296) :
    readNat 16 (fixedText 16 8 num) = some num := by
  unfold readNat
  rw [if_neg (by unfold fixedText; simp), foldlM_fixedText (by decide) (by decide),
    Nat.mod_eq_of_lt (show num < 16 ^ 8 from h)]

/-! ## Calls -/

/-- The driver brings the stream from anywhere on by `out`, and loses nothing. -/
def Carries (c : Chip) (depth : Nat) (d : Driver Nat Unit) (out : List UInt8) : Prop :=
  ∀ {q : Line} {L S S₀ W : List UInt8}, q.At L S → S₀ <+: S → S ++ out <+: W →
    d.Holds (line c depth) (Line.Along L S₀ W) (fun _ => Line.At L (S ++ out)) q

theorem carries_puts {str : Nat → UInt8} (hstr : Libc.Holds str out) (hnul : 0 ∉ out) :
    Carries c depth (uartSpinPuts c fuel str fuel 0) out := by
  intro q L S S₀ W hq h₀ hW
  refine puts_holds hq h₀ ?_ hnul hW
  simpa using hstr

theorem ConsoleCall.carries (text : Libc.Long T → List UInt8) (p : ConsoleCall T) (hp : p.Valid) :
    ∃ out, p.Prints text out ∧ ∀ c depth fuel, Carries c depth (p.driver c text fuel) out := by
  cases p with
  | puts str =>
      obtain ⟨k, hk⟩ := hp
      obtain ⟨out, hout, hnul⟩ := exists_string hk
      exact ⟨out, ⟨hout, hnul⟩, fun c depth fuel => carries_puts hout hnul⟩
  | puthex num =>
      refine ⟨fixedText 16 8 num ++ [13, 10], ⟨_, rfl, ?_, readNat_hexText hp⟩,
        fun c depth fuel => carries_puts (hexBuf_holds num) (hexText_no_nul num)⟩
      unfold fixedText
      rw [List.length_map, List.length_range]
  | printf printfBuf fmt ap =>
      obtain ⟨fuel₀, r, str, o, hrun, -, hfirst, hholds⟩ :=
        Libc.vsnprintf_holds hp (show 1 ≤ BUFSIZ by decide) printfBuf
      refine ⟨o.takeWhile fun ch => decide (ch ≠ 0), ⟨o, rfl, hfirst⟩, fun c depth fuel => ?_⟩
      intro q L S S₀ W hq h₀ hW
      unfold ConsoleCall.driver uartSpinVprintf
      dsimp only
      cases hcall : Libc.vsnprintf text fuel printfBuf BUFSIZ fmt ap with
      | none =>
          intro q₁ hd
          exact (hq.later (.of_drifts hd)).along h₀ ((List.prefix_append S _).trans hW)
      | some r' =>
          obtain rfl : r' = (r, str) := Libc.vsnprintf_unique hcall hrun
          have hputs := @carries_puts c depth fuel _ _
            (holds_takeWhile hholds) (takeWhile_no_nul o) q L S S₀ W hq h₀ hW
          refine Driver.holds_bind (Driver.holds_bind (hputs.settle.mono fun _ q₁ h₁ => ?_))
          refine Driver.holds_done fun q₂ hd₂ => ⟨(h₁ q₂ hd₂).1, Driver.holds_done fun q₃ hd₃ => ?_⟩
          exact h₁ q₃ (hd₂.trans hd₃)

theorem carries_printAll (text : Libc.Long T → List UInt8) {calls : List (ConsoleCall T)}
    (hvalid : ∀ p ∈ calls, p.Valid) : ∃ outs, List.Forall₂ (ConsoleCall.Prints text) calls outs ∧
      ∀ c depth fuel, Carries c depth (printAll c text fuel calls) outs.flatten := by
  induction calls with
  | nil =>
      refine ⟨[], List.Forall₂.nil, fun c depth fuel q L S S₀ W hq h₀ hW => ?_⟩
      refine Driver.holds_done fun q₁ hd => ?_
      have h₁ := hq.later (.of_drifts hd)
      rw [List.flatten_nil, List.append_nil] at hW ⊢
      exact ⟨h₁.along h₀ hW, h₁⟩
  | cons p ps ih =>
      obtain ⟨out, hprints, hcarries⟩ := p.carries text (hvalid p (List.mem_cons_self ..))
      obtain ⟨outs, houts, hrest⟩ := ih fun p' hp' => hvalid p' (List.mem_cons_of_mem p hp')
      refine ⟨out :: outs, List.Forall₂.cons hprints houts, fun c depth fuel q L S S₀ W hq h₀ hW => ?_⟩
      rw [List.flatten_cons, ← List.append_assoc] at hW ⊢
      refine Driver.holds_bind ((hcarries c depth fuel hq h₀
        ((List.prefix_append _ _).trans hW)).mono fun _ q₁ h₁ => ?_)
      exact hrest c depth fuel h₁ (h₀.trans (List.prefix_append S out)) hW

/-- At every moment of every run the line carries what the calls so far print and a beginning of the
rest, in order and without a byte lost, and all of it once the last call has returned. -/
theorem console_stream (text : Libc.Long T → List UInt8) {calls : List (ConsoleCall T)}
    (hvalid : ∀ p ∈ calls, p.Valid) :
    ∃ outs, List.Forall₂ (ConsoleCall.Prints text) calls outs ∧
      ∀ (c : Chip) (depth fuel : Nat) (q q' : Line) (es : List (Turn LineEvent))
        (d' : Driver Nat Unit),
        run (line c depth).step (printAll c text fuel calls, q) es = some (d', q') →
        q'.lost = q.lost ∧ q.stream <+: q'.stream ∧ q'.stream <+: q.stream ++ outs.flatten ∧
          (d' = .done () → q'.stream = q.stream ++ outs.flatten) := by
  obtain ⟨outs, hprints, hcarries⟩ := carries_printAll text hvalid
  refine ⟨outs, hprints, fun c depth fuel q q' es d' hrun => ?_⟩
  obtain ⟨hsafe, hdone⟩ := Driver.Holds.run (hcarries c depth fuel ⟨rfl, rfl⟩
    (List.prefix_refl q.stream) (List.prefix_refl _)) hrun
  exact ⟨hsafe.lost, hsafe.from_, hsafe.towards, fun hd => (hdone () hd).2⟩

def sampleCalls : List (ConsoleCall .armv7a) :=
  [.puthex 0xBEEF, .printf (fun _ => 255) ("%d!".toList.map Char.toUInt8) fun _ => 12345]

theorem console_stream_sample :
    ∃ outs, List.Forall₂ (ConsoleCall.Prints fun _ => []) sampleCalls outs ∧
      ∀ (es : List (Turn LineEvent)) (q' : Line),
        run (line uart16550 1).step
            (printAll uart16550 (fun _ => []) 100 sampleCalls, ⟨[], [], [], [], [], [], 0⟩) es =
          some (.done (), q') → q'.stream = outs.flatten := by
  have hvalid : ∀ p ∈ sampleCalls, p.Valid := by
    intro p hp
    rcases List.mem_cons.1 hp with rfl | hp
    · exact (by decide : 0xBEEF < 4294967296)
    · rw [List.mem_singleton.1 hp]
      exact (by decide : Libc.complete false ("%d!".toList.map Char.toUInt8) = true)
  obtain ⟨outs, hprints, hall⟩ := console_stream (fun _ => []) hvalid
  exact ⟨outs, hprints, fun es q' hrun => (hall _ _ _ _ _ _ _ hrun).2.2.2 rfl⟩

end Aimv6.Drivers
