/-
The values of formulas. Numbers are exact: a quotient is a rational number, `Math.trunc` cuts it towards zero, and a
remainder has the sign of the number that is divided. An operator takes numbers and gives a number or, if it compares,
a truth. Main statements: on whole numbers a cut quotient and a remainder are those of division towards zero
(`towardsZero_div`, `remainder_intCast`).
-/
import Mathlib.Data.Rat.Floor
import Mathlib.Tactic.Linarith
import PL0.Proofs.JavaScript.Formula

namespace PL0.JavaScript

/-! ## Numbers -/

/-- A number without its fraction. -/
def towardsZero (q : ℚ) : ℤ := if 0 ≤ q then ⌊q⌋ else ⌈q⌉

/-- What is left of a number when it is divided. -/
def remainder (a b : ℚ) : ℚ := a - b * towardsZero (a / b)

theorem towardsZero_neg (q : ℚ) : towardsZero (-q) = -towardsZero q := by
  unfold towardsZero
  rcases lt_trichotomy q 0 with h | rfl | h
  · rw [if_pos (by linarith), if_neg (by linarith), Int.floor_neg]
  · simp
  · rw [if_neg (by linarith), if_pos h.le, Int.ceil_neg]

theorem towardsZero_natCast_div (n m : Nat) : towardsZero ((n : ℚ) / m) = (n : ℤ).tdiv m := by
  rw [towardsZero, if_pos (by positivity), Rat.floor_natCast_div_natCast, Int.tdiv_eq_ediv_of_nonneg (by positivity)]

/-- A quotient of whole numbers without its fraction is their quotient towards zero. -/
theorem towardsZero_div (a b : ℤ) : towardsZero ((a : ℚ) / b) = a.tdiv b := by
  obtain ⟨n, rfl | rfl⟩ := a.eq_nat_or_neg <;> obtain ⟨m, rfl | rfl⟩ := b.eq_nat_or_neg
  · exact towardsZero_natCast_div n m
  · push_cast
    rw [div_neg, towardsZero_neg, towardsZero_natCast_div, Int.tdiv_neg]
  · push_cast
    rw [neg_div, towardsZero_neg, towardsZero_natCast_div, Int.neg_tdiv]
  · push_cast
    rw [neg_div_neg_eq, towardsZero_natCast_div, Int.neg_tdiv, Int.tdiv_neg, neg_neg]

theorem remainder_intCast (a b : ℤ) : remainder a b = (a.tmod b : ℤ) := by
  rw [remainder, towardsZero_div, Int.tmod_def]
  push_cast
  rfl

/-! ## Values -/

inductive Value where
  | number (q : ℚ)
  | truth (b : Bool)
deriving DecidableEq

def Value.number? : Value → Option ℚ
  | number q => some q
  | truth _ => none

/-- What an operator makes of two numbers. Nothing is divided by zero. -/
def Operation.result? : Operation → ℚ → ℚ → Option Value
  | add, a, b => some (.number (a + b))
  | subtract, a, b => some (.number (a - b))
  | multiply, a, b => some (.number (a * b))
  | divide, a, b => if b = 0 then none else some (.number (a / b))
  | remainder, a, b => if b = 0 then none else some (.number (JavaScript.remainder a b))
  | less, a, b => some (.truth (a < b))
  | lessEqual, a, b => some (.truth (a ≤ b))
  | greater, a, b => some (.truth (b < a))
  | greaterEqual, a, b => some (.truth (b ≤ a))
  | same, a, b => some (.truth (a = b))
  | different, a, b => some (.truth (a ≠ b))

/-- The value of a formula where names have the values that `ρ` gives them. -/
def Formula.value? (ρ : String → ℚ) : Formula → Option Value
  | number n => some (.number n)
  | name text => some (.number (ρ text))
  | truncate inner => ((inner.value? ρ).bind Value.number?).map fun a => .number (towardsZero a)
  | signed negative inner => ((inner.value? ρ).bind Value.number?).map fun a => .number (if negative then -a else a)
  | joined op left right =>
    ((left.value? ρ).bind Value.number?).bind fun a => ((right.value? ρ).bind Value.number?).bind (op.result? a)

/-- The text is a formula with the value. -/
def Evaluates (ρ : String → ℚ) (text : String) (v : Value) : Prop :=
  ∃ as f, atoms? text.toList = some as ∧ Forms 1 as f ∧ f.value? ρ = some v

/-- The value of a text that forms one formula. -/
theorem evaluates_iff {ρ : String → ℚ} {text : String} {as : List Atom} {f : Formula}
    (ha : atoms? text.toList = some as) (hf : ∀ g, Forms 1 as g ↔ g = f) (v : Value) :
    Evaluates ρ text v ↔ f.value? ρ = some v := by
  simp [Evaluates, ha, hf]

end PL0.JavaScript
