/-
What expressions and conditions mean. Numbers are whole and have no bounds, and a quotient is cut towards zero. Main
statements: an expression has a value, and a condition is true or false, where no divisor in it is zero
(`Expr.exists_value`, `Condition.exists_truth`).
-/
import PL0.Program

namespace PL0

/-! ## Operators -/

/-- What an operator makes of one operand. -/
def Operator.unary? : Operator → Int → Option Int
  | unaryPlus, a => some a
  | unaryMinus, a => some (-a)
  | plus, _ | minus, _ | multiply, _ | divide, _ => none

/-- What an operator makes of two operands. Nothing is divided by zero. -/
def Operator.binary? : Operator → Int → Int → Option Int
  | plus, a, b => some (a + b)
  | minus, a, b => some (a - b)
  | multiply, a, b => some (a * b)
  | divide, a, b => if b = 0 then none else some (a.tdiv b)
  | unaryPlus, _, _ | unaryMinus, _, _ => none

theorem Operator.exists_unary {op : Operator} (h : op.isUnary = true) (a : Int) : ∃ v, op.unary? a = some v := by
  cases op <;> first | exact ⟨_, rfl⟩ | cases h

theorem Operator.exists_binary {op : Operator} (h : op.isUnary = false) (a : Int) {b : Int}
    (hb : op = .divide → b ≠ 0) : ∃ v, op.binary? a b = some v := by
  cases op with
  | divide => exact ⟨_, if_neg (hb rfl)⟩
  | unaryPlus | unaryMinus => cases h
  | _ => exact ⟨_, rfl⟩

/-- Whether two numbers stand in a relation. -/
def Relation.holds : Relation → Int → Int → Bool
  | eq, a, b => a = b
  | ne, a, b => a ≠ b
  | lt, a, b => a < b
  | le, a, b => a ≤ b
  | gt, a, b => b < a
  | ge, a, b => b ≤ a

/-! ## Expressions and conditions -/

section

variable {σ : String → Int}

namespace Expr

/-- The value of an expression where its names have the values that `σ` gives them. -/
def value? (σ : String → Int) : Expr → Option Int
  | operand (.number v) => some v.toInt
  | operand (.ident name) => some (σ name)
  | unary op inner => (inner.value? σ).bind op.unary?
  | binary op left right => (left.value? σ).bind fun a => (right.value? σ).bind (op.binary? a)

/-- The divisors in an expression. -/
def divisors : Expr → List Expr
  | operand _ => []
  | unary _ inner => inner.divisors
  | binary op left right => left.divisors ++ right.divisors ++ if op = .divide then [right] else []

theorem exists_value {e : Expr} (h : e.WellFormed) (hd : ∀ d ∈ e.divisors, d.value? σ ≠ some 0) :
    ∃ v, e.value? σ = some v := by
  induction e with
  | operand leaf => cases leaf <;> exact ⟨_, rfl⟩
  | unary op inner ih =>
    obtain ⟨a, ha⟩ := ih h.2 hd
    rw [value?, ha]
    exact Operator.exists_unary h.1 a
  | binary op left right ihl ihr =>
    obtain ⟨hd, hlast⟩ := List.forall_mem_append.1 hd
    obtain ⟨hdl, hdr⟩ := List.forall_mem_append.1 hd
    obtain ⟨a, ha⟩ := ihl h.2.1 hdl
    obtain ⟨b, hb⟩ := ihr h.2.2 hdr
    have hzero : op = .divide → b ≠ 0 := by
      rintro rfl rfl
      exact hlast right List.mem_cons_self hb
    rw [value?, ha, hb]
    exact Operator.exists_binary h.1 a hzero

end Expr

namespace Condition

/-- Whether a condition is true. A number is odd if two does not divide it. -/
def truth? (σ : String → Int) : Condition → Option Bool
  | odd inner => (inner.value? σ).map fun v => !decide (2 ∣ v)
  | compare rel left right => (left.value? σ).bind fun a => (right.value? σ).map (rel.holds a)

/-- The expressions of a condition. -/
def operands : Condition → List Expr
  | odd inner => [inner]
  | compare _ left right => [left, right]

/-- The divisors in a condition. -/
def divisors (c : Condition) : List Expr := c.operands.flatMap Expr.divisors

theorem exists_truth {c : Condition} (h : ∀ e ∈ c.operands, e.WellFormed)
    (hd : ∀ d ∈ c.divisors, d.value? σ ≠ some 0) : ∃ holds, c.truth? σ = some holds := by
  have hv : ∀ e ∈ c.operands, ∃ v, e.value? σ = some v := fun e he =>
    Expr.exists_value (h e he) fun d hm => hd d (List.mem_flatMap.2 ⟨e, he, hm⟩)
  cases c with
  | odd inner =>
    obtain ⟨v, hv⟩ := hv inner List.mem_cons_self
    exact ⟨_, by rw [truth?, hv]; rfl⟩
  | compare rel left right =>
    obtain ⟨a, ha⟩ := hv left List.mem_cons_self
    obtain ⟨b, hb⟩ := hv right (List.mem_cons_of_mem _ List.mem_cons_self)
    exact ⟨_, by rw [truth?, ha, hb]; rfl⟩

end Condition

end

end PL0
