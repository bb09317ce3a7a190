/-
Expressions: operands joined by operators with one or two operands. A tree may hold an operator of the
wrong arity, because trees may also be built by hand; `Expr.WellFormed` says that none does. Every
operator has a rank, and one of a higher rank binds tighter.
-/
import PL0.Token

namespace PL0

/-- The operators of an expression. -/
inductive Operator where
  | unaryPlus | unaryMinus | plus | minus | multiply | divide
deriving DecidableEq, Repr

namespace Operator

/-- Whether the operator stands before one operand. -/
def isUnary : Operator → Bool
  | unaryPlus | unaryMinus => true
  | plus | minus | multiply | divide => false

/-- How many operands the operator takes. -/
def arity (op : Operator) : Nat := if op.isUnary then 1 else 2

/-- The rank of the operator. A leading sign covers the whole first term, so it ranks between sums and
products. -/
def precedence : Operator → Nat
  | plus | minus => 10
  | unaryPlus | unaryMinus => 15
  | multiply | divide => 20

/-- The operator as it is written between or before operands. -/
def symbol : Operator → String
  | unaryPlus | plus => "+"
  | unaryMinus | minus => "-"
  | multiply => "*"
  | divide => "/"

/-- The operator's name in an outline. -/
def label : Operator → String
  | unaryPlus => "UNARY_PLUS"
  | unaryMinus => "UNARY_MINUS"
  | plus => "PLUS"
  | minus => "MINUS"
  | multiply => "MULT"
  | divide => "DIV"

/-- The operator that a kind of token stands for. -/
def ofKind? : TokenKind → Option Operator
  | .unaryPlus => some unaryPlus
  | .unaryMinus => some unaryMinus
  | .plus => some plus
  | .minus => some minus
  | .multiply => some multiply
  | .divide => some divide
  | _ => none

end Operator

/-- The leaves of an expression. -/
inductive Operand where
  | number (value : Int64)
  | ident (name : String)
deriving DecidableEq, Repr

/-- An operand as it is written. -/
def Operand.display : Operand → String
  | number value => toString value
  | ident name => name

/-- An expression in which every operator has found its operands. -/
inductive Expr where
  | operand (leaf : Operand)
  | unary (op : Operator) (inner : Expr)
  | binary (op : Operator) (left right : Expr)
deriving DecidableEq, Repr

namespace Expr

/-- How many nodes an expression has. -/
def nodeCount : Expr → Nat
  | operand _ => 1
  | unary _ inner => 1 + inner.nodeCount
  | binary _ left right => 1 + left.nodeCount + right.nodeCount

/-- An expression with every operator's name before its operands, the leaves shown by `leaf`. -/
def displayWith (leaf : Operand → String) : Expr → String
  | operand o => leaf o
  | unary op inner => op.label ++ "(" ++ inner.displayWith leaf ++ ")"
  | binary op left right =>
    op.label ++ "(" ++ left.displayWith leaf ++ ", " ++ right.displayWith leaf ++ ")"

/-- An expression with every operator's name before its operands. -/
def display : Expr → String := displayWith Operand.display

/-- Every operator has as many operands as it takes. -/
def WellFormed : Expr → Prop
  | operand _ => True
  | unary op inner => op.isUnary = true ∧ inner.WellFormed
  | binary op left right => op.isUnary = false ∧ left.WellFormed ∧ right.WellFormed

end Expr

end PL0
