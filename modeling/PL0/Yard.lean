/-
The shunting yard: the words of an expression come in one after another, operands go straight to a reverse
Polish row, operators and open parentheses wait until something of lower rank arrives. A step that fails
leaves the yard as far as the step got. Main statements: what each kind of word does to the yard
(`process_ident`, `process_number`, `process_lparen`, `process_rparen`, `process_operator`).
-/
import PL0.Fault
import PL0.Rpn

namespace PL0

/-- What waits in the yard. -/
inductive Waiting where
  | operator (op : Operator)
  | paren
deriving DecidableEq, Repr

/-- The state of an expression that is being read. The row is kept with its latest item first. -/
structure Yard where
  output : List RpnItem
  stack : List Waiting
  completed : Bool
  line : Nat
deriving DecidableEq, Repr

namespace Yard

/-- Before anything is read. -/
def initial : Yard := ⟨[], [], false, 0⟩

/-- The row so far, in order. -/
def rpn (y : Yard) : List RpnItem := y.output.reverse

/-- Adds an operand to the row. -/
def emit (y : Yard) (leaf : Operand) : Yard := { y with output := .operand leaf :: y.output }

/-- Moves waiting operators of at least the given rank to the row, up to the first parenthesis. -/
def release (rank : Nat) : List RpnItem → List Waiting → List RpnItem × List Waiting
  | output, .operator top :: stack =>
    if top.precedence < rank then (output, .operator top :: stack)
    else release rank (.operator top :: output) stack
  | output, stack => (output, stack)

/-- Lets an operator wait. A leading sign stands before its operand, so nothing is released for it. -/
def pushOperator (y : Yard) (op : Operator) : Yard :=
  if op.isUnary then { y with stack := .operator op :: y.stack }
  else
    let (output, stack) := release op.precedence y.output y.stack
    { y with output, stack := .operator op :: stack }

/-- Moves all waiting operators above the latest open parenthesis to the row. The parenthesis goes away;
`none` below means that there was none. -/
def unwind : List RpnItem → List Waiting → List RpnItem × Option (List Waiting)
  | output, .operator op :: stack => unwind (.operator op :: output) stack
  | output, .paren :: stack => (output, some stack)
  | output, [] => (output, none)

/-- Closes the latest open parenthesis. -/
def closeParen (y : Yard) : Except Fault Unit × Yard :=
  match unwind y.output y.stack with
  | (output, some stack) => (.ok (), { y with output, stack })
  | (output, none) => (.error (.unopened y.line), { y with output, stack := [] })

/-- Takes in one word of the expression. -/
def process (y : Yard) (t : Token) : Except Fault Unit × Yard :=
  let y := { y with line := t.line }
  match t.kind with
  | .ident => (.ok (), y.emit (.ident t.text))
  | .number =>
    match t.value with
    | some value => (.ok (), y.emit (.number value))
    | none => (.error (.valueless t.text t.line), y)
  | .lparen => (.ok (), { y with stack := .paren :: y.stack })
  | .rparen => y.closeParen
  | kind =>
    match Operator.ofKind? kind with
    | some op => (.ok (), y.pushOperator op)
    | none => (.error (.notAnOperator t.lexeme t.line), y)

/-- Moves all that still waits to the row. A parenthesis among it was never closed. -/
def complete (y : Yard) : Except Fault Unit × Yard :=
  match unwind y.output y.stack with
  | (output, none) => (.ok (), { y with output, stack := [], completed := true })
  | (output, some stack) => (.error (.unclosed y.line), { y with output, stack })

/-- The reason of the yard for a row that is no tree. -/
def treeFault (line : Nat) : RpnFault → Fault
  | .missingOperand op => .missingOperand op.label line
  | .empty => .emptyExpression line
  | .surplus count => .surplusOperands count line

/-- The tree of the row. It may be asked for as often as one likes, once the yard was completed. -/
def tree (y : Yard) : Except Fault Expr :=
  if y.completed then (RpnItem.tree? y.rpn).mapError (treeFault y.line) else .error (.incomplete y.line)

/-! ## One word -/

theorem process_ident {y : Yard} {t : Token} (h : t.kind = .ident) :
    y.process t = (.ok (), { y with line := t.line }.emit (.ident t.text)) := by
  simp [process, h]

theorem process_number {y : Yard} {t : Token} {value : Int64} (h : t.kind = .number)
    (hv : t.value = some value) :
    y.process t = (.ok (), { y with line := t.line }.emit (.number value)) := by
  simp [process, h, hv]

theorem process_lparen {y : Yard} {t : Token} (h : t.kind = .lparen) :
    y.process t = (.ok (), { y with line := t.line, stack := .paren :: y.stack }) := by
  simp [process, h]

theorem process_rparen {y : Yard} {t : Token} (h : t.kind = .rparen) :
    y.process t = { y with line := t.line }.closeParen := by
  simp [process, h]

theorem process_operator {y : Yard} {t : Token} {op : Operator} (h : Operator.ofKind? t.kind = some op) :
    y.process t = (.ok (), { y with line := t.line }.pushOperator op) := by
  cases hk : t.kind <;> simp_all [process, Operator.ofKind?]

/-! ## The tree -/

theorem kind_treeFault (line : Nat) (fault : RpnFault) : (treeFault line fault).kind = .unresolved := by
  cases fault <;> rfl

/-- Completes the yard and builds the tree. -/
def finish (y : Yard) : Except Fault Expr :=
  match y.complete with
  | (.ok (), y) => y.tree
  | (.error f, _) => .error f

end Yard

end PL0
