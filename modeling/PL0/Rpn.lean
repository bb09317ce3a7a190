/-
Reverse Polish rows: operands and operators in a row, every operator after its operands. A row is read from
the left with a stack of finished trees. Main statements: a row read in two parts is the second part read on
the stack of the first (`pushAll_append`), and the row of a well-formed tree is read back to that tree
(`tree?_postorder`).
-/
import PL0.Expr

namespace PL0

/-- One item of a row. -/
inductive RpnItem where
  | operand (leaf : Operand)
  | operator (op : Operator)
deriving DecidableEq, Repr

/-- Why a row is no tree. -/
inductive RpnFault where
  /-- The operator has too few trees before it. -/
  | missingOperand (op : Operator)
  /-- The row has no item. -/
  | empty
  /-- So many trees are left beside the last one. -/
  | surplus (count : Nat)
deriving DecidableEq, Repr

/-- The row of a tree: left operand, right operand, operator. -/
def Expr.postorder : Expr → List RpnItem
  | .operand leaf => [.operand leaf]
  | .unary op inner => inner.postorder ++ [.operator op]
  | .binary op left right => left.postorder ++ right.postorder ++ [.operator op]

/-- A row has one item for each node. -/
theorem Expr.length_postorder (e : Expr) : e.postorder.length = e.nodeCount := by
  induction e with
  | operand leaf => rfl
  | unary op inner ih => simp [postorder, nodeCount, ih]; omega
  | binary op left right ihl ihr => simp [postorder, nodeCount, ihl, ihr]; omega

namespace RpnItem

/-- Reads one item with the finished trees before it, the latest first. The right operand is the latest. -/
def push (trees : List Expr) : RpnItem → Except RpnFault (List Expr)
  | operand leaf => .ok (.operand leaf :: trees)
  | operator op =>
    if op.isUnary then
      match trees with
      | inner :: rest => .ok (.unary op inner :: rest)
      | [] => .error (.missingOperand op)
    else
      match trees with
      | right :: left :: rest => .ok (.binary op left right :: rest)
      | _ => .error (.missingOperand op)

/-- Reads a row from the left. -/
def pushAll (trees : List Expr) : List RpnItem → Except RpnFault (List Expr)
  | [] => .ok trees
  | item :: row => do
    let trees ← push trees item
    pushAll trees row

/-- The tree of a row: exactly one tree must be left. -/
def tree? (row : List RpnItem) : Except RpnFault Expr := do
  match ← pushAll [] row with
  | [] => .error .empty
  | [root] => .ok root
  | _ :: rest => .error (.surplus rest.length)

theorem push_operator_unary {op : Operator} (h : op.isUnary = true) (inner : Expr) (rest : List Expr) :
    push (inner :: rest) (.operator op) = .ok (.unary op inner :: rest) := by
  simp [push, h]

theorem push_operator_binary {op : Operator} (h : op.isUnary = false) (left right : Expr)
    (rest : List Expr) :
    push (right :: left :: rest) (.operator op) = .ok (.binary op left right :: rest) := by
  simp [push, h]

theorem pushAll_append (trees : List Expr) (row row' : List RpnItem) :
    pushAll trees (row ++ row') = (do let trees ← pushAll trees row; pushAll trees row') := by
  induction row generalizing trees with
  | nil => rfl
  | cons item row ih =>
    simp only [List.cons_append, pushAll]
    cases push trees item with
    | error f => rfl
    | ok trees' => exact ih trees'

/-- A well-formed tree's row leaves that tree on the stack. -/
theorem pushAll_postorder {e : Expr} (h : e.WellFormed) (trees : List Expr) :
    pushAll trees e.postorder = .ok (e :: trees) := by
  induction e generalizing trees with
  | operand leaf => rfl
  | unary op inner ih =>
    rw [Expr.postorder, pushAll_append, ih h.2]
    show pushAll (inner :: trees) [.operator op] = _
    rw [pushAll, push_operator_unary h.1]
    rfl
  | binary op left right ihl ihr =>
    rw [Expr.postorder, pushAll_append, pushAll_append, ihl h.2.1]
    show (do let trees ← pushAll (left :: trees) right.postorder; pushAll trees [.operator op]) = _
    rw [ihr h.2.2]
    show pushAll (right :: left :: trees) [.operator op] = _
    rw [pushAll, push_operator_binary h.1]
    rfl

theorem tree?_postorder {e : Expr} (h : e.WellFormed) : tree? e.postorder = .ok e := by
  rw [tree?, pushAll_postorder h]
  rfl

end RpnItem

end PL0
