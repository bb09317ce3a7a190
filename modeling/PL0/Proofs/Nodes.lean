/-
The nodes of a program in the order in which they are written: procedures before the statement of their block, a
condition before what depends on it, a node before its operands and the left operand before the right. A misfit is a
node that holds an operator of the wrong arity. Main statement: a list of nodes has one first misfit
(`first_misfit_inj`).
-/
import PL0.Fault
import PL0.Proofs.Front
import PL0.Proofs.Meaning

namespace PL0

namespace Expr

/-- What stands at one node of an expression. -/
inductive Node where
  | operand (leaf : Operand)
  | unary (op : Operator)
  | binary (op : Operator)
deriving DecidableEq

/-- The fault of a node that holds an operator of the wrong arity. -/
def Node.misfit? : Node → Option Fault
  | operand _ => none
  | unary op => if op.isUnary then none else some (.binaryInUnary op.label)
  | binary op => if op.isUnary then some (.unaryInBinary op.label) else none

def root : Expr → Node
  | operand leaf => .operand leaf
  | unary op _ => .unary op
  | binary op _ _ => .binary op

/-- The nodes of an expression, each before its operands and the left operand before the right. -/
def nodes : Expr → List Node
  | operand leaf => [.operand leaf]
  | unary op inner => .unary op :: inner.nodes
  | binary op left right => .binary op :: (left.nodes ++ right.nodes)

/-- The expression with another one in the place of its first misfit. -/
def refit? : Expr → Expr → Option Expr
  | operand _, _ => none
  | unary op inner, x => if op.isUnary then (inner.refit? x).map (unary op) else some x
  | binary op left right, x =>
    if op.isUnary then some x
    else ((left.refit? x).map (binary op · right)).or ((right.refit? x).map (binary op left))

end Expr

/-- The condition with an expression in the place of its first misfit. -/
def Condition.refit? : Condition → Expr → Option Condition
  | odd inner, x => (inner.refit? x).map odd
  | compare rel left right, x =>
    ((left.refit? x).map (compare rel · right)).or ((right.refit? x).map (compare rel left))

namespace Statement

mutual

/-- The expressions of a statement. A condition comes before what depends on it. -/
def exprs : Statement → List Expr
  | compound body => allExprs body
  | assign _ value | write value => [value]
  | call _ => []
  | ifThen cond body | whileDo cond body => cond.operands ++ exprs body

def allExprs : List Statement → List Expr
  | [] => []
  | s :: ss => exprs s ++ allExprs ss

end

mutual

/-- The statement with an expression in the place of its first misfit. -/
def refit? : Statement → Expr → Option Statement
  | compound body, x => (refitAll? body x).map compound
  | assign name value, x => (value.refit? x).map (assign name)
  | call _, _ => none
  | write value, x => (value.refit? x).map write
  | ifThen cond body, x => ((cond.refit? x).map (ifThen · body)).or ((refit? body x).map (ifThen cond))
  | whileDo cond body, x => ((cond.refit? x).map (whileDo · body)).or ((refit? body x).map (whileDo cond))

def refitAll? : List Statement → Expr → Option (List Statement)
  | [], _ => none
  | s :: ss, x => ((refit? s x).map (· :: ss)).or ((refitAll? ss x).map (s :: ·))

end

end Statement

mutual

/-- The expressions of a block. Its procedures come before its statement. -/
def Block.exprs : Block → List Expr
  | ⟨_, procedures, statement⟩ => Procedure.allExprs procedures ++ statement.exprs

def Procedure.exprs : Procedure → List Expr
  | ⟨_, block⟩ => Block.exprs block

def Procedure.allExprs : List Procedure → List Expr
  | [] => []
  | p :: ps => Procedure.exprs p ++ Procedure.allExprs ps

end

mutual

/-- The block with an expression in the place of its first misfit. -/
def Block.refit? : Block → Expr → Option Block
  | ⟨symbols, procedures, statement⟩, x =>
    ((Procedure.refitAll? procedures x).map (⟨symbols, ·, statement⟩)).or
      ((statement.refit? x).map (⟨symbols, procedures, ·⟩))

def Procedure.refit? : Procedure → Expr → Option Procedure
  | ⟨name, block⟩, x => (Block.refit? block x).map (⟨name, ·⟩)

def Procedure.refitAll? : List Procedure → Expr → Option (List Procedure)
  | [], _ => none
  | p :: ps, x => ((Procedure.refit? p x).map (· :: ps)).or ((Procedure.refitAll? ps x).map (p :: ·))

end

namespace Program

/-- The nodes of a program in the order in which they are written. -/
def nodes (p : Program) : List Expr.Node := p.block.exprs.flatMap Expr.nodes

/-- The program with an expression in the place of its first misfit. -/
def refit? (p : Program) (x : Expr) : Option Program := (p.block.refit? x).map (⟨·⟩)

end Program

/-! ## The first misfit -/

theorem Expr.Node.misfit?_eq_none_iff {n : Expr.Node} :
    n.misfit? = none ↔ (∀ op, n = .unary op → op.isUnary = true) ∧ ∀ op, n = .binary op → op.isUnary = false := by
  cases n <;> simp [misfit?]

theorem Expr.Node.kind_of_misfit? {n : Expr.Node} {fault : Fault} (h : n.misfit? = some fault) :
    fault.kind = .inconsistent := by
  cases n with
  | operand leaf => cases h
  | unary op | binary op =>
    rw [misfit?] at h
    split at h <;> cases h
    rfl

/-- A list of nodes has one first misfit. -/
theorem first_misfit_inj {before before' after after' : List Expr.Node} {node node' : Expr.Node}
    (hb : ∀ n ∈ before, n.misfit? = none) (hb' : ∀ n ∈ before', n.misfit? = none) (hn : node.misfit?.isSome = true)
    (hn' : node'.misfit?.isSome = true) (h : before ++ node :: after = before' ++ node' :: after') :
    before = before' ∧ node :: after = node' :: after' := by
  have hfit : ∀ {ns : List Expr.Node}, (∀ n ∈ ns, n.misfit? = none) → ∀ n ∈ ns, n.misfit?.isNone = true :=
    fun hns n hm => by rw [hns n hm]; rfl
  have hmis : ∀ {n : Expr.Node} {ns : List Expr.Node}, n.misfit?.isSome = true →
      ∀ m ∈ (n :: ns).head?, m.misfit?.isNone = false := by
    rintro n ns hsome _ ⟨⟩
    simpa using hsome
  exact append_inj_of_front (hfit hb) (hfit hb') (hmis hn) (hmis hn') h

end PL0
