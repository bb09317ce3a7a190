/-
Programs: a block of declarations, procedures and one statement, with blocks inside procedures.
-/
import PL0.Declarations
import PL0.Expr

namespace PL0

/-- The relations of a condition. -/
inductive Relation where
  | eq | ne | lt | le | gt | ge
deriving DecidableEq, Repr

namespace Relation

/-- The relation's name in an outline. -/
def label : Relation → String
  | eq => "EQ"
  | ne => "NE"
  | lt => "LT"
  | le => "LE"
  | gt => "GT"
  | ge => "GE"

/-- The relation that a kind of token stands for. -/
def ofKind? : TokenKind → Option Relation
  | .equal => some eq
  | .hash => some ne
  | .less => some lt
  | .lessEqual => some le
  | .greater => some gt
  | .greaterEqual => some ge
  | _ => none

end Relation

/-- What an `if` or a `while` asks. -/
inductive Condition where
  | odd (inner : Expr)
  | compare (rel : Relation) (left right : Expr)
deriving DecidableEq, Repr

/-- What a block does. -/
inductive Statement where
  | compound (body : List Statement)
  | assign (name : String) (value : Expr)
  | call (name : String)
  | write (value : Expr)
  | ifThen (cond : Condition) (body : Statement)
  | whileDo (cond : Condition) (body : Statement)
deriving Repr

mutual

/-- Declarations, procedures and one statement. -/
structure Block where
  symbols : Declarations
  procedures : List Procedure
  statement : Statement

/-- A name that stands for a block. -/
structure Procedure where
  name : String
  block : Block

end

/-- A whole program. -/
structure Program where
  block : Block

/-! ## Counting nodes -/

/-- How many nodes a condition has. -/
def Condition.nodeCount : Condition → Nat
  | .odd inner => 1 + inner.nodeCount
  | .compare _ left right => 1 + left.nodeCount + right.nodeCount

namespace Statement

mutual

/-- How many nodes a statement has. -/
def nodeCount : Statement → Nat
  | compound body => 1 + nodeCountAll body
  | assign _ value => 1 + value.nodeCount
  | call _ => 1
  | write value => 1 + value.nodeCount
  | ifThen cond body | whileDo cond body => 1 + cond.nodeCount + nodeCount body

/-- How many nodes the statements of a list have together. -/
def nodeCountAll : List Statement → Nat
  | [] => 0
  | s :: ss => nodeCount s + nodeCountAll ss

end

end Statement

mutual

/-- How many nodes a block has; every declared name is one. -/
def Block.nodeCount : Block → Nat
  | ⟨symbols, procedures, statement⟩ =>
    1 + symbols.size + Procedure.nodeCountAll procedures + statement.nodeCount

/-- How many nodes a procedure has. -/
def Procedure.nodeCount : Procedure → Nat
  | ⟨_, block⟩ => 1 + Block.nodeCount block

/-- How many nodes the procedures of a list have together. -/
def Procedure.nodeCountAll : List Procedure → Nat
  | [] => 0
  | p :: ps => Procedure.nodeCount p + Procedure.nodeCountAll ps

end

/-- How many nodes a program has. -/
def Program.nodeCount (p : Program) : Nat := 1 + p.block.nodeCount

end PL0
