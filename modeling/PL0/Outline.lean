/-
Outlines: a program as a tree of lines, two blanks for each level, every name with the declaration that it
refers to. The walk carries the blocks around the place it has reached.
-/
import PL0.Scope
import PL0.Text.Layout

namespace PL0

open Text (Line)

/-- The blanks of one level of an outline. -/
def outlineWidth : Nat := 2

namespace Scope

/-- A name with what it refers to. -/
def annotate (s : Scope) (name : String) : String :=
  name ++ " <" ++ ((s.resolve? name).map Resolution.describe).getD "unresolved" ++ ">"

/-- An operand, a name with what it refers to. -/
def annotateOperand (s : Scope) : Operand → String
  | .ident name => s.annotate name
  | leaf => leaf.display

end Scope

/-- An expression with its names annotated. -/
def Expr.outline (s : Scope) (e : Expr) : String := e.displayWith s.annotateOperand

/-- The lines of a condition. -/
def Condition.outline (s : Scope) (depth : Nat) : Condition → List (Line String)
  | .odd inner => [⟨depth, "Odd " ++ inner.outline s⟩]
  | .compare rel left right =>
    [⟨depth, rel.label⟩, ⟨depth + 1, left.outline s⟩, ⟨depth + 1, right.outline s⟩]

namespace Statement

mutual

/-- The lines of a statement. -/
def outline (s : Scope) (depth : Nat) : Statement → List (Line String)
  | compound body => ⟨depth, "Compound"⟩ :: outlineAll s (depth + 1) body
  | assign name value => [⟨depth, "Assign " ++ s.annotate name⟩, ⟨depth + 1, value.outline s⟩]
  | call name => [⟨depth, "Call " ++ s.annotate name⟩]
  | write value => [⟨depth, "Write"⟩, ⟨depth + 1, value.outline s⟩]
  | ifThen cond body => ⟨depth, "IfThen"⟩ :: cond.outline s (depth + 1) ++ outline s (depth + 1) body
  | whileDo cond body => ⟨depth, "While"⟩ :: cond.outline s (depth + 1) ++ outline s (depth + 1) body

/-- The lines of statements one after another. -/
def outlineAll (s : Scope) (depth : Nat) : List Statement → List (Line String)
  | [] => []
  | first :: others => outline s depth first ++ outlineAll s depth others

end

end Statement

/-- The line of a declared symbol. -/
def Symbol.outline : Symbol → String
  | ⟨name, .constant value, _⟩ => "Const " ++ name ++ " = " ++ toString value
  | ⟨name, .variable, _⟩ => "Var " ++ name

mutual

/-- The lines of a block, which stands inside the `outer` blocks. -/
def Block.outline (outer : List Block) (depth : Nat) : Block → List (Line String)
  | b@⟨symbols, procedures, statement⟩ =>
    ⟨depth, "Block (level " ++ toString outer.length ++ ")"⟩ ::
      symbols.toList.map (fun s => ⟨depth + 1, s.outline⟩) ++
      Procedure.outlineAll (b :: outer) (depth + 1) procedures ++
      statement.outline ⟨b, outer⟩ (depth + 1)

/-- The lines of a procedure. -/
def Procedure.outline (outer : List Block) (depth : Nat) : Procedure → List (Line String)
  | ⟨name, block⟩ => ⟨depth, "Procedure " ++ name⟩ :: Block.outline outer (depth + 1) block

/-- The lines of procedures one after another. -/
def Procedure.outlineAll (outer : List Block) (depth : Nat) : List Procedure → List (Line String)
  | [] => []
  | first :: others => Procedure.outline outer depth first ++ Procedure.outlineAll outer depth others

end

namespace Program

/-- The lines of a program. -/
def outlineLines (p : Program) : List (Line String) := ⟨0, "Program"⟩ :: p.block.outline [] 1

/-- The outline of a program. -/
def outline (p : Program) : String := Line.renderAll outlineWidth p.outlineLines

end Program

end PL0
