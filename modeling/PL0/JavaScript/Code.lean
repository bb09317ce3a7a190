/-
Programs as JavaScript. Every expression is written with all its parentheses. Statements are laid out in
lines: the body of an `if` or a `while` stands in braces on its line if it is a compound, and otherwise on
lines of its own, one level deeper. A node that holds an operator of the wrong arity has no text. Main
statement: a well-formed expression has no fault (`fault?_code`).
-/
import PL0.JavaScript.Fragment
import PL0.JavaScript.Naming
import PL0.Program

namespace PL0

open Text (Line)

namespace JavaScript

/-- How JavaScript is to be written. -/
structure Config where
  /-- The blanks of one level. -/
  indentWidth : Nat
  /-- The function that prints a value. -/
  printFunction : String
  /-- Whether quotients are cut to whole numbers. -/
  truncateDivision : Bool
deriving DecidableEq, Repr

/-- How JavaScript is written unless asked otherwise. -/
def Config.standard : Config := ⟨2, "console.log", false⟩

/-- The line before a program. -/
def prologue : String := ";(function () \x7b"

/-- The line after a program. -/
def epilogue : String := "\x7d());"

/-- A line of plain text. -/
def textLine (depth : Nat) (s : String) : Line Fragment := ⟨depth, [.text s]⟩

/-- A relation in JavaScript. -/
def relation : Relation → String
  | .eq => "==="
  | .ne => "!=="
  | .lt => "<"
  | .le => "<="
  | .gt => ">"
  | .ge => ">="

/-- A number in JavaScript. A negative one stands in parentheses. -/
def literal (value : Int64) : String :=
  if value < 0 then "(" ++ toString value ++ ")" else toString value

end JavaScript

open JavaScript

/-- An expression in JavaScript. -/
def Expr.code (config : Config) : Expr → Fragment
  | .operand (.number value) => [.text (literal value)]
  | .operand (.ident name) => [.text (rename name)]
  | .unary op inner =>
    if op.isUnary then .text ("(" ++ op.symbol) :: inner.code config ++ [.text ")"]
    else [.fault (.binaryInUnary op.label)]
  | .binary op left right =>
    if op.isUnary then [.fault (.unaryInBinary op.label)]
    else
      let whole := .text "(" :: left.code config ++ .text op.symbol :: right.code config ++ [.text ")"]
      if config.truncateDivision ∧ op = .divide then .text "Math.trunc(" :: whole ++ [.text ")"]
      else whole

/-- A well-formed expression can be written. -/
theorem Expr.fault?_code (config : Config) {e : Expr} (h : e.WellFormed) :
    (e.code config).fault? = none := by
  induction e with
  | operand leaf => cases leaf <;> rfl
  | unary op inner ih => simp [code, h.1, Fragment.fault?, Fragment.fault?_append, ih h.2]
  | binary op left right ihl ihr =>
    simp only [code, h.1, Bool.false_eq_true, if_false]
    split <;> simp [Fragment.fault?, Fragment.fault?_append, ihl h.2.1, ihr h.2.2]

/-- A condition in JavaScript. -/
def Condition.code (config : Config) : Condition → Fragment
  | .odd inner => .text "((" :: inner.code config ++ [.text " % 2) === 1)"]
  | .compare rel left right =>
    .text "(" :: left.code config ++ .text (" " ++ relation rel ++ " ") :: right.code config ++
      [.text ")"]

namespace Statement

/-- What stands before the body of an `if` or a `while`. -/
def head (config : Config) (keyword : String) (cond : Condition) : Fragment :=
  .text (keyword ++ " (") :: cond.code config ++ [.text ")"]

mutual

/-- A statement in JavaScript. -/
def code (config : Config) (depth : Nat) : Statement → List (Line Fragment)
  | compound body =>
    textLine depth "\x7b" :: codeAll config (depth + 1) body ++ [textLine depth "\x7d"]
  | assign name value =>
    [⟨depth, .text (rename name ++ " = ") :: value.code config ++ [.text ";"]⟩]
  | call name => [textLine depth (rename name ++ "();")]
  | write value =>
    [⟨depth, .text (config.printFunction ++ "(") :: value.code config ++ [.text ");"]⟩]
  | ifThen cond (compound body) =>
    ⟨depth, head config "if" cond ++ [.text " \x7b"]⟩ :: codeAll config (depth + 1) body ++
      [textLine depth "\x7d"]
  | ifThen cond body => ⟨depth, head config "if" cond⟩ :: code config (depth + 1) body
  | whileDo cond (compound body) =>
    ⟨depth, head config "while" cond ++ [.text " \x7b"]⟩ :: codeAll config (depth + 1) body ++
      [textLine depth "\x7d"]
  | whileDo cond body => ⟨depth, head config "while" cond⟩ :: code config (depth + 1) body

/-- Statements in JavaScript, one after another. -/
def codeAll (config : Config) (depth : Nat) : List Statement → List (Line Fragment)
  | [] => []
  | first :: others => code config depth first ++ codeAll config depth others

end

end Statement

/-- The declaration of a symbol in JavaScript. -/
def Symbol.code : Symbol → String
  | ⟨name, .constant value, _⟩ => "const " ++ rename name ++ " = " ++ toString value ++ ";"
  | ⟨name, .variable, _⟩ => "let " ++ rename name ++ ";"

mutual

/-- A block in JavaScript: its symbols, its procedures and its statement. -/
def Block.code (config : Config) (depth : Nat) : Block → List (Line Fragment)
  | ⟨symbols, procedures, statement⟩ =>
    symbols.toList.map (fun s => textLine depth s.code) ++
      Procedure.codeAll config depth procedures ++ statement.code config depth

/-- A procedure in JavaScript. -/
def Procedure.code (config : Config) (depth : Nat) : Procedure → List (Line Fragment)
  | ⟨name, block⟩ =>
    textLine depth ("function " ++ rename name ++ "() \x7b") :: Block.code config (depth + 1) block ++
      [textLine depth "\x7d"]

/-- Procedures in JavaScript, one after another. -/
def Procedure.codeAll (config : Config) (depth : Nat) : List Procedure → List (Line Fragment)
  | [] => []
  | first :: others => Procedure.code config depth first ++ Procedure.codeAll config depth others

end

/-- A program in JavaScript. The lines around it stand at the margin, whatever the depth. -/
def Program.code (config : Config) (depth : Nat) (p : Program) : List (Line Fragment) :=
  textLine 0 prologue :: p.block.code config (depth + 1) ++ [textLine 0 epilogue]

end PL0
