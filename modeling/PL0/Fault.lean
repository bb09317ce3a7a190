/-
Why a program is refused. A fault is a cause with what is needed to describe it; all wording is in this
module. Each reason that a stage can give has a name of its own (`Fault.missingOperand`,
`Fault.unclosedAt`, …), so that the stages speak of reasons and not of texts.
-/
import PL0.Text.Quoted

namespace PL0

/-- The cause for which a program, a file or a command is refused. -/
inductive Fault where
  /-- A file may not be read as a program. -/
  | unreadable (message : String)
  /-- The file system refused. -/
  | system (message : String)
  /-- No word begins at this place of the text. -/
  | unrecognized (line offset : Nat) (snippet : String)
  /-- A comment is opened on this line and never closed. -/
  | unterminatedComment (line : Nat)
  /-- A number is larger than any literal may be. -/
  | numberTooLarge (digits : String) (line : Nat)
  /-- Another word was required at this place. -/
  | unexpected (expected found : String) (line : Nat)
  /-- A phrase is malformed as a whole. -/
  | malformed (message : String) (line : Nat)
  /-- The words of an expression do not make up a tree. -/
  | unresolved (message : String) (line : Nat)
  /-- Parentheses do not match. -/
  | unbalanced (message : String) (line : Nat)
  /-- A tree holds an operator where it cannot stand. -/
  | inconsistent (message : String)
  /-- A stage of the command failed. -/
  | stage (name message : String)
deriving DecidableEq, Repr

namespace Fault

/-- The causes without their details. -/
inductive Kind where
  | unreadable | system | unrecognized | unterminatedComment | numberTooLarge | unexpected
  | malformed | unresolved | unbalanced | inconsistent | stage
deriving DecidableEq, Repr

/-- Which cause a fault has. -/
def kind : Fault → Kind
  | unreadable _ => .unreadable
  | system _ => .system
  | unrecognized .. => .unrecognized
  | unterminatedComment _ => .unterminatedComment
  | numberTooLarge .. => .numberTooLarge
  | unexpected .. => .unexpected
  | malformed .. => .malformed
  | unresolved .. => .unresolved
  | unbalanced .. => .unbalanced
  | inconsistent _ => .inconsistent
  | stage .. => .stage

/-- A fault in words. -/
def message : Fault → String
  | unreadable message => "File read error: " ++ message
  | system message => "I/O error: " ++ message
  | unrecognized line offset snippet =>
    "Lexer error at line " ++ toString line ++ ": unrecognized input at offset " ++ toString offset ++
      ": " ++ Text.quoted snippet
  | unterminatedComment line => "Unterminated comment at line " ++ toString line
  | numberTooLarge digits line => "Invalid number '" ++ digits ++ "' at line " ++ toString line
  | unexpected expected found line =>
    "Syntax error at line " ++ toString line ++ ": expected '" ++ expected ++ "', found '" ++ found ++ "'"
  | malformed message line => "Parse error at line " ++ toString line ++ ": " ++ message
  | unresolved message line => "Expression error at line " ++ toString line ++ ": " ++ message
  | unbalanced message line => "Mismatched parentheses at line " ++ toString line ++ ": " ++ message
  | inconsistent message => "Internal consistency error: " ++ message
  | stage name message => "Compilation error in " ++ name ++ ": " ++ message

/-! ## Reasons of the expression yard -/

/-- A number token came without a value. -/
def valueless (text : String) (line : Nat) : Fault :=
  unresolved ("number token '" ++ text ++ "' carries no value") line

/-- A token that is no part of an expression. -/
def notAnOperator (lexeme : String) (line : Nat) : Fault :=
  unresolved ("unrecognized operator '" ++ lexeme ++ "'") line

/-- The tree was asked for before the yard was completed. -/
def incomplete (line : Nat) : Fault := unresolved "expression resolver was not completed" line

/-- An operator found too few operands before it. -/
def missingOperand (operator : String) (line : Nat) : Fault :=
  unresolved ("missing operand for " ++ operator) line

/-- There was nothing to make a tree of. -/
def emptyExpression (line : Nat) : Fault := unresolved "empty expression" line

/-- Operands were left that no operator joins. -/
def surplusOperands (count : Nat) (line : Nat) : Fault :=
  unresolved (toString count ++ " operand(s) without an operator") line

/-- A closing parenthesis found no open one. -/
def unopened (line : Nat) : Fault := unbalanced "')' without a matching '('" line

/-- An open parenthesis was left when the expression ended. -/
def unclosed (line : Nat) : Fault := unbalanced "'(' is never closed" line

/-! ## Reasons of the grammar -/

/-- An open parenthesis was not closed before this word. -/
def unclosedAt (found : String) (line : Nat) : Fault :=
  unbalanced ("'(' is never closed, found '" ++ found ++ "'") line

/-- A condition has no relation between its two sides. -/
def notARelation (found : String) (line : Nat) : Fault :=
  malformed ("condition: invalid operator: '" ++ found ++ "'") line

/-! ## Reasons of the emission -/

/-- A node with one operand holds an operator of two. -/
def binaryInUnary (operator : String) : Fault :=
  inconsistent ("binary operator " ++ operator ++ " in a unary node")

/-- A node with two operands holds an operator of one. -/
def unaryInBinary (operator : String) : Fault :=
  inconsistent ("unary operator " ++ operator ++ " in a binary node")

/-! ## Reasons of the command -/

/-- The file's name does not say that it is a program. -/
def wrongExtension : Fault := unreadable "File must have a .pl0 extension"

/-- The input file is not there. -/
def noInput (path : String) : Fault := stage "file not found" ("Input file does not exist: " ++ path)

/-- The interpreter could not be started. -/
def notStarted (reason : String) : Fault := stage "run" ("Failed to invoke node: " ++ reason)

/-- The interpreter ended with a failure. -/
def exited (code : Nat) : Fault := stage "run" ("node exited with exit status: " ++ toString code)

end Fault

end PL0
