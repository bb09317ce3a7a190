/-
The grammar of PL/0, one parser for each rule:

    program    = block "." ;
    block      = [ "const" ident "=" number { "," ident "=" number } ";" ]
                 [ "var" ident { "," ident } ";" ]
                 { "procedure" ident ";" block ";" } statement ;
    statement  = ident ":=" expression
               | "call" ident
               | "!" expression
               | "begin" statement { ";" statement } "end"
               | "if" condition "then" statement
               | "while" condition "do" statement ;
    condition  = "odd" expression | expression comparator expression ;
    expression = [ "+" | "-" ] term { ( "+" | "-" ) term } ;
    term       = factor { ( "*" | "/" ) factor } ;
    factor     = ident | number | "(" expression ")" ;
    comparator = "=" | "#" | "<" | "<=" | ">" | ">=" ;

The rules of an expression hand its words to a yard, which builds the tree. Every rule that can call itself
takes a bound on the depth of its recursion; `Grammar.Bound` shows how large it has to be.
-/
import PL0.Parser
import PL0.Program
import PL0.Yard

namespace PL0.Grammar

open PL0.Parser

/-! ## Expressions -/

/-- Hands a word to the yard. -/
def feed (y : Yard) (t : Token) : Parser Yard :=
  match y.process t with
  | (.ok (), y) => pure y
  | (.error fault, _) => fail fault

/-- Hands a leading sign to the yard, if one is at the front. -/
def leadingSign (y : Yard) : Parser Yard := do
  match (← peek).toUnary? with
  | some sign => do
    let _ ← advance
    feed y sign
  | none => return y

mutual

/-- The rule `expression`. -/
def expression : Nat → Yard → Parser Yard
  | 0, _ => exhausted
  | n + 1, y => do
    let y ← leadingSign y
    let y ← term n y
    moreTerms n y

/-- The terms of a sum after the first, each with the sign before it. -/
def moreTerms : Nat → Yard → Parser Yard
  | 0, _ => exhausted
  | n + 1, y => do
    match (← peek).kind with
    | .plus | .minus => do
      let y ← feed y (← advance)
      let y ← term n y
      moreTerms n y
    | _ => return y

/-- The rule `term`. -/
def term : Nat → Yard → Parser Yard
  | 0, _ => exhausted
  | n + 1, y => do
    let y ← factor n y
    moreFactors n y

/-- The factors of a product after the first, each with the operator before it. -/
def moreFactors : Nat → Yard → Parser Yard
  | 0, _ => exhausted
  | n + 1, y => do
    match (← peek).kind with
    | .multiply | .divide => do
      let y ← feed y (← advance)
      let y ← factor n y
      moreFactors n y
    | _ => return y

/-- The rule `factor`. -/
def factor : Nat → Yard → Parser Yard
  | 0, _ => exhausted
  | n + 1, y => do
    match (← peek).kind with
    | .ident | .number => feed y (← advance)
    | .lparen => do
      let y ← feed y (← advance)
      let y ← expression n y
      match ← accept? .rparen with
      | some close => feed y close
      | none => refuse .unclosedAt
    | _ => unexpected "factor"

end

/-- An expression inside a program, with its tree. -/
def tree (n : Nat) : Parser Expr := do
  let y ← expression n .initial
  ofExcept y.finish

/-- An expression that stands alone. One closing parenthesis too many is handed to the yard, which
refuses it. -/
def loneTree (n : Nat) : Parser Expr := do
  let y ← expression n .initial
  let y ← match ← accept? .rparen with
    | some close => feed y close
    | none => pure y
  let _ ← expect .eof
  ofExcept y.finish

/-! ## Conditions and statements -/

/-- The rule `condition`. -/
def condition (n : Nat) : Parser Condition := do
  match ← accept? .oddKw with
  | some _ => return .odd (← tree n)
  | none => do
    let left ← tree n
    match Relation.ofKind? (← peek).kind with
    | some rel => do
      let _ ← advance
      let right ← tree n
      return .compare rel left right
    | none => refuse .notARelation

mutual

/-- The rule `statement`. -/
def statement : Nat → Parser Statement
  | 0 => exhausted
  | n + 1 => do
    match (← peek).kind with
    | .ident => do
      let name ← advance
      let _ ← expect .assign
      let value ← tree n
      return .assign name.text value
    | .callKw => do
      let _ ← advance
      let name ← expect .ident
      return .call name.text
    | .write => do
      let _ ← advance
      let value ← tree n
      return .write value
    | .beginKw => do
      let _ ← advance
      let first ← statement n
      let others ← moreStatements n
      let _ ← expect .endKw
      return .compound (first :: others)
    | .ifKw => do
      let _ ← advance
      let cond ← condition n
      let _ ← expect .thenKw
      let body ← statement n
      return .ifThen cond body
    | .whileKw => do
      let _ ← advance
      let cond ← condition n
      let _ ← expect .doKw
      let body ← statement n
      return .whileDo cond body
    | _ => unexpected "statement"

/-- The statements of a compound after the first, each with the semicolon before it. -/
def moreStatements : Nat → Parser (List Statement)
  | 0 => exhausted
  | n + 1 => do
    match ← accept? .semicolon with
    | some _ => do
      let first ← statement n
      let others ← moreStatements n
      return first :: others
    | none => return []

end

/-! ## Blocks -/

/-- A number that has its value. -/
def literal : Parser Int64 := do
  let t ← expect .number
  match t.value with
  | some value => return value
  | none => fail (.unexpected TokenKind.number.describe t.text t.line)

/-- The constants of a block after the word `const`. -/
def constantList : Nat → Declarations → Parser Declarations
  | 0, _ => exhausted
  | n + 1, d => do
    let name ← expect .ident
    let _ ← expect .equal
    let value ← literal
    let d := d.insert ⟨name.text, .constant value, name.line⟩
    match ← accept? .comma with
    | some _ => constantList n d
    | none => do
      let _ ← expect .semicolon
      return d

/-- The variables of a block after the word `var`. -/
def variableList : Nat → Declarations → Parser Declarations
  | 0, _ => exhausted
  | n + 1, d => do
    let name ← expect .ident
    let d := d.insert ⟨name.text, .variable, name.line⟩
    match ← accept? .comma with
    | some _ => variableList n d
    | none => do
      let _ ← expect .semicolon
      return d

/-- Declarations that follow a keyword, if it is there. -/
def optionalPart (keyword : TokenKind) (list : Declarations → Parser Declarations) (d : Declarations) :
    Parser Declarations := do
  match ← accept? keyword with
  | some _ => list d
  | none => return d

/-- The constants and variables of a block. -/
def declarations (n : Nat) : Parser Declarations := do
  let d ← optionalPart .constKw (constantList n) .empty
  optionalPart .varKw (variableList n) d

mutual

/-- The rule `block`. -/
def block : Nat → Parser Block
  | 0 => exhausted
  | n + 1 => do
    let symbols ← declarations n
    let procedures ← procedures n
    let statement ← statement n
    return ⟨symbols, procedures, statement⟩

/-- The procedures of a block. -/
def procedures : Nat → Parser (List Procedure)
  | 0 => exhausted
  | n + 1 => do
    match ← accept? .procedureKw with
    | some _ => do
      let name ← expect .ident
      let _ ← expect .semicolon
      let body ← block n
      let _ ← expect .semicolon
      let others ← procedures n
      return ⟨name.text, body⟩ :: others
    | none => return []

end

/-- The rule `program`. Nothing may follow it. -/
def program (n : Nat) : Parser Program := do
  let b ← block n
  let _ ← expect .dot
  let _ ← expect .eof
  return ⟨b⟩

end PL0.Grammar
