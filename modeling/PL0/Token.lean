/-
The words of PL/0 and their kinds. A token carries its kind, its text, the value of a number and the line
it stands on. Signs have two kinds each: the scanner reads every `+` and `-` as an operator between two
operands, and a leading sign is reclassified by `Token.toUnary?`.
-/

namespace PL0

/-- What a token is. -/
inductive TokenKind where
  | constKw | varKw | procedureKw | callKw | beginKw | endKw | ifKw | thenKw | whileKw | doKw | oddKw
  | ident | number
  | assign | write | lparen | rparen | multiply | divide | plus | minus
  | equal | hash | less | lessEqual | greater | greaterEqual
  | comma | dot | semicolon
  | unaryPlus | unaryMinus
  | eof
deriving DecidableEq, Repr

namespace TokenKind

/-- How a kind is named in a diagnostic. -/
def describe : TokenKind → String
  | constKw => "const" | varKw => "var" | procedureKw => "procedure" | callKw => "call"
  | beginKw => "begin" | endKw => "end" | ifKw => "if" | thenKw => "then" | whileKw => "while"
  | doKw => "do" | oddKw => "odd"
  | ident => "identifier" | number => "number"
  | assign => ":=" | write => "!" | lparen => "(" | rparen => ")" | multiply => "*" | divide => "/"
  | plus => "+" | minus => "-"
  | equal => "=" | hash => "#" | less => "<" | lessEqual => "<=" | greater => ">" | greaterEqual => ">="
  | comma => "," | dot => "." | semicolon => ";"
  | unaryPlus => "unary +" | unaryMinus => "unary -"
  | eof => "end of input"

/-- How a kind is named in a listing of tokens. -/
def label : TokenKind → String
  | constKw => "Const" | varKw => "Var" | procedureKw => "Procedure" | callKw => "Call"
  | beginKw => "Begin" | endKw => "End" | ifKw => "If" | thenKw => "Then" | whileKw => "While"
  | doKw => "Do" | oddKw => "Odd"
  | ident => "Ident" | number => "Number"
  | assign => "Assign" | write => "Write" | lparen => "LParen" | rparen => "RParen"
  | multiply => "Multiply" | divide => "Divide" | plus => "Plus" | minus => "Minus"
  | equal => "Equal" | hash => "Hash" | less => "LessThan" | lessEqual => "LessThanEqual"
  | greater => "GreaterThan" | greaterEqual => "GreaterThanEqual"
  | comma => "Comma" | dot => "Dot" | semicolon => "Semicolon"
  | unaryPlus => "UnaryPlus" | unaryMinus => "UnaryMinus"
  | eof => "Eof"

/-- The keywords of the language, each with its lower-case spelling. -/
def keywords : List (List Char × TokenKind) :=
  [("const".toList, constKw), ("var".toList, varKw), ("procedure".toList, procedureKw),
   ("call".toList, callKw), ("begin".toList, beginKw), ("end".toList, endKw), ("if".toList, ifKw),
   ("then".toList, thenKw), ("while".toList, whileKw), ("do".toList, doKw), ("odd".toList, oddKw)]

/-- The keyword that a word spells. Only the case of ASCII letters is disregarded. -/
def keyword? (word : List Char) : Option TokenKind := keywords.lookup (word.map Char.toLower)

/-- The kind of a word: its keyword, or an identifier. -/
def ofWord (word : List Char) : TokenKind := (keyword? word).getD ident

end TokenKind

/-- A word of a program. The scanner gives a value to numbers only. -/
structure Token where
  kind : TokenKind
  text : String
  value : Option Int64
  line : Nat
deriving DecidableEq, Repr

namespace Token

/-- A token other than a number. -/
def plain (kind : TokenKind) (text : String) (line : Nat) : Token := ⟨kind, text, none, line⟩

/-- The token that closes every scanned text. -/
def eof (line : Nat) : Token := plain .eof "" line

/-- The same sign read as a leading sign. -/
def toUnary? (t : Token) : Option Token :=
  match t.kind with
  | .plus => some { t with kind := .unaryPlus }
  | .minus => some { t with kind := .unaryMinus }
  | _ => none

/-- How a token is quoted in a diagnostic: the end of the input has no text and is named. -/
def lexeme (t : Token) : String := if t.kind = .eof then TokenKind.eof.describe else t.text

/-- How a token is shown in a listing. -/
def display (t : Token) : String :=
  match t.kind with
  | .ident => "Ident(" ++ t.text ++ ")"
  | .number => "Number(" ++ toString (t.value.getD 0) ++ ")"
  | k => k.label

end Token

end PL0
