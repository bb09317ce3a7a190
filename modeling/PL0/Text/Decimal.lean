/-
Decimal numbers and columns of text.
-/

namespace PL0.Text

/-- The value of a run of decimal digits. -/
def decimalValue (digits : List Char) : Nat :=
  digits.foldl (fun n c => 10 * n + (c.toNat - '0'.toNat)) 0

/-- A text with as many of the character before it as make up the width. -/
def padLeft (width : Nat) (c : Char) (s : String) : String :=
  String.ofList (List.leftpad width c s.toList)

/-- A number of thousandths with three decimals. -/
def thousandths (n : Nat) : String := toString (n / 1000) ++ "." ++ padLeft 3 '0' (toString (n % 1000))

/-- How many lines a text has; the last one need not be closed. -/
def lineCount (s : String) : Nat :=
  s.toList.count '\n' + (if s.toList.getLast? = none ∨ s.toList.getLast? = some '\n' then 0 else 1)

end PL0.Text
