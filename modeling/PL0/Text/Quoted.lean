/-
Quoted texts: a text between double quotes in which every character can be seen. The quote and the
backslash are escaped, the commonest controls have letters of their own, any other concealed character is
written as its code point.
-/
import PL0.Text.Concealed

namespace PL0.Text

/-- The lower-case hexadecimal digits of a code point, without padding. -/
def hexDigits (n : Nat) : List Char := Nat.toDigits 16 n

/-- A character as it is written between quotes. -/
def quotedChar (c : Char) : List Char :=
  if c = '"' then ['\\', '"']
  else if c = '\\' then ['\\', '\\']
  else if c = '\x00' then ['\\', '0']
  else if c = '\t' then ['\\', 't']
  else if c = '\n' then ['\\', 'n']
  else if c = '\r' then ['\\', 'r']
  else if isConcealed c then ['\\', 'u', '{'] ++ hexDigits c.toNat ++ ['}']
  else [c]

/-- The text between double quotes, every character of it visible. -/
def quoted (s : String) : String := String.ofList ('"' :: s.toList.flatMap quotedChar ++ ['"'])

end PL0.Text
