/-
Places among the words of a text. From a place one reads a program or an expression; the place reached is
kept also when reading fails, and reading may go on from there. Main statement: `bound` is large enough for
both, so that no third way of ending is left.
-/
import PL0.Grammar.Bound

namespace PL0

/-- A place among words: those ahead of it, and the line to name at their end. -/
structure Cursor where
  ahead : List Token
  endLine : Nat
deriving DecidableEq, Repr

/-- The result of an outcome that is settled, and the words that it leaves. -/
def Outcome.settle {α : Type} : (o : Outcome α) → o ≠ .exhausted → Except Fault α × List Token
  | .done a rest, _ => (.ok a, rest)
  | .failed fault rest, _ => (.error fault, rest)
  | .exhausted, h => absurd rfl h

namespace Cursor

/-- The place before all of the words. The line of the last word stands for the end; without words it
is line one. -/
def ofTokens (ts : List Token) : Cursor := ⟨ts, (ts.getLast?.map (·.line)).getD 1⟩

/-- A bound on the recursion of the grammar. -/
def bound (c : Cursor) : Nat := 3 * c.ahead.length + 4

theorem program_ne_exhausted (c : Cursor) :
    (Grammar.program c.bound).run c.endLine c.ahead ≠ .exhausted :=
  (Grammar.leaves_program (Nat.le_refl _)).ne_exhausted

theorem loneTree_ne_exhausted (c : Cursor) :
    (Grammar.loneTree c.bound).run c.endLine c.ahead ≠ .exhausted :=
  (Grammar.leaves_loneTree (Nat.le_succ _)).ne_exhausted

/-- Reads a whole program. -/
def readProgram (c : Cursor) : Except Fault Program × Cursor :=
  let (result, rest) := Outcome.settle _ c.program_ne_exhausted
  (result, { c with ahead := rest })

/-- Reads an expression that stands alone. -/
def readExpression (c : Cursor) : Except Fault Expr × Cursor :=
  let (result, rest) := Outcome.settle _ c.loneTree_ne_exhausted
  (result, { c with ahead := rest })

end Cursor

/-- The program that the words make up. -/
def parseProgram (ts : List Token) : Except Fault Program := (Cursor.ofTokens ts).readProgram.1

/-- The expression that the words make up. -/
def parseExpression (ts : List Token) : Except Fault Expr := (Cursor.ofTokens ts).readExpression.1

end PL0
