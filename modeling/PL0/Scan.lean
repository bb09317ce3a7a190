/-
Scanning: a text is cut into lexemes, and those that are not layout become tokens, closed by one token for
the end. A place counts lines from one and offsets in bytes of UTF-8 from zero. Scanning stops at the
leftmost place where no lexeme begins or where a number is too large. Main statement: the scan of a text by
its first lexeme (`scanFrom_of_first?`).
-/
import PL0.Fault
import PL0.Lexeme
import PL0.Text.Decimal

namespace PL0

/-- A place in a text: its line, and the bytes before it. -/
structure Place where
  line : Nat
  offset : Nat
deriving DecidableEq, Repr

namespace Place

/-- Where every text starts. -/
def start : Place := ⟨1, 0⟩

/-- The bytes of a text in UTF-8. -/
def bytes (text : List Char) : Nat := text.foldr (fun c n => c.utf8Size + n) 0

/-- The place after a piece of text. -/
def after (p : Place) (text : List Char) : Place := ⟨p.line + text.count '\n', p.offset + bytes text⟩

end Place

/-- The largest number that a literal may be. -/
def maxLiteral : Nat := 9223372036854775807

/-- The characters of a text that a diagnostic shows. -/
def snippetLength : Nat := 16

/-- Why no lexeme begins at a place. -/
def unreadableAt (p : Place) (rest : List Char) : Fault :=
  if rest.head? = some '{' then .unterminatedComment p.line
  else .unrecognized p.line p.offset (String.ofList (rest.take snippetLength))

/-- The token of a lexeme; layout has none, and a number has to be small enough. -/
def Lexeme.token? (lx : Lexeme) (line : Nat) : Except Fault (Option Token) :=
  let text := String.ofList lx.text
  match lx.form with
  | .blank | .comment => .ok none
  | .word => .ok (some (.plain (.ofWord lx.text) text line))
  | .symbol kind => .ok (some (.plain kind text line))
  | .number =>
    if Text.decimalValue lx.text ≤ maxLiteral then
      .ok (some ⟨.number, text, some (Int64.ofNat (Text.decimalValue lx.text)), line⟩)
    else .error (.numberTooLarge text line)

/-- The tokens of a text that stands at a place. -/
def scanFrom (p : Place) (cs : List Char) : Except Fault (List Token) :=
  if cs = [] then .ok [.eof p.line]
  else
    match h : Lexeme.first? cs with
    | none => .error (unreadableAt p cs)
    | some (lx, rest) =>
      have := Lexeme.first?_length_lt h
      do
        let token ← lx.token? p.line
        let tokens ← scanFrom (p.after lx.text) rest
        return token.toList ++ tokens
termination_by cs.length

/-- The tokens of a program's text. -/
def scan (source : String) : Except Fault (List Token) := scanFrom .start source.toList

theorem scanFrom_nil (p : Place) : scanFrom p [] = .ok [.eof p.line] := by
  rw [scanFrom]; simp

theorem scanFrom_of_first?_eq_none {p : Place} {cs : List Char} (hne : cs ≠ [])
    (h : Lexeme.first? cs = none) : scanFrom p cs = .error (unreadableAt p cs) := by
  rw [scanFrom]
  simp only [hne, if_false]
  split
  · rfl
  · rename_i h'; rw [h] at h'; simp at h'

/-- A text that begins with a lexeme scans to the token of that lexeme, if it is one, and the tokens of the
text after it. -/
theorem scanFrom_of_first? {p : Place} {cs : List Char} {lx : Lexeme} {rest : List Char}
    (h : Lexeme.first? cs = some (lx, rest)) :
    scanFrom p cs = do
      let token ← lx.token? p.line
      let tokens ← scanFrom (p.after lx.text) rest
      return token.toList ++ tokens := by
  have hne : cs ≠ [] := by rintro rfl; simp [Lexeme.first?] at h
  rw [scanFrom]
  simp only [hne, if_false]
  split
  · rename_i h'; rw [h] at h'; simp at h'
  · rename_i lx' rest' h'
    rw [h] at h'
    simp only [Option.some.injEq, Prod.mk.injEq] at h'
    obtain ⟨rfl, rfl⟩ := h'
    rfl

end PL0
