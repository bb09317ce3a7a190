/-
Lexemes: the pieces that a text of PL/0 is cut into. A lexeme has one of five forms: a run of blanks, a
comment in braces, a word, a run of digits or a symbol. `Form.Fits` says which texts have a form;
`Lexeme.first?` reads the longest lexeme at the start of a text. Main statements: what is read is a
lexeme of its form, it is not empty, and with the text after it it makes up the whole.
-/
import PL0.Text.Blank
import PL0.Token

namespace PL0

/-- The five forms of a lexeme; a symbol is known by its kind. -/
inductive Form where
  | blank | comment | word | number
  | symbol (kind : TokenKind)
deriving DecidableEq, Repr

/-- A character that begins a word: an ASCII letter or the underscore. -/
def isWordStart (c : Char) : Bool := c.isAlpha || c = '_'

/-- A character that continues a word: an ASCII letter, an ASCII digit or the underscore. -/
def isWordPart (c : Char) : Bool := c.isAlphanum || c = '_'

/-- The symbols and their kinds. A symbol stands before its own beginnings, so that the first of the list
that begins a text is the longest. -/
def symbols : List (List Char × TokenKind) :=
  [([':', '='], .assign), (['<', '='], .lessEqual), (['>', '='], .greaterEqual), (['<', '>'], .hash),
   (['#'], .hash), (['<'], .less), (['>'], .greater), (['='], .equal), (['!'], .write), (['('], .lparen),
   ([')'], .rparen), (['*'], .multiply), (['/'], .divide), (['+'], .plus), (['-'], .minus),
   ([','], .comma), (['.'], .dot), ([';'], .semicolon)]

/-- The texts that have a form. -/
def Form.Fits : Form → List Char → Prop
  | .blank, t => t ≠ [] ∧ ∀ c ∈ t, Text.isBlank c = true
  | .comment, t => ∃ body, t = '{' :: body ++ ['}'] ∧ '}' ∉ body
  | .word, t => ∃ c cs, t = c :: cs ∧ isWordStart c = true ∧ ∀ d ∈ cs, isWordPart d = true
  | .number, t => t ≠ [] ∧ ∀ c ∈ t, c.isDigit = true
  | .symbol kind, t => (t, kind) ∈ symbols

theorem symbols_ne_nil : ∀ s ∈ symbols, s.1 ≠ [] := by decide

/-- No form has the empty text. -/
theorem Form.Fits.ne_nil {f : Form} {t : List Char} (h : f.Fits t) : t ≠ [] := by
  cases f with
  | blank => exact h.1
  | comment => obtain ⟨body, rfl, _⟩ := h; simp
  | word => obtain ⟨c, cs, rfl, _⟩ := h; simp
  | number => exact h.1
  | symbol kind => exact symbols_ne_nil _ h

/-- A piece of a text and its form. -/
structure Lexeme where
  form : Form
  text : List Char
deriving DecidableEq, Repr

namespace Lexeme

/-- The characters of the longest beginning that `p` holds of, as a lexeme, and the text after them. -/
def run (form : Form) (p : Char → Bool) (cs : List Char) : Lexeme × List Char :=
  (⟨form, cs.takeWhile p⟩, cs.dropWhile p)

/-- The comment whose opening brace stands before `cs`, and the text after it. -/
def comment? (cs : List Char) : Option (Lexeme × List Char) :=
  match cs.dropWhile (· ≠ '}') with
  | [] => none
  | close :: rest => some (⟨.comment, '{' :: cs.takeWhile (· ≠ '}') ++ [close]⟩, rest)

/-- The longest symbol at the start of a text, and the text after it. -/
def symbol? (cs : List Char) : Option (Lexeme × List Char) :=
  (symbols.find? (·.1.isPrefixOf cs)).map fun (text, kind) => (⟨.symbol kind, text⟩, cs.drop text.length)

/-- The longest lexeme at the start of a text, and the text after it. -/
def first? : List Char → Option (Lexeme × List Char)
  | [] => none
  | c :: cs =>
    if Text.isBlank c then some (run .blank Text.isBlank (c :: cs))
    else if c = '{' then comment? cs
    else if isWordStart c then some (run .word isWordPart (c :: cs))
    else if c.isDigit then some (run .number Char.isDigit (c :: cs))
    else symbol? (c :: cs)

/-! ## What is read -/

theorem isWordPart_of_isWordStart {c : Char} (h : isWordStart c = true) : isWordPart c = true := by
  simp only [isWordStart, isWordPart, Char.isAlphanum, Bool.or_eq_true] at h ⊢
  rcases h with h | h
  · exact .inl (.inl h)
  · exact .inr h

theorem run_append (form : Form) (p : Char → Bool) (cs : List Char) :
    (run form p cs).1.text ++ (run form p cs).2 = cs := List.takeWhile_append_dropWhile

theorem comment?_append {cs : List Char} {lx : Lexeme} {rest : List Char}
    (h : comment? cs = some (lx, rest)) : lx.text ++ rest = '{' :: cs := by
  unfold comment? at h
  split at h
  · simp at h
  · rename_i close rest' hd
    simp only [Option.some.injEq, Prod.mk.injEq] at h
    obtain ⟨rfl, rfl⟩ := h
    simp only [List.cons_append, List.append_assoc, List.nil_append, ← hd,
      List.takeWhile_append_dropWhile]

theorem symbol?_append {cs : List Char} {lx : Lexeme} {rest : List Char}
    (h : symbol? cs = some (lx, rest)) : lx.text ++ rest = cs ∧ (lx.form).Fits lx.text := by
  simp only [symbol?, Option.map_eq_some_iff] at h
  obtain ⟨⟨text, kind⟩, hf, he⟩ := h
  simp only [Prod.mk.injEq] at he
  obtain ⟨rfl, rfl⟩ := he
  have hp := List.find?_some hf
  simp only [List.isPrefixOf_iff_prefix] at hp
  refine ⟨?_, List.mem_of_find?_eq_some hf⟩
  obtain ⟨u, rfl⟩ := hp
  simp

/-- The lexeme and the text after it make up the whole. -/
theorem first?_append {cs : List Char} {lx : Lexeme} {rest : List Char}
    (h : first? cs = some (lx, rest)) : lx.text ++ rest = cs := by
  cases cs with
  | nil => simp [first?] at h
  | cons c cs =>
    simp only [first?] at h
    split at h
    · simp only [Option.some.injEq] at h
      have := run_append .blank Text.isBlank (c :: cs)
      rwa [h] at this
    · split at h
      · rename_i hc
        rw [comment?_append h, hc]
      · split at h
        · simp only [Option.some.injEq] at h
          have := run_append .word isWordPart (c :: cs)
          rwa [h] at this
        · split at h
          · simp only [Option.some.injEq] at h
            have := run_append .number Char.isDigit (c :: cs)
            rwa [h] at this
          · exact (symbol?_append h).1

theorem run_fits {p : Char → Bool} {c : Char} (form : Form) (hp : p c = true) (cs : List Char) :
    (run form p (c :: cs)).1.text ≠ [] ∧ ∀ d ∈ (run form p (c :: cs)).1.text, p d = true := by
  refine ⟨by simp [run, hp], fun d hd => ?_⟩
  have := List.all_takeWhile (l := c :: cs) (p := p)
  exact List.all_eq_true.1 this d hd

theorem comment?_fits {cs : List Char} {lx : Lexeme} {rest : List Char}
    (h : comment? cs = some (lx, rest)) : lx.form.Fits lx.text := by
  unfold comment? at h
  split at h
  · simp at h
  · rename_i close rest' hd
    simp only [Option.some.injEq, Prod.mk.injEq] at h
    obtain ⟨rfl, rfl⟩ := h
    have hclose : close = '}' := by
      have := List.head?_dropWhile_not (· ≠ '}') cs
      rw [hd] at this
      simpa using this
    refine ⟨cs.takeWhile (· ≠ '}'), by rw [hclose], fun hm => ?_⟩
    have := List.all_eq_true.1 (List.all_takeWhile (l := cs) (p := (· ≠ '}'))) _ hm
    simp at this

/-- What is read has the form that it is said to have. -/
theorem first?_fits {cs : List Char} {lx : Lexeme} {rest : List Char}
    (h : first? cs = some (lx, rest)) : lx.form.Fits lx.text := by
  cases cs with
  | nil => simp [first?] at h
  | cons c cs =>
    simp only [first?] at h
    split at h
    · rename_i hc
      simp only [Option.some.injEq] at h
      have := run_fits .blank hc cs
      rw [h] at this
      have hf : lx.form = .blank := by rw [← congrArg (·.1.form) h]; rfl
      rw [hf]
      exact this
    · split at h
      · exact comment?_fits h
      · split at h
        · rename_i hc
          simp only [Option.some.injEq, run, List.takeWhile_cons, isWordPart_of_isWordStart hc,
            if_true, Prod.mk.injEq] at h
          obtain ⟨rfl, rfl⟩ := h
          exact ⟨c, _, rfl, hc, fun d hd => List.all_eq_true.1 List.all_takeWhile d hd⟩
        · split at h
          · rename_i hc
            simp only [Option.some.injEq] at h
            have := run_fits .number hc cs
            rw [h] at this
            have hf : lx.form = .number := by rw [← congrArg (·.1.form) h]; rfl
            rw [hf]
            exact this
          · exact (symbol?_append h).2

/-- Reading a lexeme leaves a shorter text. -/
theorem first?_length_lt {cs : List Char} {lx : Lexeme} {rest : List Char}
    (h : first? cs = some (lx, rest)) : rest.length < cs.length := by
  have ha := first?_append h
  have hn := Form.Fits.ne_nil (first?_fits h)
  rw [← ha, List.length_append]
  have := List.length_pos_iff.2 hn
  omega

end Lexeme

end PL0
