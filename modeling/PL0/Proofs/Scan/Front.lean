/-
The lexeme at the front of a text. A lexeme is read first if the text after it does not go on with it, so
that a text can be scanned from one lexeme to the next. Main statements: `Lexeme.first?_of_fits`, and what it
says of words, numbers and symbols (`scanFrom_word`, `scanFrom_number`, `scanFrom_symbol`).
-/
import Mathlib
import PL0.Proofs.Front
import PL0.Scan

namespace PL0

/-! ## Classes of characters -/

theorem eq_underscore_iff {c : Char} : c = '_' ↔ c.toNat = 95 :=
  ⟨fun h => h ▸ rfl, fun h => Char.toNat_inj.1 (h.trans (by decide : (95 : Nat) = '_'.toNat))⟩

theorem isWordPart_iff {c : Char} :
    isWordPart c = true ↔ (65 ≤ c.toNat ∧ c.toNat ≤ 90) ∨ (97 ≤ c.toNat ∧ c.toNat ≤ 122) ∨
      (48 ≤ c.toNat ∧ c.toNat ≤ 57) ∨ c.toNat = 95 := by
  simp only [isWordPart, Char.isAlphanum, Char.isAlpha, Char.isUpper, Char.isLower, Char.isDigit,
    Bool.or_eq_true, Bool.and_eq_true, decide_eq_true_eq, ge_iff_le, eq_underscore_iff, UInt32.le_iff_toNat_le,
    Char.toNat, or_assoc]
  exact Iff.rfl

theorem isWordStart_iff {c : Char} :
    isWordStart c = true ↔ (65 ≤ c.toNat ∧ c.toNat ≤ 90) ∨ (97 ≤ c.toNat ∧ c.toNat ≤ 122) ∨ c.toNat = 95 := by
  simp only [isWordStart, Char.isAlpha, Char.isUpper, Char.isLower, Bool.or_eq_true, Bool.and_eq_true,
    decide_eq_true_eq, ge_iff_le, eq_underscore_iff, UInt32.le_iff_toNat_le, Char.toNat, or_assoc]
  exact Iff.rfl

theorem isDigit_iff {c : Char} : c.isDigit = true ↔ 48 ≤ c.toNat ∧ c.toNat ≤ 57 := by
  simp only [Char.isDigit, Bool.and_eq_true, decide_eq_true_eq, ge_iff_le, UInt32.le_iff_toNat_le, Char.toNat]
  exact Iff.rfl

theorem isWordPart_of_isDigit {c : Char} (h : c.isDigit = true) : isWordPart c = true := by
  rw [isDigit_iff] at h
  rw [isWordPart_iff]
  omega

theorem isWordStart_eq_false_of_isDigit {c : Char} (h : c.isDigit = true) : isWordStart c = false := by
  rw [isDigit_iff] at h
  rw [Bool.eq_false_iff, ne_eq, isWordStart_iff]
  omega

/-- No part of a word or of a number is blank. -/
theorem isBlank_eq_false_of_isWordPart {c : Char} (h : isWordPart c = true) : Text.isBlank c = false := by
  rw [isWordPart_iff] at h
  rw [Bool.eq_false_iff, ne_eq, Text.isBlank, Text.CodeRange.anyHas_iff]
  rintro ⟨r, hr, h₁, h₂⟩
  simp only [Text.blankRanges, List.mem_cons, List.not_mem_nil, or_false] at hr
  rcases hr with rfl | rfl | rfl | rfl | rfl | rfl | rfl | rfl | rfl | rfl <;> simp only at h₁ h₂ <;> omega

theorem ne_of_isWordPart {c d : Char} (h : isWordPart c = true) (hd : isWordPart d = false) : c ≠ d := by
  rintro rfl
  rw [h] at hd
  cases hd

namespace Lexeme

/-! ## The first lexeme -/

/-- Whether a lexeme with this form and this text goes on with the character. -/
def goesOn (lx : Lexeme) (c : Char) : Bool :=
  match lx.form with
  | .blank => Text.isBlank c
  | .comment => false
  | .word => isWordPart c
  | .number => c.isDigit
  | .symbol _ => symbols.any (·.1 == lx.text ++ [c])

theorem run_of_all {p : Char → Bool} {cs rest : List Char} (form : Form) (h : ∀ c ∈ cs, p c = true)
    (hr : ∀ c ∈ rest.head?, p c = false) : run form p (cs ++ rest) = (⟨form, cs⟩, rest) := by
  rw [run, takeWhile_append_of_front h hr, dropWhile_append_of_front h hr]

theorem comment?_of_not_mem {body : List Char} (h : '}' ∉ body) (rest : List Char) :
    comment? (body ++ '}' :: rest) = some (⟨.comment, '{' :: body ++ ['}']⟩, rest) := by
  have hb : ∀ c ∈ body, decide (c ≠ '}') = true := by
    intro c hc
    simp only [ne_eq, decide_eq_true_eq]
    exact fun he => h (he ▸ hc)
  have hc : ∀ c ∈ ('}' :: rest).head?, decide (c ≠ '}') = false := by simp
  rw [comment?, takeWhile_append_of_front hb hc, dropWhile_append_of_front hb hc]

/-- A symbol is read first if no longer symbol begins with it and with the character after it. -/
theorem first?_of_symbol {kind : TokenKind} {cs rest : List Char} (h : (cs, kind) ∈ symbols)
    (hr : ∀ c ∈ rest.head?, goesOn ⟨.symbol kind, cs⟩ c = false) :
    first? (cs ++ rest) = some (⟨.symbol kind, cs⟩, rest) := by
  simp only [symbols, List.mem_cons, Prod.mk.injEq, List.not_mem_nil, or_false] at h
  cases rest with
  | nil =>
    rcases h with h | h | h | h | h | h | h | h | h | h | h | h | h | h | h | h | h | h <;>
      obtain ⟨rfl, rfl⟩ := h <;> decide
  | cons c rest =>
    have hc := hr c rfl
    rcases h with h | h | h | h | h | h | h | h | h | h | h | h | h | h | h | h | h | h <;>
      obtain ⟨rfl, rfl⟩ := h <;>
      simp_all [goesOn, symbols, first?, symbol?, Text.isBlank, Text.CodeRange.anyHas, Text.blankRanges,
        Text.CodeRange.has, isWordStart, Char.isAlpha, Char.isUpper, Char.isLower, Char.isDigit]

/-- A lexeme is read first if the text after it does not go on with it. -/
theorem first?_of_fits {lx : Lexeme} {rest : List Char} (h : lx.form.Fits lx.text)
    (hr : ∀ c ∈ rest.head?, lx.goesOn c = false) : first? (lx.text ++ rest) = some (lx, rest) := by
  obtain ⟨form, text⟩ := lx
  cases form with
  | blank =>
    obtain ⟨hne, hall⟩ := h
    obtain ⟨c, cs, rfl⟩ := List.exists_cons_of_ne_nil hne
    have hc : Text.isBlank c = true := hall c List.mem_cons_self
    have hrun := run_of_all .blank hall hr
    simp only [List.cons_append] at hrun ⊢
    rw [first?, if_pos hc, hrun]
  | comment =>
    obtain ⟨body, rfl, hb⟩ := h
    have hc := comment?_of_not_mem hb rest
    simp only [List.cons_append, List.append_assoc, List.nil_append] at hc ⊢
    rw [first?, if_neg (by decide), if_pos rfl, hc]
  | word =>
    obtain ⟨c, cs, rfl, hc, hcs⟩ := h
    have hp := isWordPart_of_isWordStart hc
    have hrun := run_of_all .word (List.forall_mem_cons.2 ⟨hp, hcs⟩) hr
    simp only [List.cons_append] at hrun ⊢
    rw [first?, if_neg (by simp [isBlank_eq_false_of_isWordPart hp]),
      if_neg (ne_of_isWordPart hp (by decide)), if_pos hc, hrun]
  | number =>
    obtain ⟨hne, hall⟩ := h
    obtain ⟨c, cs, rfl⟩ := List.exists_cons_of_ne_nil hne
    have hc : c.isDigit = true := hall c List.mem_cons_self
    have hp := isWordPart_of_isDigit hc
    have hrun := run_of_all .number hall hr
    simp only [List.cons_append] at hrun ⊢
    rw [first?, if_neg (by simp [isBlank_eq_false_of_isWordPart hp]),
      if_neg (ne_of_isWordPart hp (by decide)), if_neg (by simp [isWordStart_eq_false_of_isDigit hc]),
      if_pos hc, hrun]
  | symbol kind => exact first?_of_symbol h hr

end Lexeme

/-! ## Scanning from a lexeme to the next -/

theorem Place.bytes_append (a b : List Char) : bytes (a ++ b) = bytes a + bytes b := by
  induction a with
  | nil => simp [bytes]
  | cons c a ih =>
    have hc : ∀ text, bytes (c :: text) = c.utf8Size + bytes text := fun _ => rfl
    rw [List.cons_append, hc, hc, ih, Nat.add_assoc]

theorem Place.after_append (p : Place) (a b : List Char) : p.after (a ++ b) = (p.after a).after b := by
  simp only [after, List.count_append, bytes_append, Nat.add_assoc]

variable {p : Place} {cs rest : List Char}

/-- Scanning a text that begins with a lexeme: its token comes first. -/
theorem scanFrom_of_fits (lx : Lexeme) {token : Option Token} (h : lx.form.Fits lx.text)
    (hr : ∀ c ∈ rest.head?, lx.goesOn c = false) (ht : lx.token? p.line = .ok token) :
    scanFrom p (lx.text ++ rest) = (token.toList ++ ·) <$> scanFrom (p.after lx.text) rest := by
  rw [scanFrom_of_first? (Lexeme.first?_of_fits h hr), ht]
  rfl

theorem scanFrom_word (h : Form.word.Fits cs) (hr : ∀ c ∈ rest.head?, isWordPart c = false) :
    scanFrom p (cs ++ rest) =
      (.plain (.ofWord cs) (String.ofList cs) p.line :: ·) <$> scanFrom (p.after cs) rest :=
  scanFrom_of_fits ⟨.word, cs⟩ h hr rfl

theorem scanFrom_number (h : Form.number.Fits cs) (hv : Text.decimalValue cs ≤ maxLiteral)
    (hr : ∀ c ∈ rest.head?, c.isDigit = false) :
    scanFrom p (cs ++ rest) =
      (⟨.number, String.ofList cs, some (.ofNat (Text.decimalValue cs)), p.line⟩ :: ·) <$>
        scanFrom (p.after cs) rest :=
  scanFrom_of_fits ⟨.number, cs⟩ h hr (if_pos hv)

theorem scanFrom_symbol {kind : TokenKind} (h : (cs, kind) ∈ symbols)
    (hr : ∀ c ∈ rest.head?, Lexeme.goesOn ⟨.symbol kind, cs⟩ c = false) :
    scanFrom p (cs ++ rest) =
      (.plain kind (String.ofList cs) p.line :: ·) <$> scanFrom (p.after cs) rest :=
  scanFrom_of_fits ⟨.symbol kind, cs⟩ h hr rfl

end PL0
