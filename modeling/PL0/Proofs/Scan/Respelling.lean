/-
The texts of tokens. The text of a token alone is a lexeme that stands for this token, on whatever line, and it goes
on with no blank; so texts of tokens that are set one after another, with a blank between them, are scanned to the
same tokens again, all of them on the first line. Main statement: `scan_respelled`.
-/
import PL0.Proofs.Scan.Append

namespace PL0

/-- The same token on another line. -/
def Token.onLine (line : Nat) (t : Token) : Token := { t with line := line }

/-- The text of the token is a lexeme that stands for it on every line. -/
def Token.Spelled (t : Token) : Prop :=
  ∃ lx : Lexeme, lx.form.Fits lx.text ∧ lx.text = t.text.toList ∧
    ∀ line, lx.token? line = .ok (some (t.onLine line))

variable {p : Place} {cs rest : List Char} {ts : List Token}

/-! ## The text of one token -/

theorem Lexeme.Denotes.onLine {lx : Lexeme} {line : Nat} {t : Token} (h : lx.Denotes line t) (line' : Nat) :
    lx.Denotes line' (t.onLine line') := by
  cases h with
  | keyword hm => exact .keyword hm
  | ident hm => exact .ident hm
  | number hv => exact .number hv
  | symbol text kind => exact .symbol text kind

theorem Lexeme.Denotes.text_eq {lx : Lexeme} {line : Nat} {t : Token} (h : lx.Denotes line t) :
    t.text = String.ofList lx.text := by cases h <;> rfl

theorem Token.spelled_of_token? {lx : Lexeme} {line : Nat} {t : Token} (hf : lx.form.Fits lx.text)
    (h : lx.token? line = .ok (some t)) : t.Spelled := by
  have hd := Lexeme.denotes_of_token? h
  refine ⟨lx, hf, ?_, fun line' => (hd.onLine line').token?⟩
  rw [hd.text_eq, String.toList_ofList]

/-- No layout begins within a lexeme that has a token. -/
theorem Lexeme.not_beginsLayout_of_mem {lx : Lexeme} {line : Nat} (hf : lx.form.Fits lx.text)
    (h : lx.token? line ≠ .ok none) : ∀ c ∈ lx.text, ¬BeginsLayout c := by
  obtain ⟨form, text⟩ := lx
  intro c hc
  cases form with
  | blank => exact absurd rfl h
  | comment => exact absurd rfl h
  | word =>
    obtain ⟨d, ds, rfl, hd, hds⟩ := hf
    have hparts : ∀ e ∈ d :: ds, isWordPart e = true :=
      List.forall_mem_cons.2 ⟨isWordPart_of_isWordStart hd, hds⟩
    exact not_beginsLayout_of_isWordPart (hparts c hc)
  | number => exact not_beginsLayout_of_isWordPart (isWordPart_of_isDigit (hf.2 c hc))
  | symbol kind => exact not_beginsLayout_of_mem_symbols hf hc

/-- The text of a token is scanned to this token if it ends or a blank follows, and no line ends in it. -/
theorem Token.Spelled.scanFrom_append {t : Token} (h : t.Spelled) (hr : ∀ c ∈ rest.head?, c = ' ') :
    ∃ q : Place, q.line = p.line ∧
      scanFrom p (t.text.toList ++ rest) = (t.onLine p.line :: ·) <$> scanFrom q rest := by
  obtain ⟨lx, hf, htext, ht⟩ := h
  have hlayout : lx.token? p.line ≠ .ok none := by
    rw [ht]
    simp
  have hgoes : ∀ c ∈ rest.head?, lx.goesOn c = false := by
    intro c hc
    refine goesOn_eq_false_of_beginsLayout hlayout (.inl ?_)
    rw [hr c hc]
    decide
  have hlines : lx.text.count '\n' = 0 :=
    List.count_eq_zero.2 fun hm => Lexeme.not_beginsLayout_of_mem hf hlayout '\n' hm (.inl (by decide))
  refine ⟨p.after lx.text, by simp only [Place.after, hlines, Nat.add_zero], ?_⟩
  rw [← htext, scanFrom_of_fits lx hf hgoes (ht p.line)]
  rfl

/-! ## The texts of many tokens -/

theorem scanFrom_space (rest : List Char) : scanFrom p ([' '] ++ rest) = scanFrom (p.after [' ']) rest :=
  scanFrom_blank_append (List.forall_mem_singleton.2 (by decide)) rest

theorem scanFrom_end (hr : rest = [] ∨ rest = [' ']) : scanFrom p rest = .ok [.eof p.line] := by
  rcases hr with rfl | rfl
  · exact scanFrom_nil p
  · rw [← List.append_nil [' '], scanFrom_space, scanFrom_nil]
    rfl

/-- Texts of tokens with a blank between one and the next are scanned to these tokens. By induction on the tokens. -/
theorem scanFrom_intercalate {words : List Token} (hwords : ∀ t ∈ words, t.Spelled)
    (hr : rest = [] ∨ rest = [' ']) :
    scanFrom p ([' '].intercalate (words.map (·.text.toList)) ++ rest) =
      .ok (words.map (Token.onLine p.line) ++ [.eof p.line]) := by
  induction words generalizing p with
  | nil => exact scanFrom_end hr
  | cons t words ih =>
    obtain ⟨ht, hwords⟩ := List.forall_mem_cons.1 hwords
    -- what stands behind the first text gives the other tokens
    obtain ⟨tail, hsplit, hhead, htail⟩ : ∃ tail : List Char,
        [' '].intercalate ((t :: words).map (·.text.toList)) ++ rest = t.text.toList ++ tail ∧
          (∀ c ∈ tail.head?, c = ' ') ∧
          ∀ q : Place, scanFrom q tail = .ok (words.map (Token.onLine q.line) ++ [.eof q.line]) := by
      cases words with
      | nil => exact ⟨rest, by simp, by rcases hr with rfl | rfl <;> simp, fun q => scanFrom_end hr⟩
      | cons u words =>
        refine ⟨[' '] ++ ([' '].intercalate ((u :: words).map (·.text.toList)) ++ rest), ?_, ?_, ?_⟩
        · rw [List.map_cons, List.map_cons, List.intercalate_cons_cons, List.append_assoc, List.append_assoc]
        · intro c hc
          cases hc
          rfl
        · intro q
          rw [scanFrom_space]
          exact ih hwords
    obtain ⟨q, hq, hscan⟩ := ht.scanFrom_append hhead
    rw [hsplit, hscan, htail q, hq]
    rfl

/-- The texts of the tokens before the end of the input are scanned to all the tokens, on the first line. -/
theorem scan_intercalate {words : List Token} (hwords : ∀ t ∈ words, t.Spelled) (line : Nat) {last : String}
    (hlast : last = "" ∨ last = " ") :
    scan (" ".intercalate (words.map (·.text)) ++ last) =
      .ok ((words ++ [Token.eof line]).map (Token.onLine 1)) := by
  have hr : last.toList = [] ∨ last.toList = [' '] := by
    rcases hlast with rfl | rfl
    · exact .inl rfl
    · exact .inr rfl
  rw [scan, String.toList_append, String.toList_intercalate, List.map_map, List.map_append]
  exact scanFrom_intercalate hwords hr

/-- **Only the texts of tokens count.** A text that can be scanned, without its layout and with a blank between one
token and the next, is scanned to the same tokens, all of them on the first line, whether or not a blank stands
before the end of the input, which has no text. -/
theorem scan_respelled {source : String} (h : scan source = .ok ts) :
    scan (" ".intercalate (ts.map (·.text))) = .ok (ts.map (Token.onLine 1)) ∧
      scan (" ".intercalate (ts.dropLast.map (·.text))) = .ok (ts.map (Token.onLine 1)) := by
  obtain ⟨words, line, rfl, hwords⟩ := exists_words_of_scanFrom Token.spelled_of_token? h
  constructor
  · rw [List.map_append]
    cases words with
    | nil => exact scanFrom_nil .start
    | cons t words =>
      have hend : " ".intercalate ([Token.eof line].map (·.text)) = "" := String.intercalate_singleton
      rw [String.intercalate_append_of_ne_nil (by simp) (by simp), hend, String.append_empty]
      exact scan_intercalate hwords line (.inr rfl)
  · rw [List.dropLast_concat, ← String.append_empty (s := String.intercalate _ _)]
    exact scan_intercalate hwords line (.inl rfl)

/-- A keyword, a symbol of two characters and leading zeros stay as they are, and a blank stands where a comment or
nothing kept them apart. -/
theorem scan_respelled_comment :
    scan "IF\x7b\n\x7dx<>007" = .ok [.plain .ifKw "IF" 1, .plain .ident "x" 2, .plain .hash "<>" 2,
        ⟨.number, "007", some 7, 2⟩, .eof 2] ∧
      scan "IF x <> 007 " = .ok [.plain .ifKw "IF" 1, .plain .ident "x" 1, .plain .hash "<>" 1,
        ⟨.number, "007", some 7, 1⟩, .eof 1] ∧
      scan "IF x <> 007" = .ok [.plain .ifKw "IF" 1, .plain .ident "x" 1, .plain .hash "<>" 1,
        ⟨.number, "007", some 7, 1⟩, .eof 1] := by
  have h : scan "IF\x7b\n\x7dx<>007" = .ok [.plain .ifKw "IF" 1, .plain .ident "x" 2, .plain .hash "<>" 2,
      ⟨.number, "007", some 7, 2⟩, .eof 2] := by cbv
  exact ⟨h, scan_respelled h⟩

end PL0
