/-
The pieces of a text. `Lexeme.Pieces` cuts a text into lexemes, each the longest where it stands, and
`Lexeme.Tokens` says which token each of them stands for and on which line, without saying how a text is
scanned. Main statement: a text scans to the tokens of its pieces and to nothing else
(`scan_eq_ok_iff_pieces`).
-/
import PL0.Proofs.Scan.Longest
import PL0.Proofs.Scan.Token

namespace PL0

namespace Lexeme

/-- The lexemes lie one after another at the front of the text, each the longest where it stands, and leave
the rest. -/
inductive Pieces : List Char → List Lexeme → List Char → Prop where
  | nil (rest : List Char) : Pieces rest [] rest
  | cons {lx : Lexeme} {others : List Lexeme} {text rest : List Char} (longest : lx.Longest (lx.text ++ text))
      (pieces : Pieces text others rest) : Pieces (lx.text ++ text) (lx :: others) rest

/-- The token that a lexeme on a line stands for. -/
inductive Denotes (line : Nat) : Lexeme → Token → Prop where
  | keyword {text : List Char} {kind : TokenKind} (mem : (text.map Char.toLower, kind) ∈ TokenKind.keywords) :
      Denotes line ⟨.word, text⟩ ⟨kind, String.ofList text, none, line⟩
  | ident {text : List Char} (not_mem : ∀ kind, (text.map Char.toLower, kind) ∉ TokenKind.keywords) :
      Denotes line ⟨.word, text⟩ ⟨.ident, String.ofList text, none, line⟩
  | number {text : List Char} {value : Int64} (value_eq : value.toInt = Text.decimalValue text) :
      Denotes line ⟨.number, text⟩ ⟨.number, String.ofList text, some value, line⟩
  | symbol (text : List Char) (kind : TokenKind) :
      Denotes line ⟨.symbol kind, text⟩ ⟨kind, String.ofList text, none, line⟩

/-- The tokens of lexemes that stand after a text: layout has none, every other lexeme has one on the line that
is reached there, and the end of the input closes them. -/
inductive Tokens : List Char → List Lexeme → List Token → Prop where
  | nil (before : List Char) : Tokens before [] [.eof (1 + before.count '\n')]
  | layout {before : List Char} {lx : Lexeme} {others : List Lexeme} {ts : List Token}
      (form : lx.form = .blank ∨ lx.form = .comment) (tokens : Tokens (before ++ lx.text) others ts) :
      Tokens before (lx :: others) ts
  | token {before : List Char} {lx : Lexeme} {others : List Lexeme} {t : Token} {ts : List Token}
      (denotes : lx.Denotes (1 + before.count '\n') t) (tokens : Tokens (before ++ lx.text) others ts) :
      Tokens before (lx :: others) (t :: ts)

/-! ## The token of one lexeme -/

theorem keyword?_eq_some_iff {word : List Char} {kind : TokenKind} :
    TokenKind.keyword? word = some kind ↔ (word.map Char.toLower, kind) ∈ TokenKind.keywords := by
  rw [TokenKind.keyword?]
  generalize word.map Char.toLower = lower
  constructor
  · intro h
    obtain ⟨before, after, hk, -⟩ := List.lookup_eq_some_iff.1 h
    rw [hk]
    simp
  · intro h
    have hall : ∀ entry ∈ TokenKind.keywords, TokenKind.keywords.lookup entry.1 = some entry.2 := by decide
    exact hall _ h

variable {lx : Lexeme} {line : Nat}

theorem token?_eq_none_iff : lx.token? line = .ok none ↔ lx.form = .blank ∨ lx.form = .comment := by
  obtain ⟨form, text⟩ := lx
  cases form with
  | number =>
    simp only [token?]
    split <;> simp
  | _ => simp [token?]

theorem toInt_eq_decimalValue_iff {digits : List Char} {value : Int64} :
    value.toInt = Text.decimalValue digits ↔
      Text.decimalValue digits ≤ maxLiteral ∧ Int64.ofNat (Text.decimalValue digits) = value := by
  constructor
  · intro h
    have hlt := value.toInt_lt
    refine ⟨by simp only [maxLiteral]; omega, ?_⟩
    rw [← Int64.ofInt_eq_ofNat, ← h, Int64.ofInt_toInt]
  · rintro ⟨hle, rfl⟩
    simp only [maxLiteral] at hle
    rw [Int64.toInt_ofNat_of_lt (by omega)]

theorem denotes_of_token? {t : Token} (h : lx.token? line = .ok (some t)) : lx.Denotes line t := by
  obtain ⟨form, text⟩ := lx
  cases form with
  | blank => cases h
  | comment => cases h
  | word =>
    cases h
    show Denotes line ⟨.word, text⟩ ⟨(TokenKind.keyword? text).getD .ident, String.ofList text, none, line⟩
    cases hk : TokenKind.keyword? text with
    | some kind => exact .keyword (keyword?_eq_some_iff.1 hk)
    | none =>
      refine .ident fun kind hm => ?_
      rw [keyword?_eq_some_iff.2 hm] at hk
      cases hk
  | number =>
    simp only [token?] at h
    split at h
    · rename_i hle
      cases h
      exact .number (toInt_eq_decimalValue_iff.2 ⟨hle, rfl⟩)
    · cases h
  | symbol kind =>
    cases h
    exact .symbol text kind

theorem Denotes.token? {t : Token} (h : lx.Denotes line t) : lx.token? line = .ok (some t) := by
  cases h with
  | @keyword text kind hm =>
    have hk : TokenKind.ofWord text = kind := by rw [TokenKind.ofWord, keyword?_eq_some_iff.2 hm]; rfl
    simp only [Lexeme.token?, Token.plain, hk]
  | @ident text hm =>
    have hk : TokenKind.keyword? text = none := by
      rw [Option.eq_none_iff_forall_ne_some]
      intro kind hs
      exact hm kind (keyword?_eq_some_iff.1 hs)
    simp only [Lexeme.token?, Token.plain, TokenKind.ofWord, hk, Option.getD_none]
  | number hv =>
    obtain ⟨hle, rfl⟩ := toInt_eq_decimalValue_iff.1 hv
    simp only [Lexeme.token?, if_pos hle]
  | symbol text kind => rfl

theorem Denotes.line_eq {t : Token} (h : lx.Denotes line t) : t.line = line := by cases h <;> rfl

/-- Exactly the numbers have a value. -/
theorem Denotes.value_ne_none_iff {t : Token} (hf : lx.form.Fits lx.text) (h : lx.Denotes line t) :
    t.value ≠ none ↔ t.kind = .number := by
  cases h with
  | @keyword text kind hm =>
    have hall : ∀ entry ∈ TokenKind.keywords, entry.2 ≠ .number := by decide
    simp [hall _ hm]
  | ident => simp
  | number => simp
  | symbol text kind =>
    have hall : ∀ entry ∈ symbols, entry.2 ≠ .number := by decide
    simp [hall _ hf]

end Lexeme

/-! ## The tokens of a text -/

open Lexeme

variable {p : Place} {cs before : List Char} {ts : List Token}

theorem line_after (hp : p.line = 1 + before.count '\n') (text : List Char) :
    (p.after text).line = 1 + (before ++ text).count '\n' := by
  rw [Place.after, hp, List.count_append, Nat.add_assoc]

/-- A scan follows the pieces of the text. By induction on the scan, from one lexeme to the next. -/
theorem exists_pieces_of_scanFrom (h : scanFrom p cs = .ok ts) (hp : p.line = 1 + before.count '\n') :
    ∃ lxs, Pieces cs lxs [] ∧ Tokens before lxs ts := by
  induction p, cs using scanFrom.induct generalizing before ts with
  | case1 p =>
    rw [scanFrom_nil] at h
    cases h
    rw [hp]
    exact ⟨[], .nil [], .nil before⟩
  | case2 p cs hne hf =>
    rw [scanFrom_of_first?_eq_none hne hf] at h
    cases h
  | case3 p cs hne lx rest hf _ ih =>
    obtain ⟨token, ts', ht, hs, rfl⟩ := (scanFrom_eq_ok_iff hf).1 h
    obtain ⟨lxs, hl, hts⟩ := ih hs (line_after hp lx.text)
    obtain ⟨rfl, hlong⟩ := first?_eq_some_iff.1 hf
    refine ⟨lx :: lxs, .cons hlong hl, ?_⟩
    cases token with
    | none => exact .layout (token?_eq_none_iff.1 ht) hts
    | some t => exact .token (hp ▸ denotes_of_token? ht) hts

/-- Pieces are scanned one after another. By induction on the pieces. -/
theorem scanFrom_of_pieces {lxs : List Lexeme} (hl : Pieces cs lxs []) (hts : Tokens before lxs ts)
    (hp : p.line = 1 + before.count '\n') : scanFrom p cs = .ok ts := by
  induction lxs generalizing p cs before ts with
  | nil =>
    cases hl
    cases hts
    rw [scanFrom_nil, hp]
  | cons lx lxs ih =>
    cases hl with
    | cons hlong hl =>
      have hf := first?_eq_some_iff.2 ⟨rfl, hlong⟩
      cases hts with
      | layout hform hts =>
        exact (scanFrom_eq_ok_iff hf).2
          ⟨none, _, token?_eq_none_iff.2 hform, ih hl hts (line_after hp lx.text), rfl⟩
      | token ht hts =>
        exact (scanFrom_eq_ok_iff hf).2
          ⟨some _, _, hp ▸ ht.token?, ih hl hts (line_after hp lx.text), rfl⟩

/-- Among the tokens of a text exactly the numbers have a value. -/
theorem value_ne_none_iff_of_scanFrom (h : scanFrom p cs = .ok ts) :
    ∀ t ∈ ts, t.value ≠ none ↔ t.kind = .number := by
  refine forall_mem_scanFrom ?_ ?_ h
  · intro line
    simp [Token.eof, Token.plain]
  · intro lx line t hf ht
    exact (denotes_of_token? ht).value_ne_none_iff hf

/-- No token stands on a line before the place where its text begins. -/
theorem line_le_of_scanFrom (h : scanFrom p cs = .ok ts) : ∀ t ∈ ts, p.line ≤ t.line := by
  induction p, cs using scanFrom.induct generalizing ts with
  | case1 p =>
    rw [scanFrom_nil] at h
    cases h
    simp [Token.eof, Token.plain]
  | case2 p cs hne hf =>
    rw [scanFrom_of_first?_eq_none hne hf] at h
    cases h
  | case3 p cs hne lx rest hf _ ih =>
    obtain ⟨token, ts', ht, hs, rfl⟩ := (scanFrom_eq_ok_iff hf).1 h
    intro t hm
    rcases List.mem_append.1 hm with hm | hm
    · rw [Option.mem_toList] at hm
      cases hm
      exact Nat.le_of_eq (denotes_of_token? ht).line_eq.symm
    · have hle : (p.after lx.text).line ≤ t.line := ih hs t hm
      simp only [Place.after] at hle
      omega

/-- **A text and its tokens.** A text scans to the tokens of its longest lexemes in their order, closed by the
end of the input, and to nothing else; among its tokens exactly the numbers have a value. -/
theorem scan_eq_ok_iff_pieces (source : String) (ts : List Token) :
    (scan source = .ok ts ↔ ∃ lxs, Pieces source.toList lxs [] ∧ Tokens [] lxs ts) ∧
      (scan source = .ok ts → ∀ t ∈ ts, t.value ≠ none ↔ t.kind = .number) := by
  refine ⟨⟨fun h => exists_pieces_of_scanFrom h rfl, ?_⟩, value_ne_none_iff_of_scanFrom⟩
  rintro ⟨lxs, hl, hts⟩
  exact scanFrom_of_pieces hl hts rfl

end PL0
