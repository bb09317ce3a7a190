/-
What the tokens of a scanned text are: an identifier is a name, and the value of a number is not negative.
A name and the digits of a number scan to their own tokens in front of any text that does not go on with
them. So the names of `IsName` are the identifiers of scanned texts and no others (`isName_iff`). Main statements:
`scan_proper`, `scanFrom_name` and `scanFrom_toString`.
-/
import PL0.Proofs.Scan.Front

namespace PL0

/-- A name: a word that is no keyword. -/
def IsName (name : String) : Prop :=
  Form.word.Fits name.toList ∧ TokenKind.ofWord name.toList = .ident

/-- What is known of a token that was scanned. -/
structure Token.Proper (t : Token) : Prop where
  isName : t.kind = .ident → IsName t.text
  value_nonneg : ∀ v, t.value = some v → 0 ≤ v

/-! ## Values of numbers -/

theorem decimalValue_toDigits (n : Nat) : Text.decimalValue (Nat.toDigits 10 n) = n :=
  Nat.ofDigitChars_ten_toDigits

theorem ofNat_nonneg {n : Nat} (h : n ≤ maxLiteral) : 0 ≤ Int64.ofNat n := by
  rw [Int64.le_iff_toInt_le, Int64.toInt_ofNat_of_lt (by simp only [maxLiteral] at h; omega)]
  simp

/-- A value that is not negative is that of a literal, and it is written as the literal is. -/
theorem exists_literal {v : Int64} (h : 0 ≤ v) :
    ∃ n : Nat, n ≤ maxLiteral ∧ Int64.ofNat n = v ∧ (toString v).toList = Nat.toDigits 10 n := by
  have hv : 0 ≤ v.toInt := by
    rw [Int64.le_iff_toInt_le] at h
    simpa using h
  obtain ⟨n, hn⟩ := Int.eq_ofNat_of_zero_le hv
  refine ⟨n, ?_, ?_, ?_⟩
  · have hlt := v.toInt_lt
    rw [hn] at hlt
    simp only [maxLiteral]
    omega
  · rw [← Int64.ofInt_eq_ofNat, ← hn, Int64.ofInt_toInt]
  · have hs : toString v = toString n := by
      show Int.repr v.toInt = _
      rw [hn]
      rfl
    rw [hs]
    exact Nat.toList_repr

/-- The digits of a literal have the form of a number. -/
theorem fits_toDigits (n : Nat) : Form.number.Fits (Nat.toDigits 10 n) :=
  ⟨Nat.toDigits_ne_nil, fun _ hc => Nat.isDigit_of_mem_toDigits (by decide) (by decide) hc⟩

/-! ## From tokens to texts -/

variable {p : Place} {cs rest : List Char}

theorem scanFrom_name {name : String} (h : IsName name) (hr : ∀ c ∈ rest.head?, isWordPart c = false) :
    scanFrom p (name.toList ++ rest) =
      (.plain .ident name p.line :: ·) <$> scanFrom (p.after name.toList) rest := by
  rw [scanFrom_word h.1 hr, h.2, String.ofList_toList]

theorem scanFrom_toString {v : Int64} (h : 0 ≤ v) (hr : ∀ c ∈ rest.head?, isWordPart c = false) :
    scanFrom p ((toString v).toList ++ rest) =
      (⟨.number, toString v, some v, p.line⟩ :: ·) <$> scanFrom (p.after (toString v).toList) rest := by
  obtain ⟨n, hn, hv, hs⟩ := exists_literal h
  have hd : ∀ c ∈ rest.head?, c.isDigit = false := by
    intro c hc
    have hw := hr c hc
    cases hcd : c.isDigit with
    | false => rfl
    | true => rw [isWordPart_of_isDigit hcd] at hw; cases hw
  have hscan := scanFrom_number (p := p) (fits_toDigits n) (by rwa [decimalValue_toDigits]) hd
  rwa [decimalValue_toDigits, hv, ← hs, String.ofList_toList] at hscan

/-! ## From texts to tokens -/

/-- A scan of a text that begins with a lexeme is the scan of the two parts. -/
theorem scanFrom_eq_ok_iff {lx : Lexeme} (hf : Lexeme.first? cs = some (lx, rest)) {ts : List Token} :
    scanFrom p cs = .ok ts ↔ ∃ token ts', lx.token? p.line = .ok token ∧
      scanFrom (p.after lx.text) rest = .ok ts' ∧ ts = token.toList ++ ts' := by
  rw [scanFrom_of_first? hf]
  cases lx.token? p.line with
  | error fault => exact ⟨nofun, nofun⟩
  | ok token =>
    cases scanFrom (p.after lx.text) rest with
    | error fault => exact ⟨nofun, nofun⟩
    | ok ts' =>
      constructor
      · intro h
        cases h
        exact ⟨token, ts', rfl, rfl, rfl⟩
      · rintro ⟨_, _, ht, hs, rfl⟩
        cases ht
        cases hs
        rfl

/-- A scan gives tokens of lexemes, and with them what holds of these, and last the end of the input. By induction
on the scan. -/
theorem exists_words_of_scanFrom {P : Token → Prop}
    (hlx : ∀ {lx : Lexeme} {line : Nat} {t : Token}, lx.form.Fits lx.text →
      lx.token? line = .ok (some t) → P t) {ts : List Token} (h : scanFrom p cs = .ok ts) :
    ∃ words line, ts = words ++ [.eof line] ∧ ∀ t ∈ words, P t := by
  induction p, cs using scanFrom.induct generalizing ts with
  | case1 p =>
    rw [scanFrom_nil] at h
    cases h
    exact ⟨[], p.line, rfl, List.forall_mem_nil P⟩
  | case2 p cs hne hf =>
    rw [scanFrom_of_first?_eq_none hne hf] at h
    cases h
  | case3 p cs hne lx rest hf _ ih =>
    obtain ⟨token, ts', ht, hs, rfl⟩ := (scanFrom_eq_ok_iff hf).1 h
    obtain ⟨words, line, rfl, hwords⟩ := ih hs
    refine ⟨token.toList ++ words, line, (List.append_assoc ..).symm, List.forall_mem_append.2 ⟨?_, hwords⟩⟩
    intro t hm
    rw [Option.mem_toList] at hm
    cases hm
    exact hlx (Lexeme.first?_fits hf) ht

/-- What holds of the token of every lexeme and of the end holds of every token. -/
theorem forall_mem_scanFrom {P : Token → Prop} (heof : ∀ line, P (.eof line))
    (hlx : ∀ {lx : Lexeme} {line : Nat} {t : Token}, lx.form.Fits lx.text →
      lx.token? line = .ok (some t) → P t) {ts : List Token} (h : scanFrom p cs = .ok ts) :
    ∀ t ∈ ts, P t := by
  obtain ⟨words, line, rfl, hwords⟩ := exists_words_of_scanFrom hlx h
  exact List.forall_mem_append.2 ⟨hwords, List.forall_mem_singleton.2 (heof line)⟩

theorem Lexeme.token?_proper {lx : Lexeme} {line : Nat} {t : Token} (hf : lx.form.Fits lx.text)
    (h : lx.token? line = .ok (some t)) : t.Proper := by
  obtain ⟨form, text⟩ := lx
  cases form with
  | blank => cases h
  | comment => cases h
  | word =>
    cases h
    refine ⟨fun hk => ⟨?_, ?_⟩, nofun⟩
    · rwa [Token.plain, String.toList_ofList]
    · rw [Token.plain, String.toList_ofList]
      exact hk
  | number =>
    simp only [Lexeme.token?] at h
    split at h
    · rename_i hv
      cases h
      refine ⟨nofun, fun v hv' => ?_⟩
      cases hv'
      exact ofNat_nonneg hv
    · cases h
  | symbol kind =>
    cases h
    refine ⟨fun hk => ?_, nofun⟩
    have hs : ∀ s ∈ symbols, s.2 ≠ .ident := by decide
    exact absurd hk (hs _ hf)

/-- Every token of a scanned text is proper. -/
theorem scan_proper {source : String} {ts : List Token} (h : scan source = .ok ts) : ∀ t ∈ ts, t.Proper :=
  forall_mem_scanFrom (fun _ => ⟨nofun, nofun⟩) Lexeme.token?_proper h

/-- The names are the texts of the identifiers that can be scanned. -/
theorem isName_iff {name : String} :
    IsName name ↔ ∃ source ts, scan source = .ok ts ∧ ∃ t ∈ ts, t.kind = .ident ∧ t.text = name := by
  constructor
  · intro h
    refine ⟨name, [.plain .ident name 1, .eof (Place.start.after name.toList).line], ?_,
      .plain .ident name 1, List.mem_cons_self, rfl, rfl⟩
    have hs : scanFrom .start (name.toList ++ []) = _ := scanFrom_name h (by simp)
    rwa [List.append_nil, scanFrom_nil] at hs
  · rintro ⟨source, ts, hs, t, ht, hk, rfl⟩
    exact (scan_proper hs t ht).isName hk

end PL0
