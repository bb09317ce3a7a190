/-
Texts one after another. Nothing but the place is carried through a scan, so a text that stands further on scans
to the same tokens or to the same fault, further on (`scanFrom_shift`); and layout between two texts keeps the
last lexeme of the first from going on into the second. Main statement: `scan_append_layout`.
-/
import PL0.Proofs.Scan.Longest
import PL0.Proofs.Scan.Pieces

namespace PL0

/-! ## Further on -/

/-- A place so many lines and bytes further on. -/
def Place.shift (lines bytes : Nat) (p : Place) : Place := ⟨p.line + lines, p.offset + bytes⟩

/-- The token, so many lines further on. -/
def Token.shift (lines : Nat) (t : Token) : Token := { t with line := t.line + lines }

/-- The fault of a scan, so many lines and bytes further on. -/
def Fault.shift (lines bytes : Nat) : Fault → Fault
  | unrecognized line offset snippet => unrecognized (line + lines) (offset + bytes) snippet
  | unterminatedComment line => unterminatedComment (line + lines)
  | numberTooLarge digits line => numberTooLarge digits (line + lines)
  | fault => fault

/-- The result of a scan, so many lines and bytes further on. -/
def shiftScan (lines bytes : Nat) : Except Fault (List Token) → Except Fault (List Token)
  | .ok ts => .ok (ts.map (Token.shift lines))
  | .error fault => .error (fault.shift lines bytes)

variable {lines bytes : Nat} {p : Place} {cs rest : List Char} {ts : List Token}

theorem Place.after_shift (text : List Char) :
    (p.shift lines bytes).after text = (p.after text).shift lines bytes := by
  simp only [after, shift, Place.mk.injEq]
  omega

theorem Lexeme.token?_add (lx : Lexeme) (line lines bytes : Nat) :
    lx.token? (line + lines) =
      ((lx.token? line).map (Option.map (Token.shift lines))).mapError (Fault.shift lines bytes) := by
  obtain ⟨form, text⟩ := lx
  cases form with
  | number =>
    simp only [token?]
    split <;> rfl
  | _ => rfl

theorem unreadableAt_shift (cs : List Char) :
    unreadableAt (p.shift lines bytes) cs = (unreadableAt p cs).shift lines bytes := by
  unfold unreadableAt
  split <;> rfl

/-- A text that stands further on gives the same, further on. -/
theorem scanFrom_shift : scanFrom (p.shift lines bytes) cs = shiftScan lines bytes (scanFrom p cs) := by
  induction p, cs using scanFrom.induct with
  | case1 p => rw [scanFrom_nil, scanFrom_nil]; rfl
  | case2 p cs hne hf =>
    rw [scanFrom_of_first?_eq_none hne hf, scanFrom_of_first?_eq_none hne hf, unreadableAt_shift]
    rfl
  | case3 p cs hne lx rest hf _ ih =>
    have hline : (p.shift lines bytes).line = p.line + lines := rfl
    rw [scanFrom_of_first? hf, scanFrom_of_first? hf, hline, lx.token?_add p.line lines bytes,
      Place.after_shift, ih]
    cases lx.token? p.line with
    | error fault => rfl
    | ok token =>
      cases scanFrom (p.after lx.text) rest with
      | error fault => rfl
      | ok ts => cases token <;> rfl

/-! ## Layout -/

/-- A run of blanks moves the place and does nothing else. -/
theorem scanFrom_blank (h : ∀ c ∈ cs, Text.isBlank c = true)
    (hr : ∀ c ∈ rest.head?, Text.isBlank c = false) : scanFrom p (cs ++ rest) = scanFrom (p.after cs) rest := by
  by_cases hne : cs = []
  · subst hne
    rfl
  · rw [scanFrom_of_fits ⟨.blank, cs⟩ ⟨hne, h⟩ hr rfl]
    exact id_map _

/-- Blanks at the end of one text and at the front of the next make up one run. -/
theorem scanFrom_blank_append (h : ∀ c ∈ cs, Text.isBlank c = true) (rest : List Char) :
    scanFrom p (cs ++ rest) = scanFrom (p.after cs) rest := by
  have hall : ∀ c ∈ rest.takeWhile Text.isBlank, Text.isBlank c = true := fun c hc => of_mem_takeWhile hc
  have hend : ∀ c ∈ (rest.dropWhile Text.isBlank).head?, Text.isBlank c = false :=
    fun c hc => of_mem_head?_dropWhile hc
  have hsplit : rest.takeWhile Text.isBlank ++ rest.dropWhile Text.isBlank = rest :=
    List.takeWhile_append_dropWhile
  calc scanFrom p (cs ++ rest)
      = scanFrom p ((cs ++ rest.takeWhile Text.isBlank) ++ rest.dropWhile Text.isBlank) := by
        rw [List.append_assoc, hsplit]
    _ = scanFrom ((p.after cs).after (rest.takeWhile Text.isBlank)) (rest.dropWhile Text.isBlank) := by
        rw [scanFrom_blank (List.forall_mem_append.2 ⟨h, hall⟩) hend, Place.after_append]
    _ = scanFrom (p.after cs) (rest.takeWhile Text.isBlank ++ rest.dropWhile Text.isBlank) :=
        (scanFrom_blank hall hend).symm
    _ = scanFrom (p.after cs) rest := by rw [hsplit]

theorem scanFrom_comment (h : Form.comment.Fits cs) (rest : List Char) :
    scanFrom p (cs ++ rest) = scanFrom (p.after cs) rest := by
  rw [scanFrom_of_fits ⟨.comment, cs⟩ h (fun _ _ => rfl) rfl]
  exact id_map _

/-- A lexeme without a token moves the place and does nothing else, whatever stands after it. -/
theorem scanFrom_of_token?_eq_none {lx : Lexeme} {line : Nat} (hf : lx.form.Fits lx.text)
    (h : lx.token? line = .ok none) (rest : List Char) :
    scanFrom p (lx.text ++ rest) = scanFrom (p.after lx.text) rest := by
  obtain ⟨form, text⟩ := lx
  rcases Lexeme.token?_eq_none_iff.1 h with hform | hform
  · obtain rfl : form = .blank := hform
    exact scanFrom_blank_append hf.2 rest
  · obtain rfl : form = .comment := hform
    exact scanFrom_comment hf rest

/-- A scan ends with the end of the input. -/
theorem exists_scanFrom_eq_append (h : scanFrom p cs = .ok ts) : ∃ words line, ts = words ++ [.eof line] := by
  obtain ⟨words, line, he, -⟩ := exists_words_of_scanFrom (P := fun _ => True) (fun _ _ => trivial) h
  exact ⟨words, line, he⟩

/-- The first lexeme of a text without words has no token, and what follows it has no words either. -/
theorem layout_of_first? {lx : Lexeme} {line : Nat} (hf : Lexeme.first? cs = some (lx, rest))
    (h : scanFrom p cs = .ok [.eof line]) :
    lx.token? p.line = .ok none ∧ scanFrom (p.after lx.text) rest = .ok [.eof line] := by
  obtain ⟨token, ts, ht, hs, he⟩ := (scanFrom_eq_ok_iff hf).1 h
  obtain ⟨words, line', rfl⟩ := exists_scanFrom_eq_append hs
  cases token with
  | none =>
    rw [Option.toList_none, List.nil_append] at he
    exact ⟨ht, he ▸ hs⟩
  | some t => simp at he

/-- A text without words moves the place and does nothing else. By induction on its lexemes. -/
theorem scanFrom_layout {line : Nat} (h : scanFrom p cs = .ok [.eof line]) (q : Place) (rest : List Char) :
    scanFrom q (cs ++ rest) = scanFrom (q.after cs) rest := by
  induction p, cs using scanFrom.induct generalizing q with
  | case1 p => rfl
  | case2 p cs hne hf =>
    rw [scanFrom_of_first?_eq_none hne hf] at h
    cases h
  | case3 p cs hne lx text hf _ ih =>
    obtain ⟨ht, hs⟩ := layout_of_first? hf h
    rw [← Lexeme.first?_append hf, List.append_assoc,
      scanFrom_of_token?_eq_none (Lexeme.first?_fits hf) ht, ih hs, Place.after_append]

/-! ## Two texts -/

/-- Whether a character can begin layout: a blank or the brace that opens a comment. -/
def BeginsLayout (c : Char) : Prop := Text.isBlank c = true ∨ c = '{'

theorem not_beginsLayout_of_isWordPart {c : Char} (h : isWordPart c = true) : ¬BeginsLayout c := by
  rintro (hc | rfl)
  · rw [isBlank_eq_false_of_isWordPart h] at hc
    cases hc
  · revert h
    decide

theorem not_beginsLayout_of_mem_symbols {s : List Char × TokenKind} (hs : s ∈ symbols) {c : Char}
    (hc : c ∈ s.1) : ¬BeginsLayout c := by
  have hall : ∀ s ∈ symbols, s.1.all (fun d => !Text.isBlank d && !(d == '{')) = true := by decide
  have hd := List.all_eq_true.1 (hall s hs) c hc
  rintro (hb | rfl)
  · simp [hb] at hd
  · simp at hd

theorem not_beginsLayout_of_symbol {text : List Char} {kind : TokenKind} {c : Char}
    (h : Lexeme.goesOn ⟨.symbol kind, text⟩ c = true) : ¬BeginsLayout c := by
  obtain ⟨s, hs, he⟩ := List.any_eq_true.1 h
  exact not_beginsLayout_of_mem_symbols hs (by rw [beq_iff_eq.1 he]; simp)

/-- No lexeme that has a token goes on with layout. -/
theorem goesOn_eq_false_of_beginsLayout {lx : Lexeme} {line : Nat} (h : lx.token? line ≠ .ok none) {c : Char}
    (hc : BeginsLayout c) : lx.goesOn c = false := by
  obtain ⟨form, text⟩ := lx
  rw [Bool.eq_false_iff]
  intro hg
  cases form with
  | blank => exact h rfl
  | comment => exact h rfl
  | word => exact not_beginsLayout_of_isWordPart hg hc
  | number => exact not_beginsLayout_of_isWordPart (isWordPart_of_isDigit hg) hc
  | symbol kind => exact not_beginsLayout_of_symbol hg hc

/-- The lexemes of a text stay as they are if layout stands after it. -/
theorem scanFrom_append (h : scanFrom p cs = .ok ts) (hr : ∀ c ∈ rest.head?, BeginsLayout c) :
    scanFrom p (cs ++ rest) = (ts.dropLast ++ ·) <$> scanFrom (p.after cs) rest := by
  induction p, cs using scanFrom.induct generalizing ts with
  | case1 p =>
    rw [scanFrom_nil] at h
    cases h
    exact (id_map _).symm
  | case2 p cs hne hf =>
    rw [scanFrom_of_first?_eq_none hne hf] at h
    cases h
  | case3 p cs hne lx text hf _ ih =>
    obtain ⟨token, ts', ht, hs, rfl⟩ := (scanFrom_eq_ok_iff hf).1 h
    obtain ⟨words, line, rfl⟩ := exists_scanFrom_eq_append hs
    obtain ⟨rfl, hlong⟩ := Lexeme.first?_eq_some_iff.1 hf
    rw [List.append_assoc, Place.after_append]
    cases token with
    | none => rw [scanFrom_of_token?_eq_none hlong.fits ht, ih hs]; rfl
    | some t =>
      have hgoes : ∀ c ∈ (text ++ rest).head?, lx.goesOn c = false := by
        intro c hc
        cases text with
        | nil => exact goesOn_eq_false_of_beginsLayout (by rw [ht]; simp) (hr c hc)
        | cons d text => exact hlong.goesOn_eq_false c hc
      rw [scanFrom_of_fits lx hlong.fits hgoes ht, ih hs, Option.toList_some, ← List.append_assoc,
        List.dropLast_concat, List.dropLast_concat]
      simp only [Functor.map_map, List.append_assoc]

/-- A text without words begins with layout. -/
theorem beginsLayout_of_scanFrom {line : Nat} (h : scanFrom p cs = .ok [.eof line]) :
    ∀ c ∈ cs.head?, BeginsLayout c := by
  intro c hc
  obtain ⟨text, rfl⟩ : ∃ text, cs = c :: text := List.head?_eq_some_iff.1 hc
  cases hf : Lexeme.first? (c :: text) with
  | none =>
    rw [scanFrom_of_first?_eq_none (List.cons_ne_nil c text) hf] at h
    cases h
  | some found =>
    obtain ⟨⟨form, piece⟩, rest⟩ := found
    obtain ⟨ht, -⟩ := layout_of_first? hf h
    have hfits := Lexeme.first?_fits hf
    have happ : piece ++ rest = c :: text := Lexeme.first?_append hf
    rcases Lexeme.token?_eq_none_iff.1 ht with hform | hform
    · obtain rfl : form = .blank := hform
      obtain ⟨d, ds, rfl⟩ := List.exists_cons_of_ne_nil hfits.1
      cases happ
      exact .inl (hfits.2 c List.mem_cons_self)
    · obtain rfl : form = .comment := hform
      obtain ⟨body, rfl, -⟩ := hfits
      cases happ
      exact .inr rfl

theorem bytes_toList (s : String) : Place.bytes s.toList = s.utf8ByteSize := by
  rw [← s.ofList_toList]
  generalize s.toList = cs
  rw [String.toList_ofList]
  induction cs with
  | nil => rfl
  | cons c cs ih =>
    rw [String.ofList_cons, String.utf8ByteSize_append, String.utf8ByteSize_singleton, ← ih]
    rfl

/-- **Texts one after another.** A text, layout and a second text scan to the words of the first, followed by
the tokens of the second further on; if the second cannot be scanned, the whole gives its fault, further on. -/
theorem scan_append_layout {a layout : String} {ts : List Token} (ha : scan a = .ok ts) (hne : layout ≠ "")
    {line : Nat} (hl : scan layout = .ok [.eof line]) (b : String) :
    scan (a ++ layout ++ b) =
      match scan b with
      | .ok us => .ok (ts.dropLast ++ us.map (Token.shift ((a ++ layout).toList.count '\n')))
      | .error fault =>
        .error (fault.shift ((a ++ layout).toList.count '\n') (a ++ layout).utf8ByteSize) := by
  have hbegins : ∀ c ∈ (layout.toList ++ b.toList).head?, BeginsLayout c := by
    obtain ⟨c, cs, hc⟩ := List.exists_cons_of_ne_nil fun h => hne (String.toList_eq_nil_iff.1 h)
    intro d hd
    refine beginsLayout_of_scanFrom hl d ?_
    rw [hc] at hd ⊢
    exact hd
  have hplace : (Place.start.after a.toList).after layout.toList =
      Place.start.shift ((a ++ layout).toList.count '\n') (a ++ layout).utf8ByteSize := by
    rw [← Place.after_append, ← String.toList_append, ← bytes_toList]
    rfl
  have happ : (a ++ layout ++ b).toList = a.toList ++ (layout.toList ++ b.toList) := by simp
  rw [scan, happ, scanFrom_append ha hbegins, scanFrom_layout hl, hplace, scanFrom_shift]
  show _ = match scanFrom .start b.toList with
    | .ok us => _
    | .error fault => _
  cases scanFrom .start b.toList with
  | ok us => rfl
  | error fault => rfl

/-- A comment keeps `<` and `=` apart, and moves the fault of the second text a line and eight bytes on. -/
theorem scan_append_layout_comment :
    scan "x <" = .ok [.plain .ident "x" 1, .plain .less "<" 1, .eof 1] ∧
      scan "\x7bé\x7d\n" = .ok [.eof 2] ∧ scan "=\n?" = .error (.unrecognized 2 2 "?") ∧
      scan ("x <" ++ "\x7bé\x7d\n" ++ "=\n?") = .error (.unrecognized 3 10 "?") := by
  have ha : scan "x <" = .ok [.plain .ident "x" 1, .plain .less "<" 1, .eof 1] := by cbv
  have hl : scan "\x7bé\x7d\n" = .ok [.eof 2] := by cbv
  have hb : scan "=\n?" = .error (.unrecognized 2 2 "?") := by cbv
  have h := scan_append_layout ha (by decide) hl "=\n?"
  rw [hb] at h
  exact ⟨ha, hl, hb, h.trans (by decide)⟩

end PL0
