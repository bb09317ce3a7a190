/-
The text of an expression in JavaScript, character by character. An expression begins with the word of its
first operand, with `Math` or with a parenthesis, and no two kinds of expressions begin alike. So the text of
an expression, with a text after it that goes on no word, is that of no other expression, and the text of a
condition is that of no other condition. Main statements: `Expr.chars_append_inj` and
`Condition.chars_append_inj`.
-/
import PL0.Proofs.Front
import PL0.Proofs.Meaning
import PL0.Proofs.Plain

namespace PL0

open JavaScript

/-! ## Words in JavaScript -/

/-- A character of a name in JavaScript or of a number. -/
def isNamePart (c : Char) : Bool := isWordPart c || c = '$'

/-- The text goes on neither a name nor a number. -/
def Apart (rest : List Char) : Prop := ∀ c ∈ rest.head?, isNamePart c = false

theorem apart_nil : Apart [] := by simp [Apart]

theorem apart_cons {c : Char} (h : isNamePart c = false) (rest : List Char) : Apart (c :: rest) := by
  intro d hd
  cases hd
  exact h

theorem Apart.isWordPart {rest : List Char} (h : Apart rest) : ∀ c ∈ rest.head?, isWordPart c = false := by
  intro c hc
  have hn := h c hc
  rw [isNamePart, Bool.or_eq_false_iff] at hn
  exact hn.1

/-- The word at the front of a text. -/
def wordOf (cs : List Char) : List Char := cs.takeWhile isNamePart

theorem wordOf_append (cs : List Char) {rest : List Char} (h : ∀ c ∈ cs, isNamePart c = true)
    (hr : Apart rest) : wordOf (cs ++ rest) = cs := takeWhile_append_of_front h hr

theorem wordOf_of_apart {rest : List Char} (hr : Apart rest) : wordOf rest = [] :=
  wordOf_append [] (by simp) hr

theorem isWordPart_of_isName {name : String} (h : IsName name) : ∀ c ∈ name.toList, isWordPart c = true := by
  obtain ⟨⟨c, cs, hn, hc, hcs⟩, -⟩ := h
  rw [hn]
  exact List.forall_mem_cons.2 ⟨Lexeme.isWordPart_of_isWordStart hc, hcs⟩

theorem dollar_not_mem {name : String} (h : IsName name) : '$' ∉ name.toList := fun hm =>
  absurd (isWordPart_of_isName h _ hm) (by decide)

theorem rename_inj {name name' : String} (h : IsName name) (h' : IsName name') (he : rename name = rename name') :
    name = name' := rename_injective (dollar_not_mem h) (dollar_not_mem h') he

theorem isNamePart_rename {name : String} (h : IsName name) : ∀ c ∈ (rename name).toList, isNamePart c = true := by
  have hw : ∀ c ∈ name.toList, isNamePart c = true := by
    intro c hc
    simp [isNamePart, isWordPart_of_isName h c hc]
  rw [toList_rename]
  split
  · exact List.forall_mem_cons.2 ⟨by decide, hw⟩
  · exact hw

theorem isNamePart_of_mem_reservedWords {word : String} (h : word ∈ reservedWords) :
    ∀ c ∈ word.toList, isNamePart c = true := by
  have hall : (reservedWords.all fun word => word.toList.all isNamePart) = true := by decide
  exact List.all_eq_true.1 (List.all_eq_true.1 hall word h)

/-- No name is renamed to a reserved one. -/
theorem rename_not_mem_reservedWords (name : String) : rename name ∉ reservedWords := by
  intro hm
  by_cases h : name ∈ reservedWords
  · have hd : ∀ word ∈ reservedWords, word.toList.head? ≠ some '$' := by decide
    refine hd _ hm ?_
    rw [toList_rename, if_pos h, List.head?_cons]
  · rw [rename, if_neg h] at hm
    exact h hm

theorem rename_ne {name word : String} (h : word ∈ reservedWords) : (rename name).toList ≠ word.toList := by
  intro he
  rw [← String.toList_injective he] at h
  exact rename_not_mem_reservedWords name h

theorem isDigit_toString {v : Int64} (h : 0 ≤ v) : ∀ c ∈ (toString v).toList, c.isDigit = true := by
  obtain ⟨n, -, -, hs⟩ := exists_literal h
  rw [hs]
  exact (fits_toDigits n).2

theorem toString_ne_nil {v : Int64} (h : 0 ≤ v) : (toString v).toList ≠ [] := by
  obtain ⟨n, -, -, hs⟩ := exists_literal h
  rw [hs]
  exact Nat.toDigits_ne_nil

theorem isNamePart_toString {v : Int64} (h : 0 ≤ v) : ∀ c ∈ (toString v).toList, isNamePart c = true := by
  intro c hc
  simp [isNamePart, isWordPart_of_isDigit (isDigit_toString h c hc)]

theorem toString_inj {v v' : Int64} (h : 0 ≤ v) (h' : 0 ≤ v') (he : (toString v).toList = (toString v').toList) :
    v = v' := by
  obtain ⟨n, -, hn, hs⟩ := exists_literal h
  obtain ⟨n', -, hn', hs'⟩ := exists_literal h'
  rw [hs, hs'] at he
  have hd := congrArg Text.decimalValue he
  rw [decimalValue_toDigits, decimalValue_toDigits] at hd
  rw [← hn, ← hn', hd]

theorem literal_of_nonneg {v : Int64} (h : 0 ≤ v) : literal v = toString v := if_neg (Int64.not_lt.2 h)

/-- No name begins with a digit, and every number does. -/
theorem toString_ne_rename {v : Int64} {name : String} (hv : 0 ≤ v) (hn : IsName name) :
    (toString v).toList ≠ (rename name).toList := by
  intro he
  obtain ⟨⟨c, cs, hname, hc, -⟩, -⟩ := hn
  have hd := isDigit_toString hv
  rw [he, toList_rename, hname] at hd
  split at hd
  · exact absurd (hd _ List.mem_cons_self) (by decide)
  · rw [isWordStart_eq_false_of_isDigit (hd _ List.mem_cons_self)] at hc
    cases hc

/-! ## Expressions -/

namespace Expr

/-- The characters of an expression in JavaScript. -/
def chars (config : Config) (e : Expr) : List Char := (e.code config).text.toList

variable {config : Config}

theorem chars_operand_number (v : Int64) : (operand (.number v)).chars config = (literal v).toList := by
  simp [chars, code, Fragment.text]

theorem chars_operand_ident (name : String) :
    (operand (.ident name)).chars config = (rename name).toList := by
  simp [chars, code, Fragment.text]

theorem chars_unary {op : Operator} {inner : Expr} (ho : op.isUnary = true) (hi : inner.WellFormed) :
    (unary op inner).chars config = '(' :: (op.symbol.toList ++ (inner.chars config ++ [')'])) := by
  simp [chars, code, ho, Fragment.text, Fragment.text_append, fault?_code config hi]

theorem chars_binary {op : Operator} {left right : Expr} (ho : op.isUnary = false)
    (hl : left.WellFormed) (hr : right.WellFormed) (ht : ¬(config.truncateDivision ∧ op = .divide)) :
    (binary op left right).chars config =
      '(' :: (left.chars config ++ (op.symbol.toList ++ (right.chars config ++ [')']))) := by
  simp only [chars, code, ho, Bool.false_eq_true, if_false, if_neg ht]
  simp [Fragment.text, Fragment.text_append, fault?_code config hl, fault?_code config hr]

/-- A quotient that is cut to a whole number. -/
theorem chars_truncated {left right : Expr} (hl : left.WellFormed) (hr : right.WellFormed)
    (ht : config.truncateDivision = true) :
    (binary .divide left right).chars config =
      "Math.trunc(".toList ++
        '(' :: (left.chars config ++ '/' :: (right.chars config ++ [')', ')'])) := by
  simp [chars, code, Operator.isUnary, ht, Operator.symbol, Fragment.text, Fragment.text_append,
    fault?_code config hl, fault?_code config hr]

/-! ### How an expression begins -/

/-- The word that an expression begins with. -/
def word (config : Config) : Expr → List Char
  | operand (.number v) => (toString v).toList
  | operand (.ident name) => (rename name).toList
  | unary _ _ => []
  | binary op _ _ => if config.truncateDivision ∧ op = .divide then "Math".toList else []

theorem wordOf_chars {e : Expr} (h : e.Plain) {rest : List Char} (hr : Apart rest) :
    wordOf (e.chars config ++ rest) = e.word config := by
  cases e with
  | operand leaf =>
    cases leaf with
    | number v =>
      rw [chars_operand_number, literal_of_nonneg h]
      exact wordOf_append _ (isNamePart_toString h) hr
    | ident name =>
      rw [chars_operand_ident]
      exact wordOf_append _ (isNamePart_rename h) hr
  | unary op inner =>
    rw [chars_unary h.1 h.2.wellFormed]
    exact wordOf_of_apart (apart_cons (by decide) _)
  | binary op left right =>
    by_cases ht : config.truncateDivision ∧ op = .divide
    · obtain ⟨ht, rfl⟩ := ht
      rw [chars_truncated h.2.1.wellFormed h.2.2.wellFormed ht, word, if_pos ⟨ht, rfl⟩]
      have hm := isNamePart_of_mem_reservedWords (by decide : "Math" ∈ reservedWords)
      exact wordOf_append "Math".toList hm (apart_cons (by decide : isNamePart '.' = false) _)
    · rw [chars_binary h.1 h.2.1.wellFormed h.2.2.wellFormed ht, word, if_neg ht]
      exact wordOf_of_apart (apart_cons (by decide) _)

theorem eq_number_of_word {e : Expr} (h : e.Plain) {v : Int64} (hv : 0 ≤ v)
    (he : (toString v).toList = e.word config) : e = operand (.number v) := by
  cases e with
  | operand leaf =>
    cases leaf with
    | number v' => rw [toString_inj hv h he]
    | ident name => exact absurd he (toString_ne_rename hv h)
  | unary op inner => exact absurd he (toString_ne_nil hv)
  | binary op left right =>
    have hd := isDigit_toString hv
    rw [he, word] at hd
    split at hd
    · exact absurd (hd 'M' List.mem_cons_self) (by decide)
    · rename_i ht
      rw [word, if_neg ht] at he
      exact absurd he (toString_ne_nil hv)

theorem eq_ident_of_word {e : Expr} (h : e.Plain) {name : String} (hn : IsName name)
    (he : (rename name).toList = e.word config) : e = operand (.ident name) := by
  have hne : (rename name).toList ≠ [] := by
    obtain ⟨⟨c, cs, hname, -⟩, -⟩ := hn
    rw [toList_rename, hname]
    split <;> simp
  cases e with
  | operand leaf =>
    cases leaf with
    | number v => exact absurd he.symm (toString_ne_rename h hn)
    | ident name' =>
      rw [rename_inj hn h (String.toList_injective he)]
  | unary op inner => exact absurd he hne
  | binary op left right =>
    rw [word] at he
    split at he
    · exact absurd he (rename_ne (by decide : "Math" ∈ reservedWords))
    · exact absurd he hne

/-- An expression that begins with a parenthesis has a sign or an operator in it. -/
theorem paren_of_word {e : Expr} (h : e.Plain) (he : e.word config = []) :
    (∃ op inner, e = unary op inner) ∨
      ∃ op left right, e = binary op left right ∧ ¬(config.truncateDivision ∧ op = .divide) := by
  cases e with
  | operand leaf =>
    cases leaf with
    | number v => exact absurd he (toString_ne_nil h)
    | ident name =>
      obtain ⟨⟨c, cs, hname, -⟩, -⟩ := h
      rw [word, toList_rename, hname] at he
      split at he <;> cases he
  | unary op inner => exact .inl ⟨op, inner, rfl⟩
  | binary op left right =>
    refine .inr ⟨op, left, right, rfl, fun ht => ?_⟩
    rw [word, if_pos ht] at he
    cases he

theorem truncated_of_word {e : Expr} (h : e.Plain) (he : e.word config = "Math".toList) :
    ∃ left right, e = binary .divide left right := by
  cases e with
  | operand leaf =>
    cases leaf with
    | number v =>
      have hd := isDigit_toString h
      rw [show (toString v).toList = "Math".toList from he] at hd
      exact absurd (hd 'M' List.mem_cons_self) (by decide)
    | ident name => exact absurd he (rename_ne (by decide : "Math" ∈ reservedWords))
  | unary op inner => cases he
  | binary op left right =>
    rw [word] at he
    split at he
    · rename_i ht
      exact ⟨left, right, by rw [ht.2]⟩
    · cases he

/-! ### What follows an operator -/

theorem symbol_append_inj {op op' : Operator} (h : op.isUnary = op'.isUnary) {rest rest' : List Char}
    (he : op.symbol.toList ++ rest = op'.symbol.toList ++ rest') : op = op' ∧ rest = rest' := by
  cases op <;> cases op' <;> simp_all [Operator.symbol, Operator.isUnary]

theorem apart_symbol (op : Operator) (rest : List Char) : Apart (op.symbol.toList ++ rest) := by
  cases op <;> exact apart_cons (by decide) rest

theorem word_eq_of_append {e e' : Expr} (h : e.Plain) (h' : e'.Plain) {rest rest' : List Char}
    (hr : Apart rest) (hr' : Apart rest') (he : e.chars config ++ rest = e'.chars config ++ rest') :
    e.word config = e'.word config := by
  rw [← wordOf_chars h hr, he, wordOf_chars h' hr']

/-- No expression begins with a sign. -/
theorem chars_ne_sign {e : Expr} (h : e.Plain) {op : Operator} (ho : op.isUnary = true)
    {rest : List Char} (hr : Apart rest) (rest' : List Char) :
    e.chars config ++ rest ≠ op.symbol.toList ++ rest' := by
  intro he
  have hw : e.word config = [] := by
    rw [← wordOf_chars h hr, he]
    exact wordOf_of_apart (apart_symbol op rest')
  have hne : ∀ cs, '(' :: cs ≠ op.symbol.toList ++ rest' := by
    cases op <;> simp [Operator.symbol]
  rcases paren_of_word h hw with ⟨op', inner, rfl⟩ | ⟨op', left, right, rfl, ht⟩
  · rw [chars_unary h.1 h.2.wellFormed] at he
    exact hne _ he
  · rw [chars_binary h.1 h.2.1.wellFormed h.2.2.wellFormed ht] at he
    exact hne _ he

/-- The text of an expression, with a text after it that goes on no word, is that of no other expression. -/
theorem chars_append_inj {e e' : Expr} (h : e.Plain) (h' : e'.Plain) {rest rest' : List Char}
    (hr : Apart rest) (hr' : Apart rest') (he : e.chars config ++ rest = e'.chars config ++ rest') :
    e = e' ∧ rest = rest' := by
  suffices hs : e = e' from ⟨hs, by rw [hs] at he; exact List.append_cancel_left he⟩
  have hclose : ∀ rest, Apart (')' :: rest) := apart_cons (by decide)
  induction e generalizing e' rest rest' with
  | operand leaf =>
    have hw := word_eq_of_append h h' hr hr' he
    cases leaf with
    | number v => exact (eq_number_of_word h' h hw).symm
    | ident name => exact (eq_ident_of_word h' h hw).symm
  | unary op inner ih =>
    have hw := word_eq_of_append h h' hr hr' he
    rw [chars_unary h.1 h.2.wellFormed] at he
    rcases paren_of_word h' hw.symm with ⟨op', inner', rfl⟩ | ⟨op', left', right', rfl, ht⟩
    · rw [chars_unary h'.1 h'.2.wellFormed] at he
      simp only [List.cons_append, List.append_assoc, List.nil_append, List.cons.injEq, true_and] at he
      obtain ⟨rfl, hi⟩ := symbol_append_inj (h.1.trans h'.1.symm) he
      rw [ih h.2 h'.2 (hclose _) (hclose _) hi]
    · rw [chars_binary h'.1 h'.2.1.wellFormed h'.2.2.wellFormed ht] at he
      simp only [List.cons_append, List.append_assoc, List.nil_append, List.cons.injEq, true_and] at he
      exact absurd he.symm (chars_ne_sign h'.2.1 h.1 (apart_symbol _ _) _)
  | binary op left right ihl ihr =>
    have hw := word_eq_of_append h h' hr hr' he
    by_cases ht : config.truncateDivision ∧ op = .divide
    · obtain ⟨ht, rfl⟩ := ht
      rw [word, if_pos ⟨ht, rfl⟩] at hw
      obtain ⟨left', right', rfl⟩ := truncated_of_word h' hw.symm
      rw [chars_truncated h.2.1.wellFormed h.2.2.wellFormed ht,
        chars_truncated h'.2.1.wellFormed h'.2.2.wellFormed ht] at he
      simp only [List.append_assoc, List.append_cancel_left_eq, List.cons_append, List.nil_append,
        List.cons.injEq, true_and] at he
      obtain rfl := ihl h.2.1 h'.2.1 (apart_cons (by decide) _) (apart_cons (by decide) _) he
      simp only [List.append_cancel_left_eq, List.cons.injEq, true_and] at he
      rw [ihr h.2.2 h'.2.2 (hclose _) (hclose _) he]
    · rw [word, if_neg ht] at hw
      rw [chars_binary h.1 h.2.1.wellFormed h.2.2.wellFormed ht] at he
      rcases paren_of_word h' hw.symm with ⟨op', inner', rfl⟩ | ⟨op', left', right', rfl, ht'⟩
      · rw [chars_unary h'.1 h'.2.wellFormed] at he
        simp only [List.cons_append, List.append_assoc, List.nil_append, List.cons.injEq, true_and] at he
        exact absurd he (chars_ne_sign h.2.1 h'.1 (apart_symbol _ _) _)
      · rw [chars_binary h'.1 h'.2.1.wellFormed h'.2.2.wellFormed ht'] at he
        simp only [List.cons_append, List.append_assoc, List.nil_append, List.cons.injEq, true_and] at he
        obtain rfl := ihl h.2.1 h'.2.1 (apart_symbol _ _) (apart_symbol _ _) he
        obtain ⟨rfl, hi⟩ := symbol_append_inj (h.1.trans h'.1.symm) (List.append_cancel_left he)
        rw [ihr h.2.2 h'.2.2 (hclose _) (hclose _) hi]

/-- An expression stands on one line. -/
theorem newline_not_mem_chars {e : Expr} (h : e.Plain) : '\n' ∉ e.chars config := by
  induction e with
  | operand leaf =>
    cases leaf with
    | number v =>
      rw [chars_operand_number, literal_of_nonneg h]
      exact fun hm => absurd (isNamePart_toString h _ hm) (by decide)
    | ident name =>
      rw [chars_operand_ident]
      exact fun hm => absurd (isNamePart_rename h _ hm) (by decide)
  | unary op inner ih =>
    rw [chars_unary h.1 h.2.wellFormed]
    cases op <;> simp [Operator.symbol, ih h.2]
  | binary op left right ihl ihr =>
    by_cases ht : config.truncateDivision ∧ op = .divide
    · obtain ⟨ht, rfl⟩ := ht
      rw [chars_truncated h.2.1.wellFormed h.2.2.wellFormed ht]
      simp [ihl h.2.1, ihr h.2.2]
    · rw [chars_binary h.1 h.2.1.wellFormed h.2.2.wellFormed ht]
      cases op <;> simp [Operator.symbol, ihl h.2.1, ihr h.2.2]

end Expr

/-! ## Conditions -/

namespace Condition

/-- The characters of a condition in JavaScript. -/
def chars (config : Config) (c : Condition) : List Char := (c.code config).text.toList

variable {config : Config}

theorem chars_odd {inner : Expr} (h : inner.WellFormed) :
    (odd inner).chars config = '(' :: '(' :: (inner.chars config ++ " % 2) === 1)".toList) := by
  simp [chars, code, Expr.chars, Fragment.text, Fragment.text_append, Expr.fault?_code config h]

theorem chars_compare {rel : Relation} {left right : Expr} (hl : left.WellFormed) (hr : right.WellFormed) :
    (compare rel left right).chars config =
      '(' :: (left.chars config ++
        ' ' :: ((relation rel).toList ++ ' ' :: (right.chars config ++ [')']))) := by
  simp [chars, code, Expr.chars, Fragment.text, Fragment.text_append, Expr.fault?_code config hl,
    Expr.fault?_code config hr]

theorem relation_append_inj {rel rel' : Relation} {rest rest' : List Char}
    (h : (relation rel).toList ++ ' ' :: rest = (relation rel').toList ++ ' ' :: rest') :
    rel = rel' ∧ rest = rest' := by
  cases rel <;> cases rel' <;> simp_all [relation]

theorem Plain.wellFormed_operands {c : Condition} (h : c.Plain) : ∀ e ∈ c.operands, e.WellFormed := by
  cases c with
  | odd inner => simpa [operands] using Expr.Plain.wellFormed h
  | compare rel left right => simpa [operands] using ⟨h.1.wellFormed, h.2.wellFormed⟩

/-- A condition on well-formed expressions can be written. -/
theorem fault?_code (config : Config) {c : Condition} (h : ∀ e ∈ c.operands, e.WellFormed) :
    (c.code config).fault? = none := by
  cases c with
  | odd inner =>
    have hi : inner.WellFormed := h inner (by simp [operands])
    simp [code, Fragment.fault?, Fragment.fault?_append, Expr.fault?_code config hi]
  | compare rel left right =>
    have hl : left.WellFormed := h left (by simp [operands])
    have hr : right.WellFormed := h right (by simp [operands])
    simp [code, Fragment.fault?, Fragment.fault?_append, Expr.fault?_code config hl, Expr.fault?_code config hr]

/-- An expression that is asked to be odd is no beginning of another expression. -/
theorem chars_ne_odd {e inner : Expr} (h : e.Plain) (hi : inner.Plain) {rest rest' : List Char}
    (hr : Apart rest) :
    e.chars config ++ rest ≠ '(' :: (inner.chars config ++ ' ' :: rest') := by
  intro he
  have hs : ∀ rest, Apart (' ' :: rest) := apart_cons (by decide)
  have hw : e.word config = [] := by
    rw [← Expr.wordOf_chars h hr, he]
    exact wordOf_of_apart (apart_cons (by decide) _)
  rcases Expr.paren_of_word h hw with ⟨op, inner', rfl⟩ | ⟨op, left, right, rfl, ht⟩
  · rw [Expr.chars_unary h.1 h.2.wellFormed] at he
    simp only [List.cons_append, List.append_assoc, List.cons.injEq, true_and] at he
    exact Expr.chars_ne_sign hi h.1 (hs rest') _ he.symm
  · rw [Expr.chars_binary h.1 h.2.1.wellFormed h.2.2.wellFormed ht] at he
    simp only [List.cons_append, List.append_assoc, List.cons.injEq, true_and] at he
    have ho := (Expr.chars_append_inj h.2.1 hi (Expr.apart_symbol _ _) (hs rest') he).2
    cases op <;> simp [Operator.symbol] at ho

/-- The text of a condition is that of no other condition, whatever follows it. -/
theorem chars_append_inj {c c' : Condition} (h : c.Plain) (h' : c'.Plain) {rest rest' : List Char}
    (he : c.chars config ++ rest = c'.chars config ++ rest') : c = c' ∧ rest = rest' := by
  suffices hc : c = c' from ⟨hc, by rw [hc] at he; exact List.append_cancel_left he⟩
  have hs : ∀ rest, Apart (' ' :: rest) := apart_cons (by decide)
  have hclose : ∀ rest, Apart (')' :: rest) := apart_cons (by decide)
  have hodd : " % 2) === 1)".toList = ' ' :: "% 2) === 1)".toList := rfl
  cases c with
  | odd inner =>
    rw [chars_odd h.wellFormed, hodd] at he
    cases c' with
    | odd inner' =>
      rw [chars_odd h'.wellFormed, hodd] at he
      simp only [List.cons_append, List.append_assoc, List.cons.injEq, true_and] at he
      rw [(Expr.chars_append_inj h h' (hs _) (hs _) he).1]
    | compare rel' left' right' =>
      rw [chars_compare h'.1.wellFormed h'.2.wellFormed] at he
      simp only [List.cons_append, List.append_assoc, List.cons.injEq, true_and] at he
      exact absurd he.symm (chars_ne_odd h'.1 h (hs _))
  | compare rel left right =>
    rw [chars_compare h.1.wellFormed h.2.wellFormed] at he
    cases c' with
    | odd inner' =>
      rw [chars_odd h'.wellFormed, hodd] at he
      simp only [List.cons_append, List.append_assoc, List.cons.injEq, true_and] at he
      exact absurd he (chars_ne_odd h.1 h' (hs _))
    | compare rel' left' right' =>
      rw [chars_compare h'.1.wellFormed h'.2.wellFormed] at he
      simp only [List.cons_append, List.append_assoc, List.nil_append, List.cons.injEq, true_and] at he
      obtain ⟨rfl, hrel⟩ := Expr.chars_append_inj h.1 h'.1 (hs _) (hs _) he
      simp only [List.cons.injEq, true_and] at hrel
      obtain ⟨rfl, hright⟩ := relation_append_inj hrel
      rw [(Expr.chars_append_inj h.2 h'.2 (hclose _) (hclose _) hright).1]

theorem newline_not_mem_chars {c : Condition} (h : c.Plain) : '\n' ∉ c.chars config := by
  cases c with
  | odd inner =>
    rw [chars_odd h.wellFormed]
    simp [Expr.newline_not_mem_chars h]
  | compare rel left right =>
    rw [chars_compare h.1.wellFormed h.2.wellFormed]
    cases rel <;> simp [relation, Expr.newline_not_mem_chars h.1, Expr.newline_not_mem_chars h.2]

end Condition

end PL0
