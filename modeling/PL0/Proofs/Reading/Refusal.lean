/-
Where reading is refused. Every rule keeps to the phrases of the grammar as long as it reads: what it has read
when it is refused can be completed to a phrase, and the fault quotes the word at which it stopped. Both are
said by `Parser.Traces`, with the words of the phrases as a function, and every way of putting parsers together
has its way of putting these functions together. Main statements: `traces_block_rules` and `stops_program`.
-/
import PL0.Proofs.Reading.Program

namespace PL0

open Phrase

/-- The fault quotes a word as the one at which reading stopped, and names its line. -/
inductive Fault.Quotes (lexeme : String) (line : Nat) : Fault → Prop where
  | unexpected (expected : String) : Quotes lexeme line (.unexpected expected lexeme line)
  | unclosedAt : Quotes lexeme line (.unclosedAt lexeme line)
  | notARelation : Quotes lexeme line (.notARelation lexeme line)

/-- The numbers among the words have their values. -/
def Valued (ts : List Token) : Prop := ∀ t ∈ ts, t.kind = .number → t.value ≠ none

theorem valued_cons {t : Token} {ts : List Token} :
    Valued (t :: ts) ↔ (t.kind = .number → t.value ≠ none) ∧ Valued ts := List.forall_mem_cons

theorem Valued.right {ts us : List Token} (h : Valued (ts ++ us)) : Valued us :=
  fun t ht => h t (List.mem_append_right _ ht)

/-! ## Some phrase of every rule -/

namespace Phrase

instance {kind : TokenKind} : Inhabited (Word kind) := ⟨⟨.plain kind kind.describe 0, rfl⟩⟩

instance : Inhabited Numeral := ⟨⟨⟨.number, "0", some 0, 0⟩, 0, rfl, rfl⟩⟩

instance : Inhabited Factor := ⟨.ident default⟩

instance : Inhabited Factors := ⟨.nil⟩

instance : Inhabited Term := ⟨.mk default default⟩

instance : Inhabited Terms := ⟨.nil⟩

instance : Inhabited Expression := ⟨.mk none default default⟩

instance : Inhabited Comparator := ⟨⟨.eq, default⟩⟩

instance : Inhabited Statement := ⟨.call default default⟩

instance : Inhabited Statements := ⟨.nil⟩

instance {α : Type} [Inhabited α] : Inhabited (Items α) := ⟨.last default default⟩

instance : Inhabited Constant := ⟨⟨default, default, default⟩⟩

instance : Inhabited Declared := ⟨⟨none, none⟩⟩

instance : Inhabited Procedures := ⟨.nil⟩

instance : Inhabited Block := ⟨.mk default default default⟩

/-- The words of two phrases, one after the other. -/
def both {β γ : Type} (w : β → List Token) (w' : γ → List Token) (d : β × γ) : List Token := w d.1 ++ w' d.2

/-- The word of a sign that may be left out. -/
def signWords (d : Option Sign) : List Token := (d.map Sign.token).toList

/-- The words of a relation and its right side. -/
def comparedWords (d : Comparator × Expression) : List Token := d.1.word.token :: d.2.words

/-- The words after an item: the semicolon, or a comma and more items. -/
def itemsAfter {α : Type} (f : α → List Token) : Word .semicolon ⊕ Word .comma × Items α → List Token
  | .inl semicolon => [semicolon.token]
  | .inr (comma, others) => comma.token :: others.words f

/-- The words after the keyword of an `if` or a `while`. -/
def guardedWords {kind : TokenKind} (d : Condition × Word kind × Statement) : List Token :=
  d.1.words ++ d.2.1.token :: d.2.2.words

end Phrase

/-! ## On the way to a phrase -/

variable {α β γ : Type} {endLine : Nat} {ts rest : List Token}

/-- Reading was refused before `rest`: what was read is the beginning of a phrase with the words `w`, and the
fault quotes the word that comes next. -/
structure Stops (w : β → List Token) (endLine : Nat) (ts : List Token) (fault : Fault) (rest : List Token) :
    Prop where
  reads : ∃ read missing d, ts = read ++ rest ∧ w d = read ++ missing
  quotes : fault.Quotes (frontOf rest).lexeme (lineOf endLine rest)

/-- What was read is a phrase with the words `w`, or the beginning of one if reading was refused. -/
def Outcome.Traces (w : β → List Token) (endLine : Nat) (ts : List Token) : Outcome α → Prop
  | done _ rest => ∃ d, ts = w d ++ rest
  | failed fault rest => Stops w endLine ts fault rest
  | exhausted => True

/-- What the parser reads is a phrase with the words `w`, or the beginning of one if it refuses. -/
def Parser.Traces (p : Parser α) (w : β → List Token) : Prop :=
  ∀ endLine ts, Valued ts → (p.run endLine ts).Traces w endLine ts

variable {w : β → List Token} {w' : γ → List Token}

namespace Outcome

/-- A phrase that has the same words as another. -/
theorem Traces.map {o : Outcome α} (h : o.Traces w endLine ts) (g : β → γ) (hg : ∀ d, w' (g d) = w d) :
    o.Traces w' endLine ts := by
  cases o with
  | done a rest =>
    obtain ⟨d, hd⟩ := h
    exact ⟨g d, by rw [hg, hd]⟩
  | failed fault rest =>
    obtain ⟨⟨read, missing, d, hts, hd⟩, hq⟩ := h
    exact ⟨⟨read, missing, g d, hts, by rw [hg, hd]⟩, hq⟩
  | exhausted => trivial

/-- A phrase that has one word more at its front. -/
theorem Traces.cons {o : Outcome α} (h : o.Traces w endLine ts) (t : Token) (g : β → γ)
    (hg : ∀ d, w' (g d) = t :: w d) : o.Traces w' endLine (t :: ts) := by
  cases o with
  | done a rest =>
    obtain ⟨d, hd⟩ := h
    exact ⟨g d, by rw [hg, hd, List.cons_append]⟩
  | failed fault rest =>
    obtain ⟨⟨read, missing, d, hts, hd⟩, hq⟩ := h
    exact ⟨⟨t :: read, missing, g d, by rw [hts, List.cons_append], by rw [hg, hd, List.cons_append]⟩, hq⟩
  | exhausted => trivial

end Outcome

namespace Parser

theorem Traces.map {p : Parser α} (h : Traces p w) (g : β → γ) (hg : ∀ d, w' (g d) = w d) : Traces p w' :=
  fun endLine ts hv => (h endLine ts hv).map g hg

/-- The words that are left have their values too. -/
theorem Traces.valued {p : Parser α} {a : α} (hp : Traces p w) (hv : Valued ts)
    (h : p.run endLine ts = .done a rest) : Valued rest := by
  have ht := hp endLine ts hv
  rw [h] at ht
  obtain ⟨d, rfl⟩ := ht
  exact hv.right

/-- One parser after another, the second where the first has ended. What is missing of the second phrase, if
the first is refused, is all of some phrase. -/
theorem traces_run_bind [Inhabited γ] {p : Parser α} {δ : Type} {f : α → Parser δ} (hv : Valued ts)
    (hp : (p.run endLine ts).Traces w endLine ts)
    (hf : ∀ a rest, Valued rest → p.run endLine ts = .done a rest →
      ((f a).run endLine rest).Traces w' endLine rest) :
    ((p >>= f).run endLine ts).Traces (both w w') endLine ts := by
  rw [run_bind]
  cases h : p.run endLine ts with
  | done a r =>
    rw [h] at hp
    obtain ⟨d, rfl⟩ := hp
    have hq := hf a r hv.right h
    show ((f a).run endLine r).Traces _ _ _
    cases h' : (f a).run endLine r with
    | done b r' =>
      rw [h'] at hq
      obtain ⟨d', rfl⟩ := hq
      exact ⟨(d, d'), by simp [both]⟩
    | failed fault r' =>
      rw [h'] at hq
      obtain ⟨⟨read, missing, d', rfl, hd'⟩, hq⟩ := hq
      exact ⟨⟨w d ++ read, missing, (d, d'), by simp, by simp [both, hd']⟩, hq⟩
    | exhausted => trivial
  | failed fault r =>
    rw [h] at hp
    obtain ⟨⟨read, missing, d, hts, hd⟩, hq⟩ := hp
    exact ⟨⟨read, missing ++ w' default, (d, default), hts, by simp [both, hd]⟩, hq⟩
  | exhausted => trivial

theorem traces_bind [Inhabited γ] {p : Parser α} {δ : Type} {f : α → Parser δ} (hp : Traces p w)
    (hf : ∀ a, Traces (f a) w') : Traces (p >>= f) (both w w') :=
  fun endLine ts hv => traces_run_bind hv (hp endLine ts hv) fun a rest hr _ => hf a endLine rest hr

/-- A result that is made of what was read. -/
theorem traces_return {p : Parser α} {δ : Type} (hp : Traces p w) (g : α → δ) :
    Traces (do let a ← p; return g a) w := by
  intro endLine ts hv
  have h := hp endLine ts hv
  rw [run_bind]
  cases h' : p.run endLine ts with
  | done a r => rw [h'] at h; exact h
  | failed fault r => rw [h'] at h; exact h
  | exhausted => trivial

theorem traces_pure (a : α) (d : β) (hd : w d = []) : Traces (pure a) w :=
  fun endLine ts _ => ⟨d, by rw [hd, List.nil_append]⟩

/-- Nothing is read of a phrase that is refused at its first word. -/
theorem traces_refuse [Inhabited β] {reason : String → Nat → Fault}
    (h : ∀ lexeme line, (reason lexeme line).Quotes lexeme line) : Traces (refuse reason : Parser α) w :=
  fun _ _ _ => ⟨⟨[], w default, default, rfl, rfl⟩, h _ _⟩

/-- A word that may be there, and what is read after it or without it. -/
theorem traces_accept?_bind {kind : TokenKind} (hk : kind ≠ .eof) {f : Option Token → Parser α}
    (hsome : ∀ word : Word kind, Traces (f (some word.token)) w) (g : Word kind → β → γ)
    (hg : ∀ word d, w' (g word d) = word.token :: w d) (hnone : Traces (f none) w') :
    Traces (accept? kind >>= f) w' := by
  intro endLine ts hv
  rw [run_accept?_bind]
  by_cases hf : (frontOf ts).kind = kind
  · obtain ⟨word, r, rfl⟩ := exists_word hf hk
    rw [if_pos hf, frontOf_cons, List.tail_cons]
    exact (hsome word endLine r (valued_cons.1 hv).2).cons word.token (g word) (hg word)
  · rw [if_neg hf]
    exact hnone endLine ts hv

theorem traces_expect {kind : TokenKind} (hk : kind ≠ .eof) :
    Traces (expect kind) (Word.single : Word kind → List Token) := by
  intro endLine ts hv
  rw [run_expect]
  by_cases hf : (frontOf ts).kind = kind
  · obtain ⟨word, r, rfl⟩ := exists_word hf hk
    rw [if_pos hf]
    exact ⟨word, rfl⟩
  · rw [if_neg hf]
    exact ⟨⟨[], [(default : Word kind).token], default, rfl, rfl⟩, .unexpected _⟩

end Parser

namespace Grammar

open PL0.Parser

/-! ## Expressions -/

/-- A closing parenthesis after an expression that was begun after an open one finds it. -/
theorem process_closing_of_run {n : Nat} {y y' : Yard} {stack : List Waiting} (hs : y.stack = .paren :: stack)
    (h : (expression n y).run endLine ts = .done y' rest) (closing : Word .rparen) :
    ∃ y'', y'.process closing.token = (.ok (), y'') := by
  obtain ⟨d, -, hd⟩ := phrase_of_run_expression h
  obtain ⟨y₁, hy₁, hh⟩ := d.builds y (hs ▸ Yard.blocks_paren _ _)
  obtain rfl : y' = y₁ := Except.ok.inj (hd.symm.trans hy₁)
  rw [hs] at hh
  obtain ⟨y₂, hp, -, -⟩ := process_closing hh closing
  exact ⟨y₂, hp⟩

theorem traces_closing {n : Nat} {y y' : Yard} {stack : List Waiting} (hs : y.stack = .paren :: stack)
    (h : (expression n y).run endLine ts = .done y' rest) (hv : Valued rest) :
    ((do
      match ← accept? .rparen with
      | some close => feed y' close
      | none => refuse .unclosedAt : Parser Yard).run endLine rest).Traces
        (Word.single : Word .rparen → List Token) endLine rest := by
  rw [run_accept?_bind]
  by_cases hc : (frontOf rest).kind = .rparen
  · obtain ⟨closing, r, rfl⟩ := exists_word hc (by decide)
    obtain ⟨y'', hp⟩ := process_closing_of_run hs h closing
    have hf : (feed y' closing.token).run endLine r = .done y'' r := run_feed_eq_done.2 ⟨hp, rfl⟩
    rw [if_pos hc, frontOf_cons, List.tail_cons, hf]
    exact ⟨closing, rfl⟩
  · rw [if_neg hc]
    exact traces_refuse (fun _ _ => .unclosedAt) endLine rest hv

/-- After an expression that was begun with nothing before it, the yard has its tree. -/
theorem finish_of_run {n : Nat} {y : Yard} (h : (expression n .initial).run endLine ts = .done y rest) :
    ∃ e, y.finish = .ok e := by
  obtain ⟨d, -, hd⟩ := phrase_of_run_expression h
  obtain ⟨y₁, hy₁, hh⟩ := d.builds .initial (Yard.blocks_nil _)
  obtain rfl : y = y₁ := Except.ok.inj (hd.symm.trans hy₁)
  exact ⟨d.tree, hh.finish d.wellFormed⟩

theorem traces_leadingSign (y : Yard) : Traces (leadingSign y) signWords := by
  intro endLine ts hv
  by_cases hk : (frontOf ts).kind ∈ sumKinds
  · obtain ⟨sign, r, rfl⟩ := exists_sign hk
    rw [run_leadingSign_cons, run_feed_eq_done.2 ⟨Yard.process_operator sign.ofKind?_marked, rfl⟩]
    exact ⟨some sign, rfl⟩
  · rw [run_leadingSign_nil y hk]
    exact ⟨none, rfl⟩

/-- **The rules of an expression** keep to its phrases. No word is refused by the yard. -/
theorem traces_expression_rules (n : Nat) :
    (∀ y, Traces (expression n y) Expression.words) ∧ (∀ y, Traces (moreTerms n y) Terms.words) ∧
    (∀ y, Traces (term n y) Term.words) ∧ (∀ y, Traces (moreFactors n y) Factors.words) ∧
    (∀ y, Traces (factor n y) Factor.words) := by
  induction n with
  | zero => refine ⟨?_, ?_, ?_, ?_, ?_⟩ <;> intro y endLine ts hv <;> trivial
  | succ n ih =>
    obtain ⟨ihe, ihmt, iht, ihmf, ihf⟩ := ih
    refine ⟨fun y => ?_, fun y endLine ts hv => ?_, fun y => ?_, fun y endLine ts hv => ?_,
      fun y endLine ts hv => ?_⟩
    · refine (traces_bind (traces_leadingSign y) fun y => traces_bind (iht y) ihmt).map
        (fun d => .mk d.1 d.2.1 d.2.2) ?_
      rintro ⟨sign, first, others⟩
      cases sign <;> rfl
    · by_cases hk : (frontOf ts).kind ∈ sumKinds
      · obtain ⟨sign, r, rfl⟩ := exists_sign hk
        rw [run_moreTerms_cons, run_feed_bind (Yard.process_operator sign.ofKind?_token)]
        exact (traces_bind (iht _) ihmt endLine r (valued_cons.1 hv).2).cons sign.token
          (fun d => .cons sign d.1 d.2) fun d => rfl
      · rw [run_moreTerms_nil y hk]
        exact ⟨.nil, rfl⟩
    · exact (traces_bind (ihf y) ihmf).map (fun d => .mk d.1 d.2) fun d => rfl
    · by_cases hk : (frontOf ts).kind ∈ productKinds
      · obtain ⟨times, r, rfl⟩ := exists_times hk
        rw [run_moreFactors_cons, run_feed_bind (Yard.process_operator times.ofKind?_token)]
        exact (traces_bind (ihf _) ihmf endLine r (valued_cons.1 hv).2).cons times.token
          (fun d => .cons times d.1 d.2) fun d => rfl
      · rw [run_moreFactors_nil y hk]
        exact ⟨.nil, rfl⟩
    · rw [factor, run_peek_bind]
      split
      case h_1 hk =>
        obtain ⟨name, r, rfl⟩ := exists_word hk (by decide)
        rw [run_advance_bind, frontOf_cons, run_feed_eq_done.2 ⟨Yard.process_ident name.kind_eq, rfl⟩]
        exact ⟨.ident name, rfl⟩
      case h_2 hk =>
        obtain ⟨word, r, rfl⟩ := exists_word hk (by decide)
        obtain ⟨value, hvalue⟩ := Option.ne_none_iff_exists'.1 ((valued_cons.1 hv).1 word.kind_eq)
        rw [run_advance_bind, frontOf_cons, run_feed_eq_done.2 ⟨Yard.process_number word.kind_eq hvalue, rfl⟩]
        exact ⟨.number ⟨word.token, value, word.kind_eq, hvalue⟩, rfl⟩
      case h_3 hk =>
        obtain ⟨opening, r, rfl⟩ := exists_word hk (by decide)
        have hr : Valued r := (valued_cons.1 hv).2
        rw [run_advance_bind, frontOf_cons, List.tail_cons, run_feed_bind (Yard.process_lparen opening.kind_eq)]
        exact (traces_run_bind hr (ihe _ endLine r hr) fun y' r' hr' he => traces_closing rfl he hr').cons
          opening.token (fun d => .paren opening d.1 d.2) fun d => rfl
      case h_4 => exact traces_refuse (fun _ _ => .unexpected _) endLine ts hv

theorem traces_tree (n : Nat) : Traces (tree n) Expression.words := by
  intro endLine ts hv
  have h := (traces_expression_rules n).1 .initial endLine ts hv
  rw [tree, run_bind]
  cases h' : (expression n .initial).run endLine ts with
  | done y r =>
    rw [h'] at h
    obtain ⟨e, he⟩ := finish_of_run h'
    show ((ofExcept y.finish : Parser Expr).run endLine r).Traces _ _ _
    rw [he]
    exact h
  | failed fault r => rw [h'] at h; exact h
  | exhausted => trivial

/-! ## Conditions and statements -/

/-- What follows the left side of a comparison. -/
theorem traces_compared (n : Nat) (left : Expr) : Traces (do
    match Relation.ofKind? (← peek).kind with
    | some rel => do
      let _ ← advance
      let right ← tree n
      return .compare rel left right
    | none => refuse .notARelation : Parser Condition) comparedWords := by
  intro endLine ts hv
  rw [run_peek_bind]
  split
  · rename_i rel hrel
    have hk := Relation.kind_of_ofKind? hrel
    obtain ⟨word, r, rfl⟩ := exists_word hk (by cases rel <;> decide)
    rw [run_advance_bind]
    exact (traces_return (traces_tree n) _ endLine r (valued_cons.1 hv).2).cons word.token
      (fun right => (⟨rel, word⟩, right)) fun right => rfl
  · exact traces_refuse (fun _ _ => .notARelation) endLine ts hv

theorem traces_condition (n : Nat) : Traces (condition n) Phrase.Condition.words := by
  refine traces_accept?_bind (by decide) (fun _ => traces_return (traces_tree n) _)
    (fun keyword inner => .odd keyword inner) (fun _ _ => rfl) ?_
  exact (traces_bind (traces_tree n) fun left => traces_compared n left).map
    (fun d => .compare d.1 d.2.1 d.2.2) fun d => rfl

/-- What follows the keyword of an `if` or a `while`. -/
theorem traces_guarded {n : Nat} {kind : TokenKind} (hk : kind ≠ .eof) (f : Condition → Statement → Statement)
    (h : Traces (statement n) Phrase.Statement.words) :
    Traces (do let cond ← condition n; let _ ← expect kind; let body ← statement n
               return f cond body : Parser Statement)
      (guardedWords : Phrase.Condition × Word kind × Phrase.Statement → List Token) :=
  (traces_bind (traces_condition n) fun _ => traces_bind (traces_expect hk) fun _ => traces_return h _).map
    id fun _ => rfl

/-- **The rules of a statement** keep to its phrases. -/
theorem traces_statement_rules (n : Nat) :
    Traces (statement n) Phrase.Statement.words ∧ Traces (moreStatements n) Statements.words := by
  induction n with
  | zero => constructor <;> intro endLine ts hv <;> trivial
  | succ n ih =>
    obtain ⟨ihs, ihms⟩ := ih
    refine ⟨fun endLine ts hv => ?_, ?_⟩
    · rw [statement, run_peek_bind]
      split
      case h_1 hk =>
        obtain ⟨name, r, rfl⟩ := exists_word hk (by decide)
        exact (traces_bind (traces_expect (by decide)) (fun _ => traces_return (traces_tree n) _) endLine r
          (valued_cons.1 hv).2).cons name.token (fun d => .assign name d.1 d.2) fun d => rfl
      case h_2 hk =>
        obtain ⟨keyword, r, rfl⟩ := exists_word hk (by decide)
        exact (traces_return (traces_expect (by decide)) _ endLine r (valued_cons.1 hv).2).cons keyword.token
          (fun name => .call keyword name) fun d => rfl
      case h_3 hk =>
        obtain ⟨mark, r, rfl⟩ := exists_word hk (by decide)
        exact (traces_return (traces_tree n) _ endLine r (valued_cons.1 hv).2).cons mark.token
          (fun value => .write mark value) fun d => rfl
      case h_4 hk =>
        obtain ⟨opening, r, rfl⟩ := exists_word hk (by decide)
        exact (traces_bind ihs (fun _ => traces_bind ihms fun _ => traces_return (traces_expect (by decide)) _)
          endLine r (valued_cons.1 hv).2).cons opening.token
            (fun d => .compound opening d.1 d.2.1 d.2.2) fun d => rfl
      case h_5 hk =>
        obtain ⟨keyword, r, rfl⟩ := exists_word hk (by decide)
        exact (traces_guarded (by decide) _ ihs endLine r (valued_cons.1 hv).2).cons keyword.token
          (fun d => .ifThen keyword d.1 d.2.1 d.2.2) fun d => rfl
      case h_6 hk =>
        obtain ⟨keyword, r, rfl⟩ := exists_word hk (by decide)
        exact (traces_guarded (by decide) _ ihs endLine r (valued_cons.1 hv).2).cons keyword.token
          (fun d => .whileDo keyword d.1 d.2.1 d.2.2) fun d => rfl
      case h_7 => exact traces_refuse (fun _ _ => .unexpected _) endLine ts hv
    · exact traces_accept?_bind (by decide) (fun _ => traces_bind ihs fun _ => traces_return ihms _)
        (fun semicolon d => .cons semicolon d.1 d.2) (fun _ _ => rfl) (traces_pure _ .nil rfl)

/-! ## Blocks -/

theorem traces_literal : Traces literal fun d : Numeral => [d.token] := by
  intro endLine ts hv
  by_cases hf : (frontOf ts).kind = .number
  · obtain ⟨word, r, rfl⟩ := exists_word hf (by decide)
    obtain ⟨value, hvalue⟩ := Option.ne_none_iff_exists'.1 ((valued_cons.1 hv).1 word.kind_eq)
    let n : Numeral := ⟨word.token, value, word.kind_eq, hvalue⟩
    have hn : literal.run endLine (word.token :: r) = .done value r := run_literal n
    rw [hn]
    exact ⟨n, rfl⟩
  · rw [literal, run_bind, run_expect, if_neg hf]
    exact ⟨⟨[], [(default : Numeral).token], default, rfl, rfl⟩, .unexpected _⟩

/-- What follows an item: the end of the list, or more of it. -/
theorem traces_itemsAfter {α : Type} [Inhabited α] {f : α → List Token} {list : Parser Declarations}
    (h : Traces list (Items.words f)) (d : Declarations) :
    Traces (do
      match ← accept? .comma with
      | some _ => list
      | none => do
        let _ ← expect .semicolon
        return d : Parser Declarations) (itemsAfter f) :=
  traces_accept?_bind (by decide) (fun _ => h) (fun comma others => .inr (comma, others)) (fun _ _ => rfl)
    ((traces_return (traces_expect (by decide)) _).map .inl fun _ => rfl)

theorem traces_constantList (n : Nat) : ∀ d, Traces (constantList n d) (Items.words Constant.words) := by
  induction n with
  | zero => intro d endLine ts hv; trivial
  | succ n ih =>
    intro d
    refine (traces_bind (traces_expect (by decide)) fun name => traces_bind (traces_expect (by decide)) fun _ =>
      traces_bind traces_literal fun value => traces_itemsAfter (ih _) _).map (fun d => match d with
        | (name, equal, value, .inl semicolon) => .last ⟨name, equal, value⟩ semicolon
        | (name, equal, value, .inr (comma, others)) => .more ⟨name, equal, value⟩ comma others) ?_
    rintro ⟨name, equal, value, _ | _⟩ <;> rfl

theorem traces_variableList (n : Nat) :
    ∀ d, Traces (variableList n d) (Items.words Word.single : Items (Word .ident) → List Token) := by
  induction n with
  | zero => intro d endLine ts hv; trivial
  | succ n ih =>
    intro d
    refine (traces_bind (traces_expect (by decide)) fun name => traces_itemsAfter (ih _) _).map
      (fun d => match d with
        | (name, .inl semicolon) => .last name semicolon
        | (name, .inr (comma, others)) => .more name comma others) ?_
    rintro ⟨name, _ | _⟩ <;> rfl

theorem traces_optionalPart {α : Type} {keyword : TokenKind} (hk : keyword ≠ .eof) {f : α → List Token}
    {list : Declarations → Parser Declarations} (h : ∀ d, Traces (list d) (Items.words f)) (d : Declarations) :
    Traces (optionalPart keyword list d) (partWords f : Option (Word keyword × Items α) → List Token) :=
  traces_accept?_bind hk (fun _ => h d) (fun word items => some (word, items)) (fun _ _ => rfl)
    (traces_pure d none rfl)

theorem traces_declarations (n : Nat) : Traces (declarations n) Declared.words :=
  (traces_bind (traces_optionalPart (by decide) (traces_constantList n) _)
    (traces_optionalPart (by decide) (traces_variableList n))).map (fun d => ⟨d.1, d.2⟩) fun _ => rfl

/-- **The rules of a block** keep to its phrases. -/
theorem traces_block_rules (n : Nat) :
    Traces (block n) Phrase.Block.words ∧ Traces (procedures n) Procedures.words := by
  induction n with
  | zero => constructor <;> intro endLine ts hv <;> trivial
  | succ n ih =>
    obtain ⟨ihb, ihp⟩ := ih
    constructor
    · exact (traces_bind (traces_declarations n) fun _ => traces_bind ihp fun _ =>
        traces_return (traces_statement_rules n).1 _).map (fun d => .mk d.1 d.2.1 d.2.2) fun _ => rfl
    · exact traces_accept?_bind (by decide)
        (fun _ =>
          traces_bind (traces_expect (by decide)) fun _ => traces_bind (traces_expect (by decide)) fun _ =>
          traces_bind ihb fun _ => traces_bind (traces_expect (by decide)) fun _ => traces_return ihp _)
        (fun keyword d => .cons keyword d.1 d.2.1 d.2.2.1 d.2.2.2.1 d.2.2.2.2) (fun _ _ => rfl)
        (traces_pure _ .nil rfl)

/-- **A program that is refused.** What was read is the beginning of a program, and the fault quotes the word
after it. The end of the input belongs to no phrase, so the last words are followed by hand. -/
theorem stops_program {n : Nat} {fault : Fault} (hv : Valued ts)
    (h : (program n).run endLine ts = .failed fault rest) :
    Stops Phrase.Program.words endLine ts fault rest := by
  have hb := (traces_block_rules n).1 endLine ts hv
  rw [program] at h
  cases hrun : (block n).run endLine ts with
  | failed fault' r =>
    rw [run_bind, hrun] at h
    cases h
    rw [hrun] at hb
    obtain ⟨⟨read, missing, d, hts, hd⟩, hq⟩ := hb
    exact ⟨⟨read, missing ++ [(default : Word .dot).token], ⟨d, default⟩, hts,
      by simp [Phrase.Program.words, hd]⟩, hq⟩
  | exhausted =>
    rw [run_bind, hrun] at h
    cases h
  | done b r =>
    rw [run_bind_of_done hrun] at h
    rw [hrun] at hb
    obtain ⟨d, rfl⟩ := hb
    by_cases hdot : (frontOf r).kind = .dot
    · obtain ⟨dot, r', rfl⟩ := exists_word hdot (by decide)
      rw [run_bind_of_done (run_expect_word dot r'), run_bind, run_expect] at h
      by_cases heof : (frontOf r').kind = .eof
      · rw [if_pos heof] at h
        cases h
      · rw [if_neg heof] at h
        cases h
        exact ⟨⟨d.words ++ [dot.token], [], ⟨d, dot⟩, by simp, by simp [Phrase.Program.words]⟩, .unexpected _⟩
    · rw [run_bind, run_expect, if_neg hdot] at h
      cases h
      exact ⟨⟨d.words, [(default : Word .dot).token], ⟨d, default⟩, rfl, rfl⟩, .unexpected _⟩

end Grammar

end PL0
