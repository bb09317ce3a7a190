/-
Reading a program: each rule of the grammar accepts the words of its phrases and nothing else, and gives
their trees. Main statement: the words before the end of the input are read as a program exactly if they are
those of a phrase, which is the only one then, and what is read is its tree (`parseProgram_eq_ok_iff`).
-/
import PL0.Proofs.Phrase.Unique
import PL0.Proofs.Reading.Expression

namespace PL0

open Phrase

namespace Grammar

open PL0.Parser

variable {endLine : Nat} {ts rest : List Token}

/-! ## What is read is a phrase -/

theorem word_of_run_expect {kind : TokenKind} (hk : kind ≠ .eof) {t : Token}
    (h : (expect kind).run endLine ts = .done t rest) :
    ∃ w : Word kind, ts = w.token :: rest ∧ t = w.token := by
  obtain ⟨hf, rfl, rfl⟩ := run_expect_eq_done.1 h
  obtain ⟨w, r, rfl⟩ := exists_word hf hk
  exact ⟨w, rfl, rfl⟩

theorem run_pure_eq_done {α : Type} {a b : α} :
    (pure a : Parser α).run endLine ts = .done b rest ↔ b = a ∧ rest = ts := by
  rw [run_pure, Outcome.done.injEq, eq_comm, @eq_comm _ ts]

theorem phrase_of_run_condition {n : Nat} {c : Condition}
    (h : (condition n).run endLine ts = .done c rest) :
    ∃ d : Phrase.Condition, ts = d.words ++ rest ∧ d.tree = c := by
  rw [condition, run_accept?_bind] at h
  split at h
  · rename_i hk
    obtain ⟨keyword, r, rfl⟩ := exists_word hk (by decide)
    obtain ⟨inner, r₁, h₁, h₂⟩ := run_bind_eq_done.1 h
    obtain ⟨d, hw, rfl⟩ := phrase_of_run_tree h₁
    obtain ⟨rfl, rfl⟩ := run_pure_eq_done.1 h₂
    exact ⟨.odd keyword d, congrArg (keyword.token :: ·) hw, rfl⟩
  · obtain ⟨left, r₁, h₁, h₂⟩ := run_bind_eq_done.1 h
    obtain ⟨dl, rfl, rfl⟩ := phrase_of_run_tree h₁
    rw [run_peek_bind] at h₂
    split at h₂
    · rename_i rel hrel
      have hk := Relation.kind_of_ofKind? hrel
      obtain ⟨w, r, rfl⟩ := exists_word hk (by cases rel <;> decide)
      rw [run_advance_bind] at h₂
      obtain ⟨right, r₂, h₃, h₄⟩ := run_bind_eq_done.1 h₂
      obtain ⟨dr, hw, rfl⟩ := phrase_of_run_tree h₃
      obtain ⟨rfl, rfl⟩ := run_pure_eq_done.1 h₄
      refine ⟨.compare dl ⟨rel, w⟩ dr, ?_, rfl⟩
      rw [List.tail_cons] at hw
      simp [Phrase.Condition.words, hw]
    · cases h₂

/-- What follows the keyword of an `if` or a `while`. -/
theorem phrase_of_run_guarded {n : Nat} {kind : TokenKind} (hk : kind ≠ .eof)
    {f : Condition → Statement → Statement} {s : Statement}
    (ih : ∀ {endLine ts s rest}, (statement n).run endLine ts = .done s rest →
      ∃ d : Phrase.Statement, ts = d.words ++ rest ∧ d.tree = s)
    (h : (do let cond ← condition n; let _ ← expect kind; let body ← statement n
             return f cond body : Parser Statement).run endLine ts = .done s rest) :
    ∃ (cond : Phrase.Condition) (middle : Word kind) (body : Phrase.Statement),
      ts = cond.words ++ middle.token :: (body.words ++ rest) ∧ f cond.tree body.tree = s := by
  obtain ⟨_, r₁, h₁, k₁⟩ := run_bind_eq_done.1 h
  obtain ⟨_, r₂, h₂, k₂⟩ := run_bind_eq_done.1 k₁
  obtain ⟨_, r₃, h₃, k₃⟩ := run_bind_eq_done.1 k₂
  obtain ⟨cond, hc, rfl⟩ := phrase_of_run_condition h₁
  obtain ⟨middle, hm, -⟩ := word_of_run_expect hk h₂
  obtain ⟨body, hb, rfl⟩ := ih h₃
  obtain ⟨rfl, rfl⟩ := run_pure_eq_done.1 k₃
  exact ⟨cond, middle, body, by rw [hc, hm, hb], rfl⟩

mutual

/-- The words that a statement has been read from are those of a phrase. -/
theorem phrase_of_run_statement : ∀ {n endLine : Nat} {ts rest : List Token} {s : Statement},
    (statement n).run endLine ts = .done s rest → ∃ d : Phrase.Statement, ts = d.words ++ rest ∧ d.tree = s
  | n + 1, endLine, ts, rest, s, h => by
    rw [statement, run_peek_bind] at h
    split at h
    case h_1 hk =>
      obtain ⟨name, r, rfl⟩ := exists_word hk (by decide)
      rw [run_advance_bind, List.tail_cons] at h
      obtain ⟨_, r₁, h₁, k₁⟩ := run_bind_eq_done.1 h
      obtain ⟨_, r₂, h₂, k₂⟩ := run_bind_eq_done.1 k₁
      obtain ⟨becomes, rfl, -⟩ := word_of_run_expect (by decide) h₁
      obtain ⟨value, rfl, rfl⟩ := phrase_of_run_tree h₂
      obtain ⟨rfl, rfl⟩ := run_pure_eq_done.1 k₂
      exact ⟨.assign name becomes value, rfl, rfl⟩
    case h_2 hk =>
      obtain ⟨keyword, r, rfl⟩ := exists_word hk (by decide)
      rw [run_advance_bind, List.tail_cons] at h
      obtain ⟨_, r₁, h₁, k₁⟩ := run_bind_eq_done.1 h
      obtain ⟨name, rfl, rfl⟩ := word_of_run_expect (by decide) h₁
      obtain ⟨rfl, rfl⟩ := run_pure_eq_done.1 k₁
      exact ⟨.call keyword name, rfl, rfl⟩
    case h_3 hk =>
      obtain ⟨mark, r, rfl⟩ := exists_word hk (by decide)
      rw [run_advance_bind, List.tail_cons] at h
      obtain ⟨_, r₁, h₁, k₁⟩ := run_bind_eq_done.1 h
      obtain ⟨value, rfl, rfl⟩ := phrase_of_run_tree h₁
      obtain ⟨rfl, rfl⟩ := run_pure_eq_done.1 k₁
      exact ⟨.write mark value, rfl, rfl⟩
    case h_4 hk =>
      obtain ⟨opening, r, rfl⟩ := exists_word hk (by decide)
      rw [run_advance_bind, List.tail_cons] at h
      obtain ⟨_, r₁, h₁, k₁⟩ := run_bind_eq_done.1 h
      obtain ⟨_, r₂, h₂, k₂⟩ := run_bind_eq_done.1 k₁
      obtain ⟨_, r₃, h₃, k₃⟩ := run_bind_eq_done.1 k₂
      obtain ⟨first, rfl, rfl⟩ := phrase_of_run_statement h₁
      obtain ⟨others, rfl, rfl⟩ := phrase_of_run_moreStatements h₂
      obtain ⟨closing, rfl, -⟩ := word_of_run_expect (by decide) h₃
      obtain ⟨rfl, rfl⟩ := run_pure_eq_done.1 k₃
      exact ⟨.compound opening first others closing, by simp [Phrase.Statement.words], rfl⟩
    case h_5 hk =>
      obtain ⟨keyword, r, rfl⟩ := exists_word hk (by decide)
      rw [run_advance_bind, List.tail_cons] at h
      obtain ⟨cond, middle, body, rfl, rfl⟩ := phrase_of_run_guarded (by decide) phrase_of_run_statement h
      exact ⟨.ifThen keyword cond middle body, by simp [Phrase.Statement.words], rfl⟩
    case h_6 hk =>
      obtain ⟨keyword, r, rfl⟩ := exists_word hk (by decide)
      rw [run_advance_bind, List.tail_cons] at h
      obtain ⟨cond, middle, body, rfl, rfl⟩ := phrase_of_run_guarded (by decide) phrase_of_run_statement h
      exact ⟨.whileDo keyword cond middle body, by simp [Phrase.Statement.words], rfl⟩
    case h_7 => cases h

theorem phrase_of_run_moreStatements : ∀ {n endLine : Nat} {ts rest : List Token} {ss : List Statement},
    (moreStatements n).run endLine ts = .done ss rest →
    ∃ d : Phrase.Statements, ts = d.words ++ rest ∧ d.trees = ss
  | n + 1, endLine, ts, rest, ss, h => by
    rw [moreStatements, run_accept?_bind] at h
    split at h
    · rename_i hk
      obtain ⟨semicolon, r, rfl⟩ := exists_word hk (by decide)
      obtain ⟨_, r₁, h₁, k₁⟩ := run_bind_eq_done.1 h
      obtain ⟨_, r₂, h₂, k₂⟩ := run_bind_eq_done.1 k₁
      obtain ⟨first, hf, rfl⟩ := phrase_of_run_statement h₁
      obtain ⟨others, ho, rfl⟩ := phrase_of_run_moreStatements h₂
      obtain ⟨rfl, rfl⟩ := run_pure_eq_done.1 k₂
      refine ⟨.cons semicolon first others, ?_, rfl⟩
      rw [List.tail_cons] at hf
      simp [Phrase.Statements.words, hf, ho]
    · obtain ⟨rfl, rfl⟩ := run_pure_eq_done.1 h
      exact ⟨.nil, rfl, rfl⟩

end

theorem numeral_of_run_literal {v : Int64} (h : literal.run endLine ts = .done v rest) :
    ∃ n : Numeral, ts = n.token :: rest ∧ n.value = v := by
  obtain ⟨t, r, h₁, k₁⟩ := run_bind_eq_done.1 h
  obtain ⟨w, hw, rfl⟩ := word_of_run_expect (by decide) h₁
  split at k₁
  · rename_i value hv
    obtain ⟨rfl, rfl⟩ := run_pure_eq_done.1 k₁
    exact ⟨⟨w.token, v, w.kind_eq, hv⟩, hw, rfl⟩
  · cases k₁

theorem phrase_of_run_constantList (n : Nat) : ∀ {d d' : Declarations} {endLine ts rest},
    (constantList n d).run endLine ts = .done d' rest →
    ∃ items : Items Constant, ts = items.words Constant.words ++ rest ∧
      d' = d.insertAll (items.toList.map Constant.symbol) := by
  induction n with
  | zero => intro d d' endLine ts rest h; cases h
  | succ n ih =>
    intro d d' endLine ts rest h
    rw [constantList] at h
    obtain ⟨_, r₁, h₁, k₁⟩ := run_bind_eq_done.1 h
    obtain ⟨_, r₂, h₂, k₂⟩ := run_bind_eq_done.1 k₁
    obtain ⟨_, r₃, h₃, k₃⟩ := run_bind_eq_done.1 k₂
    obtain ⟨name, hn, rfl⟩ := word_of_run_expect (by decide) h₁
    obtain ⟨equal, he, -⟩ := word_of_run_expect (by decide) h₂
    obtain ⟨value, hv, rfl⟩ := numeral_of_run_literal h₃
    rw [run_accept?_bind] at k₃
    split at k₃
    · rename_i hk
      obtain ⟨comma, r, rfl⟩ := exists_word hk (by decide)
      obtain ⟨others, ho, rfl⟩ := ih k₃
      rw [List.tail_cons] at ho
      exact ⟨.more ⟨name, equal, value⟩ comma others,
        by simp [Items.words, Constant.words, hn, he, hv, ho], rfl⟩
    · obtain ⟨_, r₄, h₄, k₄⟩ := run_bind_eq_done.1 k₃
      obtain ⟨semicolon, hs, -⟩ := word_of_run_expect (by decide) h₄
      obtain ⟨rfl, rfl⟩ := run_pure_eq_done.1 k₄
      exact ⟨.last ⟨name, equal, value⟩ semicolon,
        by simp [Items.words, Constant.words, hn, he, hv, hs], rfl⟩

theorem phrase_of_run_variableList (n : Nat) : ∀ {d d' : Declarations} {endLine ts rest},
    (variableList n d).run endLine ts = .done d' rest →
    ∃ items : Items (Word .ident), ts = items.words Word.single ++ rest ∧
      d' = d.insertAll (items.toList.map Word.variable) := by
  induction n with
  | zero => intro d d' endLine ts rest h; cases h
  | succ n ih =>
    intro d d' endLine ts rest h
    rw [variableList] at h
    obtain ⟨_, r₁, h₁, k₁⟩ := run_bind_eq_done.1 h
    obtain ⟨name, hn, rfl⟩ := word_of_run_expect (by decide) h₁
    rw [run_accept?_bind] at k₁
    split at k₁
    · rename_i hk
      obtain ⟨comma, r, rfl⟩ := exists_word hk (by decide)
      obtain ⟨others, ho, rfl⟩ := ih k₁
      rw [List.tail_cons] at ho
      exact ⟨.more name comma others, by simp [Items.words, Word.single, hn, ho], rfl⟩
    · obtain ⟨_, r₂, h₂, k₂⟩ := run_bind_eq_done.1 k₁
      obtain ⟨semicolon, hs, -⟩ := word_of_run_expect (by decide) h₂
      obtain ⟨rfl, rfl⟩ := run_pure_eq_done.1 k₂
      exact ⟨.last name semicolon, by simp [Items.words, Word.single, hn, hs], rfl⟩

theorem part_of_run_optionalPart {α : Type} {keyword : TokenKind} (hk : keyword ≠ .eof) {f : α → List Token}
    {symbol : α → Symbol} {list : Declarations → Parser Declarations}
    (hl : ∀ {d d' : Declarations} {endLine ts rest}, (list d).run endLine ts = .done d' rest →
      ∃ items : Items α, ts = items.words f ++ rest ∧ d' = d.insertAll (items.toList.map symbol))
    {d d' : Declarations} (h : (optionalPart keyword list d).run endLine ts = .done d' rest) :
    ∃ part : Option (Word keyword × Items α), ts = partWords f part ++ rest ∧
      d' = d.insertAll ((partItems part).map symbol) := by
  rw [optionalPart, run_accept?_bind] at h
  split at h
  · rename_i hf
    obtain ⟨word, r, rfl⟩ := exists_word hf hk
    obtain ⟨items, hi, rfl⟩ := hl h
    exact ⟨some (word, items), congrArg (word.token :: ·) hi, rfl⟩
  · obtain ⟨rfl, rfl⟩ := run_pure_eq_done.1 h
    exact ⟨none, rfl, rfl⟩

theorem phrase_of_run_declarations {n : Nat} {d : Declarations}
    (h : (declarations n).run endLine ts = .done d rest) :
    ∃ p : Declared, ts = p.words ++ rest ∧ d = .settled p.symbols := by
  obtain ⟨_, r₁, h₁, k₁⟩ := run_bind_eq_done.1 h
  obtain ⟨consts, hc, rfl⟩ := part_of_run_optionalPart (by decide) (phrase_of_run_constantList n) h₁
  obtain ⟨vars, hv, rfl⟩ := part_of_run_optionalPart (by decide) (phrase_of_run_variableList n) k₁
  refine ⟨⟨consts, vars⟩, by rw [Declared.words, List.append_assoc, hc, hv], ?_⟩
  rw [← Declarations.insertAll_append, ← Declarations.ofList_eq_settled]
  rfl

mutual

/-- The words that a block has been read from are those of a phrase. -/
theorem phrase_of_run_block : ∀ {n endLine : Nat} {ts rest : List Token} {b : Block},
    (block n).run endLine ts = .done b rest → ∃ d : Phrase.Block, ts = d.words ++ rest ∧ d.tree = b
  | n + 1, endLine, ts, rest, b, h => by
    rw [block] at h
    obtain ⟨_, r₁, h₁, k₁⟩ := run_bind_eq_done.1 h
    obtain ⟨_, r₂, h₂, k₂⟩ := run_bind_eq_done.1 k₁
    obtain ⟨_, r₃, h₃, k₃⟩ := run_bind_eq_done.1 k₂
    obtain ⟨declared, hd, rfl⟩ := phrase_of_run_declarations h₁
    obtain ⟨procedures, hp, rfl⟩ := phrase_of_run_procedures h₂
    obtain ⟨statement, hs, rfl⟩ := phrase_of_run_statement h₃
    obtain ⟨rfl, rfl⟩ := run_pure_eq_done.1 k₃
    exact ⟨.mk declared procedures statement, by simp [Phrase.Block.words, hd, hp, hs], rfl⟩

theorem phrase_of_run_procedures : ∀ {n endLine : Nat} {ts rest : List Token} {ps : List Procedure},
    (procedures n).run endLine ts = .done ps rest →
    ∃ d : Phrase.Procedures, ts = d.words ++ rest ∧ d.trees = ps
  | n + 1, endLine, ts, rest, ps, h => by
    rw [procedures, run_accept?_bind] at h
    split at h
    · rename_i hk
      obtain ⟨keyword, r, rfl⟩ := exists_word hk (by decide)
      obtain ⟨_, r₁, h₁, k₁⟩ := run_bind_eq_done.1 h
      obtain ⟨_, r₂, h₂, k₂⟩ := run_bind_eq_done.1 k₁
      obtain ⟨_, r₃, h₃, k₃⟩ := run_bind_eq_done.1 k₂
      obtain ⟨_, r₄, h₄, k₄⟩ := run_bind_eq_done.1 k₃
      obtain ⟨_, r₅, h₅, k₅⟩ := run_bind_eq_done.1 k₄
      obtain ⟨name, hn, rfl⟩ := word_of_run_expect (by decide) h₁
      obtain ⟨semicolon, hs, -⟩ := word_of_run_expect (by decide) h₂
      obtain ⟨body, hb, rfl⟩ := phrase_of_run_block h₃
      obtain ⟨closing, hc, -⟩ := word_of_run_expect (by decide) h₄
      obtain ⟨others, ho, rfl⟩ := phrase_of_run_procedures h₅
      obtain ⟨rfl, rfl⟩ := run_pure_eq_done.1 k₅
      refine ⟨.cons keyword name semicolon body closing others, ?_, rfl⟩
      rw [List.tail_cons] at hn
      simp [Phrase.Procedures.words, hn, hs, hb, hc, ho]
    · obtain ⟨rfl, rfl⟩ := run_pure_eq_done.1 h
      exact ⟨.nil, rfl, rfl⟩

end

theorem phrase_of_run_program {n : Nat} {p : Program} (h : (program n).run endLine ts = .done p rest) :
    ∃ (d : Phrase.Program) (r : List Token), ts = d.words ++ r ∧ (frontOf r).kind = .eof ∧ d.tree = p := by
  obtain ⟨_, r₁, h₁, k₁⟩ := run_bind_eq_done.1 h
  obtain ⟨_, r₂, h₂, k₂⟩ := run_bind_eq_done.1 k₁
  obtain ⟨_, r₃, h₃, k₃⟩ := run_bind_eq_done.1 k₂
  obtain ⟨block, hb, rfl⟩ := phrase_of_run_block h₁
  obtain ⟨dot, hd, -⟩ := word_of_run_expect (by decide) h₂
  obtain ⟨he, -, -⟩ := run_expect_eq_done.1 h₃
  obtain ⟨rfl, rfl⟩ := run_pure_eq_done.1 k₃
  exact ⟨⟨block, dot⟩, r₂, by simp [Phrase.Program.words, hb, hd], he, rfl⟩

/-! ## A phrase is read -/

theorem run_condition (d : Phrase.Condition) {n : Nat} (hn : 3 * d.words.length + 3 ≤ n)
    (hr : Ends expressionKinds rest) :
    (condition n).run endLine (d.words ++ rest) = .done d.tree rest := by
  cases d with
  | odd keyword inner =>
    simp only [Phrase.Condition.words, List.length_cons] at hn
    rw [condition, run_accept?_bind, Phrase.Condition.words, List.cons_append, frontOf_cons,
      if_pos keyword.kind_eq]
    exact run_bind_of_done (run_tree inner (by omega) hr) _
  | compare left comparator right =>
    simp only [Phrase.Condition.words, List.length_append, List.length_cons] at hn
    have hf : (frontOf (left.words ++ (comparator.word.token :: right.words ++ rest))).kind ≠ .oddKw := by
      intro he
      have hm := left.front (comparator.word.token :: right.words ++ rest)
      rw [he] at hm
      exact absurd hm (by decide)
    rw [condition, run_accept?_bind, Phrase.Condition.words, List.append_assoc, if_neg hf]
    refine (run_bind_of_done (run_tree left (by omega) (comparator.ends _)) _).trans ?_
    simp only [run_peek_bind, frontOf_cons, comparator.word.kind_eq,
      Relation.ofKind?_kind, run_advance_bind, List.tail_cons]
    exact run_bind_of_done (run_tree right (by omega) hr) _

/-- What follows the keyword of an `if` or a `while`. -/
theorem run_guarded {n : Nat} {kind : TokenKind} (hk : kind ∉ expressionKinds)
    (f : Condition → Statement → Statement) (cond : Phrase.Condition) (middle : Word kind)
    {body : Phrase.Statement} (hn : 3 * cond.words.length + 3 ≤ n)
    (hb : (statement n).run endLine (body.words ++ rest) = .done body.tree rest) :
    (do let cond ← condition n; let _ ← expect kind; let body ← statement n
        return f cond body : Parser Statement).run endLine
      (cond.words ++ middle.token :: (body.words ++ rest)) = .done (f cond.tree body.tree) rest := by
  rw [run_bind_of_done (run_condition cond hn (middle.ends hk _)),
    run_bind_of_done (run_expect_word middle _)]
  exact run_bind_of_done hb _

mutual

theorem run_statement : ∀ (d : Phrase.Statement) {n endLine : Nat} {rest : List Token},
    3 * d.words.length + 3 ≤ n → Ends expressionKinds rest →
    (statement n).run endLine (d.words ++ rest) = .done d.tree rest
  | .assign name becomes value, n + 1, endLine, rest, hn, hr => by
    simp only [Phrase.Statement.words, List.length_cons] at hn
    rw [statement, run_peek_bind]
    simp only [Phrase.Statement.words, List.cons_append, frontOf_cons, name.kind_eq, run_advance_bind,
      List.tail_cons]
    rw [run_bind_of_done (run_expect_word becomes _)]
    exact run_bind_of_done (run_tree value (by omega) hr) _
  | .call keyword name, n + 1, endLine, rest, hn, hr => by
    rw [statement, run_peek_bind]
    simp only [Phrase.Statement.words, List.cons_append, List.nil_append, frontOf_cons,
      keyword.kind_eq, run_advance_bind, List.tail_cons]
    exact run_bind_of_done (run_expect_word name _) _
  | .write mark value, n + 1, endLine, rest, hn, hr => by
    simp only [Phrase.Statement.words, List.length_cons] at hn
    rw [statement, run_peek_bind]
    simp only [Phrase.Statement.words, List.cons_append, frontOf_cons, mark.kind_eq, run_advance_bind,
      List.tail_cons]
    exact run_bind_of_done (run_tree value (by omega) hr) _
  | .compound opening first others closing, n + 1, endLine, rest, hn, hr => by
    simp only [Phrase.Statement.words, List.length_cons, List.length_append, List.length_nil] at hn
    have he : Ends (.semicolon :: expressionKinds) (closing.token :: rest) := closing.ends (by decide) _
    have hf : (statement n).run endLine (first.words ++ (others.words ++ closing.token :: rest)) = _ :=
      run_statement first (by omega) (others.ends (by decide) (closing.ends (by decide) _))
    rw [statement, run_peek_bind]
    simp only [Phrase.Statement.words, List.cons_append, List.append_assoc, List.nil_append, frontOf_cons,
      opening.kind_eq, run_advance_bind, List.tail_cons]
    rw [run_bind_of_done hf, run_bind_of_done (run_moreStatements others (by omega) he)]
    exact run_bind_of_done (run_expect_word closing _) _
  | .ifThen keyword cond thenWord body, n + 1, endLine, rest, hn, hr => by
    simp only [Phrase.Statement.words, List.length_cons, List.length_append] at hn
    have hb : (statement n).run endLine (body.words ++ rest) = _ := run_statement body (by omega) hr
    rw [statement, run_peek_bind]
    simp only [Phrase.Statement.words, List.cons_append, List.append_assoc, frontOf_cons, keyword.kind_eq,
      run_advance_bind, List.tail_cons]
    exact run_guarded (by decide) .ifThen cond thenWord (by omega) hb
  | .whileDo keyword cond doWord body, n + 1, endLine, rest, hn, hr => by
    simp only [Phrase.Statement.words, List.length_cons, List.length_append] at hn
    have hb : (statement n).run endLine (body.words ++ rest) = _ := run_statement body (by omega) hr
    rw [statement, run_peek_bind]
    simp only [Phrase.Statement.words, List.cons_append, List.append_assoc, frontOf_cons, keyword.kind_eq,
      run_advance_bind, List.tail_cons]
    exact run_guarded (by decide) .whileDo cond doWord (by omega) hb

theorem run_moreStatements : ∀ (d : Phrase.Statements) {n endLine : Nat} {rest : List Token},
    3 * d.words.length + 3 ≤ n → Ends (.semicolon :: expressionKinds) rest →
    (moreStatements n).run endLine (d.words ++ rest) = .done d.trees rest
  | .nil, n + 1, endLine, rest, hn, hr => by
    rw [moreStatements, run_accept?_bind]
    exact if_neg fun hk => hr (List.mem_cons.2 (.inl hk))
  | .cons semicolon first others, n + 1, endLine, rest, hn, hr => by
    simp only [Phrase.Statements.words, List.length_cons, List.length_append] at hn
    have hf : (statement n).run endLine (first.words ++ (others.words ++ rest)) = _ :=
      run_statement first (by omega) (others.ends (by decide) (hr.mono (List.subset_cons_self _ _)))
    rw [moreStatements, run_accept?_bind, Phrase.Statements.words, List.cons_append, frontOf_cons,
      if_pos semicolon.kind_eq, List.tail_cons, List.append_assoc, run_bind_of_done hf]
    exact run_bind_of_done (run_moreStatements others (by omega) hr) _

end

theorem run_literal (value : Numeral) :
    literal.run endLine (value.token :: rest) = .done value.value rest := by
  have h : (expect .number).run endLine (value.token :: rest) = .done value.token rest :=
    run_expect_eq_done.2 ⟨value.kind_eq, rfl, rfl⟩
  rw [literal, run_bind_of_done h, value.value_eq]
  rfl

theorem run_constantList (items : Items Constant) : ∀ {n : Nat} {d : Declarations},
    (items.words Constant.words).length + 1 ≤ n →
    (constantList n d).run endLine (items.words Constant.words ++ rest) =
      .done (d.insertAll (items.toList.map Constant.symbol)) rest := by
  induction items with
  | last c semicolon =>
    intro n d hn
    obtain ⟨n, rfl⟩ : ∃ m, n = m + 1 := ⟨n - 1, by omega⟩
    simp only [Items.words, Constant.words, List.cons_append, List.nil_append]
    rw [constantList, run_bind_of_done (run_expect_word c.name _),
      run_bind_of_done (run_expect_word c.equal _), run_bind_of_done (run_literal c.value),
      run_accept?_bind, if_neg (by simp [semicolon.kind_eq])]
    exact run_bind_of_done (run_expect_word semicolon _) _
  | more c comma others ih =>
    intro n d hn
    obtain ⟨n, rfl⟩ : ∃ m, n = m + 1 := ⟨n - 1, by omega⟩
    simp only [Items.words, Constant.words, List.cons_append, List.nil_append, List.length_cons] at hn ⊢
    rw [constantList, run_bind_of_done (run_expect_word c.name _),
      run_bind_of_done (run_expect_word c.equal _), run_bind_of_done (run_literal c.value),
      run_accept?_bind, frontOf_cons, if_pos comma.kind_eq]
    exact ih (by omega)

theorem run_variableList (items : Items (Word .ident)) : ∀ {n : Nat} {d : Declarations},
    (items.words Word.single).length + 1 ≤ n →
    (variableList n d).run endLine (items.words Word.single ++ rest) =
      .done (d.insertAll (items.toList.map Word.variable)) rest := by
  induction items with
  | last name semicolon =>
    intro n d hn
    obtain ⟨n, rfl⟩ : ∃ m, n = m + 1 := ⟨n - 1, by omega⟩
    simp only [Items.words, Word.single, List.cons_append, List.nil_append]
    rw [variableList, run_bind_of_done (run_expect_word name _), run_accept?_bind,
      if_neg (by simp [semicolon.kind_eq])]
    exact run_bind_of_done (run_expect_word semicolon _) _
  | more name comma others ih =>
    intro n d hn
    obtain ⟨n, rfl⟩ : ∃ m, n = m + 1 := ⟨n - 1, by omega⟩
    simp only [Items.words, Word.single, List.cons_append, List.nil_append, List.length_cons] at hn ⊢
    rw [variableList, run_bind_of_done (run_expect_word name _), run_accept?_bind, frontOf_cons,
      if_pos comma.kind_eq]
    exact ih (by omega)

theorem run_optionalPart {α : Type} {keyword : TokenKind} {f : α → List Token} {symbol : α → Symbol}
    {list : Declarations → Parser Declarations} {d : Declarations} (part : Option (Word keyword × Items α))
    (hl : ∀ items : Items α, (items.words f).length + 1 ≤ (partWords f part).length →
      (list d).run endLine (items.words f ++ rest) = .done (d.insertAll (items.toList.map symbol)) rest)
    (hr : Ends [keyword] rest) :
    (optionalPart keyword list d).run endLine (partWords f part ++ rest) =
      .done (d.insertAll ((partItems part).map symbol)) rest := by
  rw [optionalPart, run_accept?_bind]
  cases part with
  | none => exact if_neg fun hk => hr (List.mem_singleton.2 hk)
  | some part =>
    obtain ⟨word, items⟩ := part
    exact (if_pos word.kind_eq).trans (hl items (Nat.le_refl _))

theorem run_declarations (p : Declared) {n : Nat} (hn : p.words.length + 1 ≤ n)
    (hr : Ends [.constKw, .varKw] rest) :
    (declarations n).run endLine (p.words ++ rest) = .done (.settled p.symbols) rest := by
  simp only [Declared.words, List.length_append] at hn
  have hv : Ends [.varKw] rest := hr.mono (by simp)
  have hc : Ends [.constKw] (partWords Word.single p.vars ++ rest) :=
    partWords_ends _ _ (by decide) (hr.mono (by simp))
  have hconsts : (optionalPart .constKw (constantList n) .empty).run endLine
      (partWords Constant.words p.consts ++ (partWords Word.single p.vars ++ rest)) = _ :=
    run_optionalPart p.consts (fun items hi => run_constantList items (by omega)) hc
  rw [declarations, Declared.words, List.append_assoc, run_bind_of_done hconsts]
  refine (run_optionalPart p.vars (fun items hi => run_variableList items (by omega)) hv).trans ?_
  rw [← Declarations.insertAll_append, ← Declarations.ofList_eq_settled]
  rfl

mutual

theorem run_block : ∀ (d : Phrase.Block) {n endLine : Nat} {rest : List Token},
    3 * d.words.length + 4 ≤ n → Ends expressionKinds rest →
    (block n).run endLine (d.words ++ rest) = .done d.tree rest
  | .mk declared procedures statement, n + 1, endLine, rest, hn, hr => by
    simp only [Phrase.Block.words, List.length_append] at hn
    rw [block, Phrase.Block.words, List.append_assoc, List.append_assoc,
      run_bind_of_done (run_declarations declared (by omega) (procedures.ends _ _)),
      run_bind_of_done (run_procedures procedures (by omega) (statement.ends _))]
    exact run_bind_of_done (run_statement statement (by omega) hr) _

theorem run_procedures : ∀ (d : Procedures) {n endLine : Nat} {rest : List Token},
    3 * d.words.length + 3 ≤ n → Ends [.procedureKw] rest →
    (procedures n).run endLine (d.words ++ rest) = .done d.trees rest
  | .nil, n + 1, endLine, rest, hn, hr => by
    rw [procedures, run_accept?_bind]
    exact if_neg fun hk => hr (List.mem_singleton.2 hk)
  | .cons keyword name semicolon body closing others, n + 1, endLine, rest, hn, hr => by
    simp only [Procedures.words, List.length_cons, List.length_append] at hn
    have hb : (block n).run endLine (body.words ++ closing.token :: (others.words ++ rest)) = _ :=
      run_block body (by omega) (closing.ends (by decide) _)
    rw [procedures, run_accept?_bind]
    simp only [Procedures.words, List.cons_append, List.append_assoc, frontOf_cons, List.tail_cons]
    rw [if_pos keyword.kind_eq, run_bind_of_done (run_expect_word name _),
      run_bind_of_done (run_expect_word semicolon _), run_bind_of_done hb,
      run_bind_of_done (run_expect_word closing _)]
    exact run_bind_of_done (run_procedures others (by omega) hr) _

end

theorem run_program (d : Phrase.Program) {n : Nat} (hn : 3 * d.words.length + 4 ≤ n)
    (hr : (frontOf rest).kind = .eof) :
    (program n).run endLine (d.words ++ rest) = .done d.tree rest.tail := by
  simp only [Phrase.Program.words, List.length_append] at hn
  have hb : (block n).run endLine (d.block.words ++ d.dot.token :: rest) = _ :=
    run_block d.block (by omega) (d.dot.ends (by decide) rest)
  rw [program, Phrase.Program.words, List.append_assoc, List.singleton_append, run_bind_of_done hb,
    run_bind_of_done (run_expect_word d.dot _)]
  exact run_bind_of_done (run_expect_eq_done.2 ⟨hr, rfl, rfl⟩) _

end Grammar

/-! ## Whole texts -/

open Grammar

theorem phrase_of_parseProgram {ts : List Token} {p : Program} (h : parseProgram ts = .ok p) :
    ∃ d : Phrase.Program, d.words = beforeEnd ts ∧ d.tree = p := by
  obtain ⟨rest, h⟩ := Outcome.settle_eq_ok.1 h
  obtain ⟨d, r, hw, hr, he⟩ := phrase_of_run_program h
  refine ⟨d, ?_, he⟩
  rw [show ts = d.words ++ r from hw, beforeEnd_append d.kind_ne_eof hr]

theorem parseProgram_of_phrase (d : Phrase.Program) {ts : List Token} (h : d.words = beforeEnd ts) :
    parseProgram ts = .ok d.tree := by
  obtain ⟨rest, hts, hr⟩ := exists_beforeEnd_append ts
  rw [← h] at hts
  refine Outcome.settle_eq_ok.2 ⟨rest.tail, ?_⟩
  have hn : 3 * d.words.length + 4 ≤ (Cursor.ofTokens ts).bound := by
    have := congrArg List.length hts
    simp only [List.length_append] at this
    simp only [Cursor.bound, Cursor.ofTokens]
    omega
  have hrun : (program _).run (Cursor.ofTokens ts).endLine (d.words ++ rest) = _ := run_program d hn hr
  rwa [← hts] at hrun

/-- **Reading a program.** The words before the end of the input are read as a program exactly if they are
the words of a phrase, which is the only one then, and the result is the tree of the phrase. All other words
are refused. -/
theorem parseProgram_eq_ok_iff (ts : List Token) :
    (∀ p, parseProgram ts = .ok p ↔ ∃ d : Phrase.Program, d.words = beforeEnd ts ∧ d.tree = p ∧
      ∀ d' : Phrase.Program, d'.words = beforeEnd ts → d' = d) ∧
    ((¬∃ d : Phrase.Program, d.words = beforeEnd ts) → ∃ fault, parseProgram ts = .error fault) := by
  refine ⟨fun p => ⟨fun h => ?_, fun ⟨d, hw, he, _⟩ => he ▸ parseProgram_of_phrase d hw⟩, fun h => ?_⟩
  · obtain ⟨d, hw, he⟩ := phrase_of_parseProgram h
    exact ⟨d, hw, he, fun d' hw' => Phrase.Program.words_inj (hw'.trans hw.symm)⟩
  · cases hp : parseProgram ts with
    | ok p =>
      obtain ⟨d, hw, -⟩ := phrase_of_parseProgram hp
      exact absurd ⟨d, hw⟩ h
    | error fault => exact ⟨fault, rfl⟩

end PL0
