/-
How far reading looks ahead: one word. Where a rule stops before a word, it stops there in the same way whatever
stands after that word, and a larger bound on its recursion changes nothing. Both are said at once by
`Parser.Follows`, which every way of putting parsers together keeps. Main statement: `follows_program`.
-/
import PL0.Grammar

namespace PL0

namespace Parser

variable {α β : Type}

/-- Where `p` stops before a word, `q` stops there in the same way, whatever stands after the word. -/
structure Follows (q p : Parser α) : Prop where
  done : ∀ {endLine ts a t rest}, p.run endLine ts = .done a (t :: rest) →
    ∃ read, ts = read ++ t :: rest ∧
      ∀ endLine' rest', q.run endLine' (read ++ t :: rest') = .done a (t :: rest')
  failed : ∀ {endLine ts fault t rest}, p.run endLine ts = .failed fault (t :: rest) →
    ∃ read, ts = read ++ t :: rest ∧
      ∀ endLine' rest', ∃ fault', q.run endLine' (read ++ t :: rest') = .failed fault' (t :: rest')

/-- Words that go on with the same word begin with the same word. -/
theorem exists_front (read : List Token) (t : Token) (rest : List Token) :
    ∃ u more, read ++ t :: rest = u :: more ∧ ∀ rest', ∃ more', read ++ t :: rest' = u :: more' := by
  cases read with
  | nil => exact ⟨t, rest, rfl, fun rest' => ⟨rest', rfl⟩⟩
  | cons u read => exact ⟨u, read ++ t :: rest, rfl, fun rest' => ⟨read ++ t :: rest', rfl⟩⟩

theorem follows_pure (a : α) : Follows (pure a : Parser α) (pure a) where
  done h := by
    cases h
    exact ⟨[], rfl, fun _ _ => rfl⟩
  failed h := by cases h

theorem follows_fail (fault : Fault) : Follows (fail fault : Parser α) (fail fault) where
  done h := by cases h
  failed h := by
    cases h
    exact ⟨[], rfl, fun _ _ => ⟨fault, rfl⟩⟩

theorem follows_ofExcept (r : Except Fault α) : Follows (ofExcept r) (ofExcept r) := by
  cases r with
  | ok a => exact follows_pure a
  | error fault => exact follows_fail fault

theorem follows_refuse (reason : String → Nat → Fault) :
    Follows (refuse reason : Parser α) (refuse reason) where
  done h := by cases h
  failed h := by
    cases h
    exact ⟨[], rfl, fun _ _ => ⟨_, rfl⟩⟩

/-- Nothing is asked of what follows a parser that meets its bound. -/
theorem follows_exhausted (q : Parser α) : Follows q exhausted where
  done h := by cases h
  failed h := by cases h

theorem follows_peek : Follows peek peek where
  done h := by
    cases h
    exact ⟨[], rfl, fun _ _ => rfl⟩
  failed h := by cases h

theorem follows_advance : Follows advance advance where
  done {endLine ts a t rest} h := by
    cases ts with
    | nil => cases h
    | cons u us =>
      cases h
      exact ⟨[u], rfl, fun _ _ => rfl⟩
  failed h := by cases h

theorem follows_accept? (kind : TokenKind) : Follows (accept? kind) (accept? kind) where
  done {endLine ts a t rest} h := by
    by_cases hk : (frontOf ts).kind = kind
    · simp only [accept?, if_pos hk] at h
      cases ts with
      | nil => cases h
      | cons u us =>
        cases h
        exact ⟨[u], rfl, fun _ _ => if_pos hk⟩
    · simp only [accept?, if_neg hk] at h
      cases h
      exact ⟨[], rfl, fun _ _ => if_neg hk⟩
  failed {endLine ts fault t rest} h := by
    by_cases hk : (frontOf ts).kind = kind
    · simp only [accept?, if_pos hk] at h
      cases h
    · simp only [accept?, if_neg hk] at h
      cases h

/-- One parser after another. What stands after the word at which the first stops begins with that word also
when the second has read on from there. -/
theorem follows_bind {q p : Parser α} {g f : α → Parser β} (hp : Follows q p) (hf : ∀ a, Follows (g a) (f a)) :
    Follows (q >>= g) (p >>= f) where
  done {endLine ts b t rest} h := by
    rw [run_bind] at h
    cases h₁ : p.run endLine ts with
    | done a r =>
      rw [h₁] at h
      obtain ⟨read₂, rfl, h₂⟩ := (hf a).done h
      obtain ⟨u, more, hu, hmore⟩ := exists_front read₂ t rest
      rw [hu] at h₁
      obtain ⟨read₁, rfl, hq⟩ := hp.done h₁
      refine ⟨read₁ ++ read₂, by rw [← hu, List.append_assoc], fun endLine' rest' => ?_⟩
      obtain ⟨more', hu'⟩ := hmore rest'
      rw [List.append_assoc, run_bind, hu', hq endLine' more', Outcome.andThen, ← hu']
      exact h₂ endLine' rest'
    | failed fault r => rw [h₁] at h; cases h
    | exhausted => rw [h₁] at h; cases h
  failed {endLine ts fault t rest} h := by
    rw [run_bind] at h
    cases h₁ : p.run endLine ts with
    | done a r =>
      rw [h₁] at h
      obtain ⟨read₂, rfl, h₂⟩ := (hf a).failed h
      obtain ⟨u, more, hu, hmore⟩ := exists_front read₂ t rest
      rw [hu] at h₁
      obtain ⟨read₁, rfl, hq⟩ := hp.done h₁
      refine ⟨read₁ ++ read₂, by rw [← hu, List.append_assoc], fun endLine' rest' => ?_⟩
      obtain ⟨more', hu'⟩ := hmore rest'
      rw [List.append_assoc, run_bind, hu', hq endLine' more', Outcome.andThen, ← hu']
      exact h₂ endLine' rest'
    | failed fault' r =>
      rw [h₁] at h
      cases h
      obtain ⟨read, hts, hq⟩ := hp.failed h₁
      refine ⟨read, hts, fun endLine' rest' => ?_⟩
      obtain ⟨fault', hq⟩ := hq endLine' rest'
      exact ⟨fault', by rw [run_bind, hq]; rfl⟩
    | exhausted => rw [h₁] at h; cases h

theorem follows_expect (kind : TokenKind) : Follows (expect kind) (expect kind) := by
  refine follows_bind (follows_accept? kind) fun found => ?_
  cases found with
  | some t => exact follows_pure t
  | none => exact follows_refuse _

end Parser

namespace Grammar

open PL0.Parser

/-! ## Expressions -/

theorem follows_feed (y : Yard) (t : Token) : Follows (feed y t) (feed y t) := by
  unfold feed
  split
  · exact follows_pure _
  · exact follows_fail _

theorem follows_leadingSign (y : Yard) : Follows (leadingSign y) (leadingSign y) := by
  refine follows_bind follows_peek fun t => ?_
  split
  · exact follows_bind follows_advance fun _ => follows_feed y _
  · exact follows_pure y

/-- **The rules of an expression** look one word ahead. -/
theorem follows_expression_rules (n : Nat) : ∀ m, n ≤ m →
    (∀ y, Follows (expression m y) (expression n y)) ∧ (∀ y, Follows (moreTerms m y) (moreTerms n y)) ∧
    (∀ y, Follows (term m y) (term n y)) ∧ (∀ y, Follows (moreFactors m y) (moreFactors n y)) ∧
    (∀ y, Follows (factor m y) (factor n y)) := by
  induction n with
  | zero =>
    intro m _
    refine ⟨fun y => ?_, fun y => ?_, fun y => ?_, fun y => ?_, fun y => ?_⟩ <;> exact follows_exhausted _
  | succ n ih =>
    intro m hm
    obtain ⟨m, rfl⟩ : ∃ k, m = k + 1 := ⟨m - 1, by omega⟩
    obtain ⟨ihe, ihmt, iht, ihmf, ihf⟩ := ih m (by omega)
    refine ⟨fun y => ?_, fun y => ?_, fun y => ?_, fun y => ?_, fun y => ?_⟩
    · exact follows_bind (follows_leadingSign y) fun y => follows_bind (iht y) ihmt
    · refine follows_bind follows_peek fun t => ?_
      split
      case h_1 | h_2 =>
        exact follows_bind follows_advance fun t => follows_bind (follows_feed y t) fun y =>
          follows_bind (iht y) ihmt
      case h_3 => exact follows_pure y
    · exact follows_bind (ihf y) ihmf
    · refine follows_bind follows_peek fun t => ?_
      split
      case h_1 | h_2 =>
        exact follows_bind follows_advance fun t => follows_bind (follows_feed y t) fun y =>
          follows_bind (ihf y) ihmf
      case h_3 => exact follows_pure y
    · refine follows_bind follows_peek fun t => ?_
      split
      case h_1 | h_2 => exact follows_bind follows_advance fun t => follows_feed y t
      case h_3 =>
        refine follows_bind follows_advance fun t => follows_bind (follows_feed y t) fun y =>
          follows_bind (ihe y) fun y => follows_bind (follows_accept? .rparen) fun found => ?_
        cases found with
        | some close => exact follows_feed y close
        | none => exact follows_refuse _
      case h_4 => exact follows_refuse _

variable {n m : Nat}

theorem follows_tree (h : n ≤ m) : Follows (tree m) (tree n) :=
  follows_bind ((follows_expression_rules n m h).1 .initial) fun y => follows_ofExcept y.finish

/-! ## Conditions and statements -/

theorem follows_condition (h : n ≤ m) : Follows (condition m) (condition n) := by
  refine follows_bind (follows_accept? .oddKw) fun found => ?_
  cases found with
  | some keyword => exact follows_bind (follows_tree h) fun _ => follows_pure _
  | none =>
    refine follows_bind (follows_tree h) fun left => follows_bind follows_peek fun t => ?_
    split
    · exact follows_bind follows_advance fun _ => follows_bind (follows_tree h) fun _ => follows_pure _
    · exact follows_refuse _

/-- **The rules of a statement** look one word ahead. -/
theorem follows_statement_rules (n : Nat) : ∀ m, n ≤ m →
    Follows (statement m) (statement n) ∧ Follows (moreStatements m) (moreStatements n) := by
  induction n with
  | zero => exact fun m _ => ⟨follows_exhausted _, follows_exhausted _⟩
  | succ n ih =>
    intro m hm
    obtain ⟨m, rfl⟩ : ∃ k, m = k + 1 := ⟨m - 1, by omega⟩
    have hnm : n ≤ m := by omega
    obtain ⟨ihs, ihms⟩ := ih m hnm
    constructor
    · refine follows_bind follows_peek fun t => ?_
      split
      case h_1 =>
        exact follows_bind follows_advance fun _ => follows_bind (follows_expect _) fun _ =>
          follows_bind (follows_tree hnm) fun _ => follows_pure _
      case h_2 =>
        exact follows_bind follows_advance fun _ => follows_bind (follows_expect _) fun _ => follows_pure _
      case h_3 =>
        exact follows_bind follows_advance fun _ => follows_bind (follows_tree hnm) fun _ => follows_pure _
      case h_4 =>
        exact follows_bind follows_advance fun _ => follows_bind ihs fun _ => follows_bind ihms fun _ =>
          follows_bind (follows_expect _) fun _ => follows_pure _
      case h_5 | h_6 =>
        exact follows_bind follows_advance fun _ => follows_bind (follows_condition hnm) fun _ =>
          follows_bind (follows_expect _) fun _ => follows_bind ihs fun _ => follows_pure _
      case h_7 => exact follows_refuse _
    · refine follows_bind (follows_accept? .semicolon) fun found => ?_
      cases found with
      | some semicolon => exact follows_bind ihs fun _ => follows_bind ihms fun _ => follows_pure _
      | none => exact follows_pure _

/-! ## Blocks -/

theorem follows_literal : Follows literal literal := by
  refine follows_bind (follows_expect .number) fun t => ?_
  split
  · exact follows_pure _
  · exact follows_fail _

theorem follows_constantList (n : Nat) : ∀ m, n ≤ m → ∀ d, Follows (constantList m d) (constantList n d) := by
  induction n with
  | zero => exact fun m _ d => follows_exhausted _
  | succ n ih =>
    intro m hm d
    obtain ⟨m, rfl⟩ : ∃ k, m = k + 1 := ⟨m - 1, by omega⟩
    refine follows_bind (follows_expect _) fun name => follows_bind (follows_expect _) fun _ =>
      follows_bind follows_literal fun value => follows_bind (follows_accept? .comma) fun found => ?_
    cases found with
    | some comma => exact ih m (by omega) _
    | none => exact follows_bind (follows_expect _) fun _ => follows_pure _

theorem follows_variableList (n : Nat) : ∀ m, n ≤ m → ∀ d, Follows (variableList m d) (variableList n d) := by
  induction n with
  | zero => exact fun m _ d => follows_exhausted _
  | succ n ih =>
    intro m hm d
    obtain ⟨m, rfl⟩ : ∃ k, m = k + 1 := ⟨m - 1, by omega⟩
    refine follows_bind (follows_expect _) fun name => follows_bind (follows_accept? .comma) fun found => ?_
    cases found with
    | some comma => exact ih m (by omega) _
    | none => exact follows_bind (follows_expect _) fun _ => follows_pure _

theorem follows_optionalPart (keyword : TokenKind) {list' list : Declarations → Parser Declarations}
    (h : ∀ d, Follows (list' d) (list d)) (d : Declarations) :
    Follows (optionalPart keyword list' d) (optionalPart keyword list d) := by
  refine follows_bind (follows_accept? keyword) fun found => ?_
  cases found with
  | some word => exact h d
  | none => exact follows_pure d

theorem follows_declarations (h : n ≤ m) : Follows (declarations m) (declarations n) :=
  follows_bind (follows_optionalPart _ (follows_constantList n m h) _)
    (follows_optionalPart _ (follows_variableList n m h))

/-- **The rules of a block** look one word ahead. -/
theorem follows_block_rules (n : Nat) : ∀ m, n ≤ m →
    Follows (block m) (block n) ∧ Follows (procedures m) (procedures n) := by
  induction n with
  | zero => exact fun m _ => ⟨follows_exhausted _, follows_exhausted _⟩
  | succ n ih =>
    intro m hm
    obtain ⟨m, rfl⟩ : ∃ k, m = k + 1 := ⟨m - 1, by omega⟩
    have hnm : n ≤ m := by omega
    obtain ⟨ihb, ihp⟩ := ih m hnm
    constructor
    · exact follows_bind (follows_declarations hnm) fun _ => follows_bind ihp fun _ =>
        follows_bind (follows_statement_rules n m hnm).1 fun _ => follows_pure _
    · refine follows_bind (follows_accept? .procedureKw) fun found => ?_
      cases found with
      | some keyword =>
        exact follows_bind (follows_expect _) fun _ => follows_bind (follows_expect _) fun _ =>
          follows_bind ihb fun _ => follows_bind (follows_expect _) fun _ => follows_bind ihp fun _ =>
            follows_pure _
      | none => exact follows_pure _

theorem follows_program (h : n ≤ m) : Follows (program m) (program n) :=
  follows_bind (follows_block_rules n m h).1 fun _ => follows_bind (follows_expect _) fun _ =>
    follows_bind (follows_expect _) fun _ => follows_pure _

end Grammar

end PL0
