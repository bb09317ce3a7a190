/-
Reading an expression: the rules of the grammar accept the words of a phrase and nothing else, and hand them
to the yard in their order. Main statement: the words before the end of the input are read as an expression
that stands alone exactly if they are those of a phrase, and what is read is its tree
(`parseExpression_eq_ok_iff`).
-/
import PL0.Cursor
import PL0.Proofs.Front
import PL0.Proofs.Yard.Building

namespace PL0

open Grammar Phrase

/-! ## Running parsers -/

namespace Parser

variable {α β : Type} {endLine : Nat} {ts rest : List Token}

theorem run_bind_eq_done {p : Parser α} {f : α → Parser β} {b : β} :
    (p >>= f).run endLine ts = .done b rest ↔
      ∃ a r, p.run endLine ts = .done a r ∧ (f a).run endLine r = .done b rest := by
  rw [run_bind]
  cases p.run endLine ts with
  | done a r =>
    constructor
    · intro h; exact ⟨a, r, rfl, h⟩
    · rintro ⟨a', r', h', h⟩
      cases h'
      exact h
  | failed fault r => simp [Outcome.andThen]
  | exhausted => simp [Outcome.andThen]

theorem run_bind_of_done {p : Parser α} {a : α} {r : List Token} (h : p.run endLine ts = .done a r)
    (f : α → Parser β) : (p >>= f).run endLine ts = (f a).run endLine r := by
  rw [run_bind, h, Outcome.andThen]

theorem run_ofExcept_eq_done {x : Except Fault α} {a : α} :
    (ofExcept x).run endLine ts = .done a rest ↔ x = .ok a ∧ rest = ts := by
  cases x with
  | ok b => simp [ofExcept, run_pure, eq_comm]
  | error fault => simp [ofExcept, fail]

theorem run_expect_eq_done {kind : TokenKind} {t : Token} :
    (expect kind).run endLine ts = .done t rest ↔
      (frontOf ts).kind = kind ∧ t = frontOf ts ∧ rest = ts.tail := by
  rw [run_expect]
  split
  · rename_i h
    simp [h, eq_comm]
  · rename_i h
    simp [h]

theorem run_expect_word {kind : TokenKind} (w : Word kind) (r : List Token) :
    (expect kind).run endLine (w.token :: r) = .done w.token r :=
  run_expect_eq_done.2 ⟨w.kind_eq, rfl, rfl⟩

end Parser

/-- A word that is not the end of the input is there. -/
theorem exists_word {kind : TokenKind} {ts : List Token} (h : (frontOf ts).kind = kind)
    (hne : kind ≠ .eof) : ∃ (w : Word kind) (r : List Token), ts = w.token :: r := by
  cases ts with
  | nil => exact absurd h.symm hne
  | cons t ts => exact ⟨⟨t, h⟩, ts, rfl⟩

namespace Grammar

open PL0.Parser

theorem run_feed_eq_done {y y' : Yard} {t : Token} {endLine : Nat} {ts rest : List Token} :
    (feed y t).run endLine ts = .done y' rest ↔ y.process t = (.ok (), y') ∧ rest = ts := by
  unfold feed
  split
  · rename_i y₁ h
    simp [h, run_pure, eq_comm]
  · rename_i fault y₁ h
    simp [h, fail]

theorem run_feed_bind {α : Type} {y y' : Yard} {t : Token} (h : y.process t = (.ok (), y'))
    (f : Yard → Parser α) {endLine : Nat} {ts : List Token} :
    (feed y t >>= f).run endLine ts = (f y').run endLine ts :=
  run_bind_of_done (run_feed_eq_done.2 ⟨h, rfl⟩) f

theorem run_feed_bind_eq_done {α : Type} {y : Yard} {t : Token} {f : Yard → Parser α} {endLine : Nat}
    {ts rest : List Token} {a : α} :
    (feed y t >>= f).run endLine ts = .done a rest ↔
      ∃ y', y.process t = (.ok (), y') ∧ (f y').run endLine ts = .done a rest := by
  constructor
  · intro h
    obtain ⟨y', r, h₀, h⟩ := run_bind_eq_done.1 h
    obtain ⟨hp, hr⟩ := run_feed_eq_done.1 h₀
    exact ⟨y', hp, hr ▸ h⟩
  · rintro ⟨y', hp, h⟩
    rw [run_feed_bind hp, h]

/-! ## The rules that look at the front -/

theorem exists_sign {ts : List Token} (h : (frontOf ts).kind ∈ sumKinds) :
    ∃ (s : Sign) (r : List Token), ts = s.token :: r := by
  rcases mem_sumKinds.1 h with hk | hk
  · obtain ⟨w, r, rfl⟩ := exists_word hk (by decide)
    exact ⟨.plus w, r, rfl⟩
  · obtain ⟨w, r, rfl⟩ := exists_word hk (by decide)
    exact ⟨.minus w, r, rfl⟩

theorem exists_times {ts : List Token} (h : (frontOf ts).kind ∈ productKinds) :
    ∃ (o : Times) (r : List Token), ts = o.token :: r := by
  rcases mem_productKinds.1 h with hk | hk
  · obtain ⟨w, r, rfl⟩ := exists_word hk (by decide)
    exact ⟨.multiply w, r, rfl⟩
  · obtain ⟨w, r, rfl⟩ := exists_word hk (by decide)
    exact ⟨.divide w, r, rfl⟩

variable {n endLine : Nat} {ts : List Token}

theorem run_leadingSign_cons (s : Sign) (y : Yard) (r : List Token) :
    (leadingSign y).run endLine (s.token :: r) = (feed y s.marked).run endLine r := by
  rw [leadingSign, run_peek_bind, frontOf_cons, s.toUnary?_token]
  rfl

theorem toUnary?_eq_none (h : Ends sumKinds ts) : (frontOf ts).toUnary? = none := by
  unfold Token.toUnary?
  split
  · rename_i hk; simp [Ends, hk, sumKinds] at h
  · rename_i hk; simp [Ends, hk, sumKinds] at h
  · rfl

theorem run_leadingSign_nil (y : Yard) (h : Ends sumKinds ts) :
    (leadingSign y).run endLine ts = .done y ts := by
  rw [leadingSign, run_peek_bind, toUnary?_eq_none h]
  rfl

theorem run_moreTerms_cons (s : Sign) (y : Yard) (r : List Token) :
    (moreTerms (n + 1) y).run endLine (s.token :: r) =
      (do let y ← feed y s.token; let y ← term n y; moreTerms n y : Parser Yard).run endLine r := by
  rw [moreTerms, run_peek_bind]
  cases s with
  | plus w | minus w => simp only [frontOf_cons, Sign.token, w.kind_eq, run_advance_bind, List.tail_cons]

theorem run_moreTerms_nil (y : Yard) (h : Ends sumKinds ts) :
    (moreTerms (n + 1) y).run endLine ts = .done y ts := by
  rw [moreTerms, run_peek_bind]
  split
  · rename_i hk; simp [Ends, hk, sumKinds] at h
  · rename_i hk; simp [Ends, hk, sumKinds] at h
  · rfl

theorem run_moreFactors_cons (o : Times) (y : Yard) (r : List Token) :
    (moreFactors (n + 1) y).run endLine (o.token :: r) =
      (do let y ← feed y o.token; let y ← factor n y; moreFactors n y : Parser Yard).run endLine r := by
  rw [moreFactors, run_peek_bind]
  cases o with
  | multiply w | divide w =>
    simp only [frontOf_cons, Times.token, w.kind_eq, run_advance_bind, List.tail_cons]

theorem run_moreFactors_nil (y : Yard) (h : Ends productKinds ts) :
    (moreFactors (n + 1) y).run endLine ts = .done y ts := by
  rw [moreFactors, run_peek_bind]
  split
  · rename_i hk; simp [Ends, hk, productKinds] at h
  · rename_i hk; simp [Ends, hk, productKinds] at h
  · rfl

/-! ## What is read is a phrase -/

theorem run_leadingSign_eq_done {y y' : Yard} {rest : List Token}
    (h : (leadingSign y).run endLine ts = .done y' rest) :
    (y' = y ∧ rest = ts) ∨ ∃ s : Sign, ts = s.token :: rest ∧ y.process s.marked = (.ok (), y') := by
  by_cases hk : (frontOf ts).kind ∈ sumKinds
  · obtain ⟨s, r, rfl⟩ := exists_sign hk
    rw [run_leadingSign_cons] at h
    obtain ⟨hp, rfl⟩ := run_feed_eq_done.1 h
    exact .inr ⟨s, rfl, hp⟩
  · rw [run_leadingSign_nil y hk] at h
    cases h
    exact .inl ⟨rfl, rfl⟩

/-! The words that a rule has read are those of a phrase, and have reached the yard in their order. -/

mutual

theorem phrase_of_run_expression : ∀ {n endLine : Nat} {y y' : Yard} {ts rest : List Token},
    (expression n y).run endLine ts = .done y' rest →
    ∃ d : Expression, ts = d.words ++ rest ∧ y.processAll d.marked = .ok y'
  | n + 1, endLine, y, y', ts, rest, h => by
    rw [expression] at h
    obtain ⟨y₀, r₀, h₀, h⟩ := run_bind_eq_done.1 h
    obtain ⟨y₁, r₁, h₁, h₂⟩ := run_bind_eq_done.1 h
    obtain ⟨first, rfl, hf⟩ := phrase_of_run_term h₁
    obtain ⟨others, rfl, ho⟩ := phrase_of_run_moreTerms h₂
    have hy := (Yard.processAll_append hf others.marked).trans ho
    rcases run_leadingSign_eq_done h₀ with ⟨rfl, rfl⟩ | ⟨sign, rfl, hs⟩
    · exact ⟨.mk none first others, by simp [Expression.words], hy⟩
    · exact ⟨.mk (some sign) first others, by simp [Expression.words],
        (Yard.processAll_cons hs _).trans hy⟩

theorem phrase_of_run_moreTerms : ∀ {n endLine : Nat} {y y' : Yard} {ts rest : List Token},
    (moreTerms n y).run endLine ts = .done y' rest →
    ∃ d : Terms, ts = d.words ++ rest ∧ y.processAll d.marked = .ok y'
  | n + 1, endLine, y, y', ts, rest, h => by
    by_cases hk : (frontOf ts).kind ∈ sumKinds
    · obtain ⟨s, r, rfl⟩ := exists_sign hk
      rw [run_moreTerms_cons] at h
      obtain ⟨y₀, hp, h⟩ := run_feed_bind_eq_done.1 h
      obtain ⟨y₁, r₁, h₁, h₂⟩ := run_bind_eq_done.1 h
      obtain ⟨first, rfl, hf⟩ := phrase_of_run_term h₁
      obtain ⟨others, rfl, ho⟩ := phrase_of_run_moreTerms h₂
      refine ⟨.cons s first others, by simp [Terms.words], ?_⟩
      rw [Terms.marked, Yard.processAll_cons hp, Yard.processAll_append hf, ho]
    · rw [run_moreTerms_nil y hk] at h
      cases h
      exact ⟨.nil, rfl, rfl⟩

theorem phrase_of_run_term : ∀ {n endLine : Nat} {y y' : Yard} {ts rest : List Token},
    (term n y).run endLine ts = .done y' rest →
    ∃ d : Term, ts = d.words ++ rest ∧ y.processAll d.marked = .ok y'
  | n + 1, endLine, y, y', ts, rest, h => by
    rw [term] at h
    obtain ⟨y₁, r₁, h₁, h₂⟩ := run_bind_eq_done.1 h
    obtain ⟨first, rfl, hf⟩ := phrase_of_run_factor h₁
    obtain ⟨others, rfl, ho⟩ := phrase_of_run_moreFactors h₂
    exact ⟨.mk first others, by simp [Term.words], (Yard.processAll_append hf _).trans ho⟩

theorem phrase_of_run_moreFactors : ∀ {n endLine : Nat} {y y' : Yard} {ts rest : List Token},
    (moreFactors n y).run endLine ts = .done y' rest →
    ∃ d : Factors, ts = d.words ++ rest ∧ y.processAll d.marked = .ok y'
  | n + 1, endLine, y, y', ts, rest, h => by
    by_cases hk : (frontOf ts).kind ∈ productKinds
    · obtain ⟨o, r, rfl⟩ := exists_times hk
      rw [run_moreFactors_cons] at h
      obtain ⟨y₀, hp, h⟩ := run_feed_bind_eq_done.1 h
      obtain ⟨y₁, r₁, h₁, h₂⟩ := run_bind_eq_done.1 h
      obtain ⟨first, rfl, hf⟩ := phrase_of_run_factor h₁
      obtain ⟨others, rfl, ho⟩ := phrase_of_run_moreFactors h₂
      refine ⟨.cons o first others, by simp [Factors.words], ?_⟩
      rw [Factors.marked, Yard.processAll_cons hp, Yard.processAll_append hf, ho]
    · rw [run_moreFactors_nil y hk] at h
      cases h
      exact ⟨.nil, rfl, rfl⟩

theorem phrase_of_run_factor : ∀ {n endLine : Nat} {y y' : Yard} {ts rest : List Token},
    (factor n y).run endLine ts = .done y' rest →
    ∃ d : Factor, ts = d.words ++ rest ∧ y.processAll d.marked = .ok y'
  | n + 1, endLine, y, y', ts, rest, h => by
    rw [factor, run_peek_bind] at h
    split at h
    case h_1 hk =>
      obtain ⟨w, r, rfl⟩ := exists_word hk (by decide)
      obtain ⟨hp, rfl⟩ := run_feed_eq_done.1 h
      exact ⟨.ident w, rfl, Yard.processAll_cons hp []⟩
    case h_2 hk =>
      obtain ⟨w, r, rfl⟩ := exists_word hk (by decide)
      obtain ⟨hp, rfl⟩ := run_feed_eq_done.1 h
      cases hv : w.token.value with
      | none => simp [Yard.process, w.kind_eq, hv] at hp
      | some value => exact ⟨.number ⟨_, value, w.kind_eq, hv⟩, rfl, Yard.processAll_cons hp []⟩
    case h_3 hk =>
      obtain ⟨opening, r, rfl⟩ := exists_word hk (by decide)
      rw [run_advance_bind, frontOf_cons, List.tail_cons] at h
      obtain ⟨y₀, hp, h⟩ := run_feed_bind_eq_done.1 h
      obtain ⟨y₁, r₁, h₁, h₂⟩ := run_bind_eq_done.1 h
      obtain ⟨inner, rfl, hi⟩ := phrase_of_run_expression h₁
      rw [run_accept?_bind] at h₂
      split at h₂
      · rename_i hc
        obtain ⟨closing, r₂, rfl⟩ := exists_word hc (by decide)
        obtain ⟨hp', rfl⟩ := run_feed_eq_done.1 h₂
        refine ⟨.paren opening inner closing, by simp [Factor.words], ?_⟩
        rw [Factor.marked, Yard.processAll_cons hp, Yard.processAll_append hi]
        exact Yard.processAll_cons hp' []
      · cases h₂
    case h_4 => cases h

end

/-! ## A phrase is read -/

mutual

theorem run_expression : ∀ (d : Expression) {n endLine : Nat} {y y' : Yard} {rest : List Token},
    3 * d.words.length + 3 ≤ n → Ends expressionKinds rest → y.processAll d.marked = .ok y' →
    (expression n y).run endLine (d.words ++ rest) = .done y' rest
  | .mk none first others, n + 1, endLine, y, y', rest, hn, hr, h => by
    simp only [Expression.words, List.length_append] at hn
    rw [Expression.marked] at h
    obtain ⟨y₁, h₁, h₂⟩ := Yard.processAll_eq_ok_append.1 h
    rw [Expression.words, List.append_assoc, expression,
      run_bind_of_done (run_leadingSign_nil y (first.ends _)),
      run_bind_of_done (run_term first (by omega) (others.ends hr.product) h₁)]
    exact run_moreTerms others (by omega) hr h₂
  | .mk (some sign) first others, n + 1, endLine, y, y', rest, hn, hr, h => by
    simp only [Expression.words, List.length_cons, List.length_append] at hn
    rw [Expression.marked] at h
    obtain ⟨y₀, h₀, h⟩ := Yard.processAll_eq_ok_cons.1 h
    obtain ⟨y₁, h₁, h₂⟩ := Yard.processAll_eq_ok_append.1 h
    have hs : (leadingSign y).run endLine (sign.token :: (first.words ++ (others.words ++ rest))) = _ :=
      (run_leadingSign_cons sign y _).trans (run_feed_eq_done.2 ⟨h₀, rfl⟩)
    rw [Expression.words, List.cons_append, List.append_assoc, expression, run_bind_of_done hs,
      run_bind_of_done (run_term first (by omega) (others.ends hr.product) h₁)]
    exact run_moreTerms others (by omega) hr h₂

theorem run_moreTerms : ∀ (d : Terms) {n endLine : Nat} {y y' : Yard} {rest : List Token},
    3 * d.words.length + 2 ≤ n → Ends expressionKinds rest → y.processAll d.marked = .ok y' →
    (moreTerms n y).run endLine (d.words ++ rest) = .done y' rest
  | .nil, n + 1, endLine, y, y', rest, hn, hr, h => by
    cases h
    exact run_moreTerms_nil y (hr.mono (List.subset_append_left _ _))
  | .cons sign term others, n + 1, endLine, y, y', rest, hn, hr, h => by
    simp only [Terms.words, List.length_cons, List.length_append] at hn
    rw [Terms.marked] at h
    obtain ⟨y₀, h₀, h⟩ := Yard.processAll_eq_ok_cons.1 h
    obtain ⟨y₁, h₁, h₂⟩ := Yard.processAll_eq_ok_append.1 h
    have ht : (Grammar.term n y₀).run endLine (term.words ++ (others.words ++ rest)) = _ :=
      run_term term (by omega) (others.ends hr.product) h₁
    rw [Terms.words, List.cons_append, List.append_assoc, run_moreTerms_cons, run_feed_bind h₀,
      run_bind_of_done ht]
    exact run_moreTerms others (by omega) hr h₂

theorem run_term : ∀ (d : Term) {n endLine : Nat} {y y' : Yard} {rest : List Token},
    3 * d.words.length + 2 ≤ n → Ends productKinds rest → y.processAll d.marked = .ok y' →
    (term n y).run endLine (d.words ++ rest) = .done y' rest
  | .mk first others, n + 1, endLine, y, y', rest, hn, hr, h => by
    simp only [Term.words, List.length_append] at hn
    rw [Term.marked] at h
    obtain ⟨y₁, h₁, h₂⟩ := Yard.processAll_eq_ok_append.1 h
    rw [Term.words, List.append_assoc, term, run_bind_of_done (run_factor first (by omega) h₁)]
    exact run_moreFactors others (by omega) hr h₂

theorem run_moreFactors : ∀ (d : Factors) {n endLine : Nat} {y y' : Yard} {rest : List Token},
    3 * d.words.length + 1 ≤ n → Ends productKinds rest → y.processAll d.marked = .ok y' →
    (moreFactors n y).run endLine (d.words ++ rest) = .done y' rest
  | .nil, n + 1, endLine, y, y', rest, hn, hr, h => by
    cases h
    exact run_moreFactors_nil y hr
  | .cons times factor others, n + 1, endLine, y, y', rest, hn, hr, h => by
    simp only [Factors.words, List.length_cons, List.length_append] at hn
    rw [Factors.marked] at h
    obtain ⟨y₀, h₀, h⟩ := Yard.processAll_eq_ok_cons.1 h
    obtain ⟨y₁, h₁, h₂⟩ := Yard.processAll_eq_ok_append.1 h
    have hf : (Grammar.factor n y₀).run endLine (factor.words ++ (others.words ++ rest)) = _ :=
      run_factor factor (by omega) h₁
    rw [Factors.words, List.cons_append, List.append_assoc, run_moreFactors_cons, run_feed_bind h₀,
      run_bind_of_done hf]
    exact run_moreFactors others (by omega) hr h₂

theorem run_factor : ∀ (d : Factor) {n endLine : Nat} {y y' : Yard} {rest : List Token},
    3 * d.words.length + 1 ≤ n → y.processAll d.marked = .ok y' →
    (factor n y).run endLine (d.words ++ rest) = .done y' rest
  | .ident name, n + 1, endLine, y, y', rest, hn, h => by
    obtain ⟨y₁, h₁, h₂⟩ := Yard.processAll_eq_ok_cons.1 h
    cases h₂
    rw [factor, run_peek_bind]
    simp only [Factor.words, List.singleton_append, frontOf_cons, name.kind_eq]
    exact run_feed_eq_done.2 ⟨h₁, rfl⟩
  | .number value, n + 1, endLine, y, y', rest, hn, h => by
    obtain ⟨y₁, h₁, h₂⟩ := Yard.processAll_eq_ok_cons.1 h
    cases h₂
    rw [factor, run_peek_bind]
    simp only [Factor.words, List.singleton_append, frontOf_cons, value.kind_eq]
    exact run_feed_eq_done.2 ⟨h₁, rfl⟩
  | .paren opening inner closing, n + 1, endLine, y, y', rest, hn, h => by
    simp only [Factor.words, List.length_cons, List.length_append, List.length_nil] at hn
    rw [Factor.marked] at h
    obtain ⟨y₀, h₀, h⟩ := Yard.processAll_eq_ok_cons.1 h
    obtain ⟨y₁, h₁, h⟩ := Yard.processAll_eq_ok_append.1 h
    obtain ⟨y₂, h₂, h₃⟩ := Yard.processAll_eq_ok_cons.1 h
    cases h₃
    have hi : (Grammar.expression n y₀).run endLine (inner.words ++ closing.token :: rest) = _ :=
      run_expression inner (by omega) (closing.ends (by decide) _) h₁
    rw [factor, run_peek_bind]
    simp only [Factor.words, List.cons_append, List.append_assoc, List.nil_append, frontOf_cons,
      opening.kind_eq, run_advance_bind, List.tail_cons]
    rw [run_feed_bind h₀, run_bind_of_done hi, run_accept?_bind, frontOf_cons, if_pos closing.kind_eq]
    exact run_feed_eq_done.2 ⟨h₂, rfl⟩

end

/-! ## Trees -/

theorem phrase_of_run_tree {n endLine : Nat} {ts rest : List Token} {e : Expr}
    (h : (tree n).run endLine ts = .done e rest) :
    ∃ d : Expression, ts = d.words ++ rest ∧ d.tree = e := by
  obtain ⟨y, r, hy, hf⟩ := run_bind_eq_done.1 h
  obtain ⟨he, rfl⟩ := run_ofExcept_eq_done.1 hf
  obtain ⟨d, hw, hd⟩ := phrase_of_run_expression hy
  obtain ⟨y', hy', hh⟩ := d.builds .initial (Yard.blocks_nil _)
  obtain rfl : y = y' := Except.ok.inj (hd.symm.trans hy')
  exact ⟨d, hw, Except.ok.inj ((hh.finish d.wellFormed).symm.trans he)⟩

theorem run_tree (d : Expression) {n endLine : Nat} {rest : List Token}
    (hn : 3 * d.words.length + 3 ≤ n) (hr : Ends expressionKinds rest) :
    (tree n).run endLine (d.words ++ rest) = .done d.tree rest := by
  obtain ⟨y, hy, hh⟩ := d.builds .initial (Yard.blocks_nil _)
  rw [tree, run_bind_of_done (run_expression d hn hr hy)]
  exact run_ofExcept_eq_done.2 ⟨hh.finish d.wellFormed, rfl⟩

/-- A closing parenthesis after an expression that stands alone finds nothing to close. -/
theorem process_surplus {y : Yard} {rank : Nat} {e : Expr} (h : y.Holds rank [] [] e) {t : Token}
    (hk : t.kind = .rparen) : ∃ y', y.process t = (.error (.unopened t.line), y') := by
  rw [Yard.process_rparen hk]
  exact Yard.Holds.closeParen_unopened (y := { y with line := t.line }) h

theorem phrase_of_run_loneTree {n endLine : Nat} {ts rest : List Token} {e : Expr}
    (h : (loneTree n).run endLine ts = .done e rest) :
    ∃ (d : Expression) (r : List Token), ts = d.words ++ r ∧ (frontOf r).kind = .eof ∧ d.tree = e := by
  obtain ⟨y, r, hy, h⟩ := run_bind_eq_done.1 h
  obtain ⟨d, hw, hd⟩ := phrase_of_run_expression hy
  obtain ⟨y', hy', hh⟩ := d.builds .initial (Yard.blocks_nil _)
  obtain rfl : y = y' := Except.ok.inj (hd.symm.trans hy')
  rw [run_accept?_bind] at h
  split at h
  · rename_i hc
    obtain ⟨y₂, hp⟩ := process_surplus hh hc
    obtain ⟨y₃, r₃, hf, -⟩ := run_bind_eq_done.1 h
    rw [(run_feed_eq_done.1 hf).1] at hp
    cases hp
  · obtain ⟨y₂, r₂, hp, h'⟩ := run_bind_eq_done.1 h
    cases hp
    obtain ⟨t, r', ht, hf⟩ := run_bind_eq_done.1 h'
    obtain ⟨hk, -, -⟩ := run_expect_eq_done.1 ht
    obtain ⟨he, -⟩ := run_ofExcept_eq_done.1 hf
    exact ⟨d, r, hw, hk, Except.ok.inj ((hh.finish d.wellFormed).symm.trans he)⟩

theorem run_loneTree (d : Expression) {n endLine : Nat} {rest : List Token}
    (hn : 3 * d.words.length + 3 ≤ n) (hr : (frontOf rest).kind = .eof) :
    (loneTree n).run endLine (d.words ++ rest) = .done d.tree rest.tail := by
  obtain ⟨y, hy, hh⟩ := d.builds .initial (Yard.blocks_nil _)
  have he : Ends expressionKinds rest := by
    simp [Ends, hr, expressionKinds, sumKinds, productKinds]
  rw [loneTree, run_bind_of_done (run_expression d hn he hy), run_accept?_bind, if_neg (by simp [hr])]
  refine (run_bind_of_done (run_expect_eq_done.2 ⟨hr, rfl, rfl⟩) _).trans ?_
  exact run_ofExcept_eq_done.2 ⟨hh.finish d.wellFormed, rfl⟩

end Grammar

/-! ## Whole texts -/

/-- The words before the end of the input. -/
def beforeEnd (ts : List Token) : List Token := ts.takeWhile (·.kind ≠ .eof)

theorem beforeEnd_append {ws rest : List Token} (hws : ∀ t ∈ ws, t.kind ≠ .eof)
    (hr : (frontOf rest).kind = .eof) : beforeEnd (ws ++ rest) = ws := by
  refine takeWhile_append_of_front (by simpa using hws) ?_
  intro t ht
  cases rest with
  | nil => cases ht
  | cons t' rest =>
    cases ht
    simpa using hr

/-- The words go on after their end with the end, if with anything. -/
theorem exists_beforeEnd_append (ts : List Token) :
    ∃ rest, ts = beforeEnd ts ++ rest ∧ (frontOf rest).kind = .eof := by
  refine ⟨ts.dropWhile (·.kind ≠ .eof), List.takeWhile_append_dropWhile.symm, ?_⟩
  induction ts with
  | nil => rfl
  | cons t ts ih =>
    by_cases h : t.kind = .eof
    · simp [h]
    · simpa [h] using ih

namespace Outcome

variable {α : Type} {o : Outcome α}

theorem settle_eq_ok {h : o ≠ .exhausted} {a : α} :
    (o.settle h).1 = .ok a ↔ ∃ rest, o = .done a rest := by
  cases o with
  | done b r => simp [settle]
  | failed fault r => simp [settle]
  | exhausted => exact absurd rfl h

end Outcome

theorem phrase_of_parseExpression {ts : List Token} {e : Expr} (h : parseExpression ts = .ok e) :
    ∃ d : Expression, d.words = beforeEnd ts ∧ d.tree = e := by
  obtain ⟨rest, h⟩ := Outcome.settle_eq_ok.1 h
  obtain ⟨d, r, hw, hr, he⟩ := phrase_of_run_loneTree h
  refine ⟨d, ?_, he⟩
  rw [show ts = d.words ++ r from hw, beforeEnd_append d.kind_ne_eof hr]

theorem parseExpression_of_phrase (d : Expression) {ts : List Token} (h : d.words = beforeEnd ts) :
    parseExpression ts = .ok d.tree := by
  obtain ⟨rest, hts, hr⟩ := exists_beforeEnd_append ts
  rw [← h] at hts
  refine Outcome.settle_eq_ok.2 ⟨rest.tail, ?_⟩
  have hn : 3 * d.words.length + 3 ≤ (Cursor.ofTokens ts).bound := by
    have := congrArg List.length hts
    simp only [List.length_append] at this
    simp only [Cursor.bound, Cursor.ofTokens]
    omega
  have hrun : (loneTree _).run (Cursor.ofTokens ts).endLine (d.words ++ rest) = _ := run_loneTree d hn hr
  rwa [← hts] at hrun

/-- **Reading an expression.** The words before the end of the input are read as an expression exactly if
they are the words of a phrase, and the result is the tree of the phrase. -/
theorem parseExpression_eq_ok_iff (ts : List Token) (e : Expr) :
    parseExpression ts = .ok e ↔ ∃ d : Expression, d.words = beforeEnd ts ∧ d.tree = e :=
  ⟨phrase_of_parseExpression, fun ⟨d, hw, he⟩ => he ▸ parseExpression_of_phrase d hw⟩

end PL0
