/-
One way to read: words, with what follows them, are those of one phrase at most. By recursion on the first of
two phrases with the same words; the kinds of the words at the front and of those that follow tell where each
part ends. Main statements: `Expression.append_inj`, `Statement.append_inj`, `Block.append_inj` and
`Program.words_inj`.
-/
import PL0.Proofs.Phrase.Program

namespace PL0.Phrase

/-! ## Expressions -/

mutual

theorem Expression.append_inj : ∀ {d d' : Expression} {r r' : List Token},
    Ends expressionKinds r → Ends expressionKinds r' → d.words ++ r = d'.words ++ r' → d = d' ∧ r = r'
  | .mk none first others, .mk none first' others', r, r', hr, hr', h => by
    simp only [Expression.words, List.append_assoc] at h
    obtain ⟨hf, h⟩ := Term.append_inj (others.ends hr.product) (others'.ends hr'.product) h
    obtain ⟨ho, h⟩ := Terms.append_inj hr hr' h
    exact ⟨by rw [hf, ho], h⟩
  | .mk (some sign) first others, .mk (some sign') first' others', r, r', hr, hr', h => by
    simp only [Expression.words, List.cons_append, List.append_assoc, List.cons.injEq] at h
    obtain ⟨hf, h'⟩ := Term.append_inj (others.ends hr.product) (others'.ends hr'.product) h.2
    obtain ⟨ho, h'⟩ := Terms.append_inj hr hr' h'
    exact ⟨by rw [Sign.token_inj h.1, hf, ho], h'⟩
  | .mk none first others, .mk (some sign') first' others', r, r', hr, hr', h => by
    simp only [Expression.words, List.cons_append, List.append_assoc] at h
    exact absurd h ((first.ends _).ne_cons sign'.kind_mem _)
  | .mk (some sign) first others, .mk none first' others', r, r', hr, hr', h => by
    simp only [Expression.words, List.cons_append, List.append_assoc] at h
    exact absurd h.symm ((first'.ends _).ne_cons sign.kind_mem _)

theorem Terms.append_inj : ∀ {d d' : Terms} {r r' : List Token},
    Ends expressionKinds r → Ends expressionKinds r' → d.words ++ r = d'.words ++ r' → d = d' ∧ r = r'
  | .nil, .nil, r, r', hr, hr', h => ⟨rfl, h⟩
  | .nil, .cons sign' term' others', r, r', hr, hr', h => by
    exact absurd h (hr.ne_cons (List.mem_append_left _ sign'.kind_mem) _)
  | .cons sign term others, .nil, r, r', hr, hr', h => by
    exact absurd h.symm (hr'.ne_cons (List.mem_append_left _ sign.kind_mem) _)
  | .cons sign term others, .cons sign' term' others', r, r', hr, hr', h => by
    simp only [Terms.words, List.cons_append, List.append_assoc, List.cons.injEq] at h
    obtain ⟨ht, h'⟩ := Term.append_inj (others.ends hr.product) (others'.ends hr'.product) h.2
    obtain ⟨ho, h'⟩ := Terms.append_inj hr hr' h'
    exact ⟨by rw [Sign.token_inj h.1, ht, ho], h'⟩

theorem Term.append_inj : ∀ {d d' : Term} {r r' : List Token},
    Ends productKinds r → Ends productKinds r' → d.words ++ r = d'.words ++ r' → d = d' ∧ r = r'
  | .mk first others, .mk first' others', r, r', hr, hr', h => by
    simp only [Term.words, List.append_assoc] at h
    obtain ⟨hf, h⟩ := Factor.append_inj h
    obtain ⟨ho, h⟩ := Factors.append_inj hr hr' h
    exact ⟨by rw [hf, ho], h⟩

theorem Factors.append_inj : ∀ {d d' : Factors} {r r' : List Token},
    Ends productKinds r → Ends productKinds r' → d.words ++ r = d'.words ++ r' → d = d' ∧ r = r'
  | .nil, .nil, r, r', hr, hr', h => ⟨rfl, h⟩
  | .nil, .cons times' factor' others', r, r', hr, hr', h => by
    exact absurd h (hr.ne_cons times'.kind_mem _)
  | .cons times factor others, .nil, r, r', hr, hr', h => by
    exact absurd h.symm (hr'.ne_cons times.kind_mem _)
  | .cons times factor others, .cons times' factor' others', r, r', hr, hr', h => by
    simp only [Factors.words, List.cons_append, List.append_assoc, List.cons.injEq] at h
    obtain ⟨hf, h'⟩ := Factor.append_inj h.2
    obtain ⟨ho, h'⟩ := Factors.append_inj hr hr' h'
    exact ⟨by rw [Times.token_inj h.1, hf, ho], h'⟩

theorem Factor.append_inj : ∀ {d d' : Factor} {r r' : List Token},
    d.words ++ r = d'.words ++ r' → d = d' ∧ r = r'
  | .ident name, .ident name', r, r', h => by
    simp only [Factor.words, List.cons_append, List.nil_append, List.cons.injEq] at h
    exact ⟨by rw [Word.token_inj h.1], h.2⟩
  | .number n, .number n', r, r', h => by
    simp only [Factor.words, List.cons_append, List.nil_append, List.cons.injEq] at h
    exact ⟨by rw [Numeral.token_inj h.1], h.2⟩
  | .paren opening inner closing, .paren opening' inner' closing', r, r', h => by
    simp only [Factor.words, List.cons_append, List.append_assoc, List.nil_append, List.cons.injEq] at h
    obtain ⟨hi, h'⟩ := Expression.append_inj (closing.ends (by decide) r) (closing'.ends (by decide) r') h.2
    simp only [List.cons.injEq] at h'
    exact ⟨by rw [Word.token_inj h.1, hi, Word.token_inj h'.1], h'.2⟩
  | .ident w, .number w', _, _, h | .ident w, .paren w' .., _, _, h | .number w, .ident w', _, _, h
  | .number w, .paren w' .., _, _, h | .paren w .., .ident w', _, _, h
  | .paren w .., .number w', _, _, h => by
    -- The first words are of different kinds.
    have hk := congrArg (fun ts => (frontOf ts).kind) h
    simp [Factor.words, w.kind_eq, w'.kind_eq] at hk

end

/-! ## Conditions and statements -/

theorem Condition.append_inj {d d' : Condition} {r r' : List Token} (hr : Ends expressionKinds r)
    (hr' : Ends expressionKinds r') (h : d.words ++ r = d'.words ++ r') : d = d' ∧ r = r' := by
  cases d with
  | odd keyword inner => cases d' with
    | odd keyword' inner' =>
      obtain ⟨hk, h⟩ := List.cons.inj h
      obtain ⟨hi, h⟩ := Expression.append_inj hr hr' h
      exact ⟨by rw [Word.token_inj hk, hi], h⟩
    | compare left' comparator' right' =>
      have hf := left'.front (comparator'.word.token :: right'.words ++ r')
      rw [← List.append_assoc, ← Condition.words, ← h] at hf
      simp [Condition.words, keyword.kind_eq, sumKinds, factorKinds] at hf
  | compare left comparator right => cases d' with
    | odd keyword' inner' =>
      have hf := left.front (comparator.word.token :: right.words ++ r)
      rw [← List.append_assoc, ← Condition.words, h] at hf
      simp [Condition.words, keyword'.kind_eq, sumKinds, factorKinds] at hf
    | compare left' comparator' right' =>
      simp only [Condition.words, List.append_assoc, List.cons_append] at h
      obtain ⟨hl, h⟩ := Expression.append_inj (comparator.ends _) (comparator'.ends _) h
      obtain ⟨hc, h⟩ := List.cons.inj h
      obtain ⟨hr, h⟩ := Expression.append_inj hr hr' h
      exact ⟨by rw [hl, Comparator.token_inj hc, hr], h⟩

/-- A condition and the keyword after it. -/
theorem Condition.append_word_inj {kind : TokenKind} (hk : kind ∉ expressionKinds) {cond cond' : Condition}
    {w w' : Word kind} {r r' : List Token}
    (h : cond.words ++ w.token :: r = cond'.words ++ w'.token :: r') : cond = cond' ∧ w = w' ∧ r = r' := by
  obtain ⟨hc, h⟩ := Condition.append_inj (w.ends hk _) (w'.ends hk _) h
  obtain ⟨hw, h⟩ := List.cons.inj h
  exact ⟨hc, Word.token_inj hw, h⟩

mutual

theorem Statement.append_inj : ∀ {d d' : Statement} {r r' : List Token},
    Ends expressionKinds r → Ends expressionKinds r' → d.words ++ r = d'.words ++ r' → d = d' ∧ r = r'
  | .assign name becomes value, d', r, r', hr, hr', h => by
    have hk := Statement.kind_eq_of_append h
    cases d' with
    | assign name' becomes' value' =>
      simp only [Statement.words, List.cons_append, List.cons.injEq] at h
      obtain ⟨hv, h'⟩ := Expression.append_inj hr hr' h.2.2
      exact ⟨by rw [Word.token_inj h.1, Word.token_inj h.2.1, hv], h'⟩
    | _ => simp [Statement.kind] at hk
  | .call keyword name, d', r, r', hr, hr', h => by
    have hk := Statement.kind_eq_of_append h
    cases d' with
    | call keyword' name' =>
      simp only [Statement.words, List.cons_append, List.nil_append, List.cons.injEq] at h
      exact ⟨by rw [Word.token_inj h.1, Word.token_inj h.2.1], h.2.2⟩
    | _ => simp [Statement.kind] at hk
  | .write mark value, d', r, r', hr, hr', h => by
    have hk := Statement.kind_eq_of_append h
    cases d' with
    | write mark' value' =>
      obtain ⟨hm, h⟩ := List.cons.inj h
      obtain ⟨hv, h⟩ := Expression.append_inj hr hr' h
      exact ⟨by rw [Word.token_inj hm, hv], h⟩
    | _ => simp [Statement.kind] at hk
  | .compound opening first others closing, d', r, r', hr, hr', h => by
    have hk := Statement.kind_eq_of_append h
    cases d' with
    | compound opening' first' others' closing' =>
      simp only [Statement.words, List.cons_append, List.append_assoc, List.nil_append,
        List.cons.injEq] at h
      have he : ∀ (w : Word .endKw) (r : List Token), Ends (.semicolon :: expressionKinds) (w.token :: r) :=
        fun w r => w.ends (by decide) r
      have hs : ∀ (o : Statements) (w : Word .endKw) (r : List Token),
          Ends expressionKinds (o.words ++ w.token :: r) :=
        fun o w r => o.ends (by decide) (w.ends (by decide) r)
      obtain ⟨hf, h'⟩ := Statement.append_inj (hs others closing r) (hs others' closing' r') h.2
      obtain ⟨ho, h'⟩ := Statements.append_inj (he closing r) (he closing' r') h'
      obtain ⟨hc, h'⟩ := List.cons.inj h'
      exact ⟨by rw [Word.token_inj h.1, hf, ho, Word.token_inj hc], h'⟩
    | _ => simp [Statement.kind] at hk
  | .ifThen keyword cond thenWord body, d', r, r', hr, hr', h => by
    have hk := Statement.kind_eq_of_append h
    cases d' with
    | ifThen keyword' cond' thenWord' body' =>
      simp only [Statement.words, List.cons_append, List.append_assoc, List.cons.injEq] at h
      obtain ⟨hc, ht, h'⟩ := Condition.append_word_inj (by decide) h.2
      obtain ⟨hb, h'⟩ := Statement.append_inj hr hr' h'
      exact ⟨by rw [Word.token_inj h.1, hc, ht, hb], h'⟩
    | _ => simp [Statement.kind] at hk
  | .whileDo keyword cond doWord body, d', r, r', hr, hr', h => by
    have hk := Statement.kind_eq_of_append h
    cases d' with
    | whileDo keyword' cond' doWord' body' =>
      simp only [Statement.words, List.cons_append, List.append_assoc, List.cons.injEq] at h
      obtain ⟨hc, hd, h'⟩ := Condition.append_word_inj (by decide) h.2
      obtain ⟨hb, h'⟩ := Statement.append_inj hr hr' h'
      exact ⟨by rw [Word.token_inj h.1, hc, hd, hb], h'⟩
    | _ => simp [Statement.kind] at hk

theorem Statements.append_inj : ∀ {d d' : Statements} {r r' : List Token},
    Ends (.semicolon :: expressionKinds) r → Ends (.semicolon :: expressionKinds) r' →
    d.words ++ r = d'.words ++ r' → d = d' ∧ r = r'
  | .nil, .nil, r, r', hr, hr', h => ⟨rfl, h⟩
  | .nil, .cons semicolon' first' others', r, r', hr, hr', h => by
    exact absurd h (hr.ne_cons (by simp [semicolon'.kind_eq]) _)
  | .cons semicolon first others, .nil, r, r', hr, hr', h => by
    exact absurd h.symm (hr'.ne_cons (by simp [semicolon.kind_eq]) _)
  | .cons semicolon first others, .cons semicolon' first' others', r, r', hr, hr', h => by
    simp only [Statements.words, List.cons_append, List.append_assoc, List.cons.injEq] at h
    have hs : ∀ (o : Statements) {r : List Token}, Ends (.semicolon :: expressionKinds) r →
        Ends expressionKinds (o.words ++ r) :=
      fun o r hr => o.ends (by decide) (hr.mono (List.subset_cons_self _ _))
    obtain ⟨hf, h'⟩ := Statement.append_inj (hs others hr) (hs others' hr') h.2
    obtain ⟨ho, h'⟩ := Statements.append_inj hr hr' h'
    exact ⟨by rw [Word.token_inj h.1, hf, ho], h'⟩

end

/-! ## Declarations and blocks -/

theorem Items.append_inj {α : Type} {f : α → List Token}
    (hf : ∀ {a a' : α} {r r' : List Token}, f a ++ r = f a' ++ r' → a = a' ∧ r = r')
    {d d' : Items α} {r r' : List Token} (h : d.words f ++ r = d'.words f ++ r') : d = d' ∧ r = r' := by
  induction d generalizing d' with
  | last item semicolon => cases d' with
    | last item' semicolon' =>
      simp only [Items.words, List.append_assoc, List.singleton_append] at h
      obtain ⟨hi, h⟩ := hf h
      obtain ⟨hs, h⟩ := List.cons.inj h
      exact ⟨by rw [hi, Word.token_inj hs], h⟩
    | more item' comma' others' =>
      simp only [Items.words, List.append_assoc, List.cons_append] at h
      have hk := congrArg Token.kind (List.cons.inj (hf h).2).1
      simp [semicolon.kind_eq, comma'.kind_eq] at hk
  | more item comma others ih => cases d' with
    | last item' semicolon' =>
      simp only [Items.words, List.append_assoc, List.cons_append] at h
      have hk := congrArg Token.kind (List.cons.inj (hf h).2).1
      simp [comma.kind_eq, semicolon'.kind_eq] at hk
    | more item' comma' others' =>
      simp only [Items.words, List.append_assoc, List.cons_append] at h
      obtain ⟨hi, h⟩ := hf h
      obtain ⟨hc, h⟩ := List.cons.inj h
      obtain ⟨ho, h⟩ := ih h
      exact ⟨by rw [hi, Word.token_inj hc, ho], h⟩

theorem partWords_append_inj {α : Type} {kind : TokenKind} {f : α → List Token}
    (hf : ∀ {a a' : α} {r r' : List Token}, f a ++ r = f a' ++ r' → a = a' ∧ r = r')
    {d d' : Option (Word kind × Items α)} {r r' : List Token} (hr : Ends [kind] r) (hr' : Ends [kind] r')
    (h : partWords f d ++ r = partWords f d' ++ r') : d = d' ∧ r = r' := by
  cases d with
  | none => cases d' with
    | none => exact ⟨rfl, h⟩
    | some d' => exact absurd h (hr.ne_cons (by simp [d'.1.kind_eq]) _)
  | some d => cases d' with
    | none => exact absurd h.symm (hr'.ne_cons (by simp [d.1.kind_eq]) _)
    | some d' =>
      obtain ⟨hk, h⟩ := List.cons.inj h
      obtain ⟨hi, h⟩ := Items.append_inj hf h
      exact ⟨by rw [Prod.ext (Word.token_inj hk) hi], h⟩

theorem Constant.append_inj {c c' : Constant} {r r' : List Token} (h : c.words ++ r = c'.words ++ r') :
    c = c' ∧ r = r' := by
  simp only [Constant.words, List.cons_append, List.nil_append, List.cons.injEq] at h
  obtain ⟨hn, he, hv, h⟩ := h
  refine ⟨?_, h⟩
  obtain ⟨name, equal, value⟩ := c
  obtain ⟨name', equal', value'⟩ := c'
  exact Constant.mk.injEq .. ▸ ⟨Word.token_inj hn, Word.token_inj he, Numeral.token_inj hv⟩

theorem Word.single_append_inj {kind : TokenKind} {w w' : Word kind} {r r' : List Token}
    (h : w.single ++ r = w'.single ++ r') : w = w' ∧ r = r' := by
  obtain ⟨ht, h⟩ := List.cons.inj h
  exact ⟨Word.token_inj ht, h⟩

theorem Declared.append_inj {d d' : Declared} {r r' : List Token} (hr : Ends [.constKw, .varKw] r)
    (hr' : Ends [.constKw, .varKw] r') (h : d.words ++ r = d'.words ++ r') : d = d' ∧ r = r' := by
  have ends : ∀ (d : Declared) {r : List Token}, Ends [.constKw, .varKw] r →
      Ends [.constKw] (partWords Word.single d.vars ++ r) :=
    fun d r hr => partWords_ends _ _ (by decide) (hr.mono (by simp))
  simp only [Declared.words, List.append_assoc] at h
  obtain ⟨hc, h⟩ := partWords_append_inj Constant.append_inj (ends d hr) (ends d' hr') h
  obtain ⟨hv, h⟩ := partWords_append_inj Word.single_append_inj (hr.mono (by simp)) (hr'.mono (by simp)) h
  refine ⟨?_, h⟩
  obtain ⟨consts, vars⟩ := d
  obtain ⟨consts', vars'⟩ := d'
  exact Declared.mk.injEq .. ▸ ⟨hc, hv⟩

mutual

theorem Block.append_inj : ∀ {d d' : Block} {r r' : List Token},
    Ends expressionKinds r → Ends expressionKinds r' → d.words ++ r = d'.words ++ r' → d = d' ∧ r = r'
  | .mk declared procedures statement, .mk declared' procedures' statement', r, r', hr, hr', h => by
    simp only [Block.words, List.append_assoc] at h
    obtain ⟨hd, h⟩ := Declared.append_inj (procedures.ends _ _) (procedures'.ends _ _) h
    obtain ⟨hp, h⟩ := Procedures.append_inj (statement.ends _) (statement'.ends _) h
    obtain ⟨hs, h⟩ := Statement.append_inj hr hr' h
    exact ⟨by rw [hd, hp, hs], h⟩

theorem Procedures.append_inj : ∀ {d d' : Procedures} {r r' : List Token},
    Ends [.procedureKw] r → Ends [.procedureKw] r' → d.words ++ r = d'.words ++ r' → d = d' ∧ r = r'
  | .nil, .nil, r, r', hr, hr', h => ⟨rfl, h⟩
  | .nil, .cons keyword' .., r, r', hr, hr', h => by
    exact absurd h (hr.ne_cons (by simp [keyword'.kind_eq]) _)
  | .cons keyword .., .nil, r, r', hr, hr', h => by
    exact absurd h.symm (hr'.ne_cons (by simp [keyword.kind_eq]) _)
  | .cons keyword name semicolon body closing others,
    .cons keyword' name' semicolon' body' closing' others', r, r', hr, hr', h => by
    simp only [Procedures.words, List.cons_append, List.append_assoc, List.cons.injEq] at h
    obtain ⟨hk, hn, hs, h⟩ := h
    obtain ⟨hb, h⟩ := Block.append_inj (closing.ends (by decide) _) (closing'.ends (by decide) _) h
    obtain ⟨hc, h⟩ := List.cons.inj h
    obtain ⟨ho, h⟩ := Procedures.append_inj hr hr' h
    exact ⟨by rw [Word.token_inj hk, Word.token_inj hn, Word.token_inj hs, hb, Word.token_inj hc, ho], h⟩

end

/-- **Words are those of one program at most.** -/
theorem Program.words_inj {d d' : Program} (h : d.words = d'.words) : d = d' := by
  obtain ⟨hb, h⟩ := Block.append_inj (d.dot.ends (by decide) []) (d'.dot.ends (by decide) []) h
  obtain ⟨block, dot⟩ := d
  obtain ⟨block', dot'⟩ := d'
  exact Program.mk.injEq .. ▸ ⟨hb, Word.token_inj (List.cons.inj h).1⟩

end PL0.Phrase
