/-
Parentheses that do not match in an expression that stands alone. One that is missing is found where the words end,
by the rule that opened it, however deep that rule is and whatever waits in the yard; one too many is found by the
yard, which has none left to close. Words that lack closing parentheses at their end are described by
`LacksClosing`, and every rule of the grammar has its lemma on them, by recursion on the phrase that they would be
the words of. Main statement: `parseExpression_unmatched`.
-/
import PL0.Proofs.Reading.Expression

namespace PL0

open Grammar Phrase

/-- What is missing after the words `front`, for them to be the words `ws`, is closing parentheses, one at least. -/
def LacksClosing (front ws : List Token) : Prop :=
  ∃ closings, closings ≠ [] ∧ (∀ t ∈ closings, t.kind = .rparen) ∧ ws = front ++ closings

namespace LacksClosing

variable {front ws ws' : List Token} {t : Token}

theorem ne_nil (h : LacksClosing front ws) : ws ≠ [] := by
  obtain ⟨closings, hne, -, rfl⟩ := h
  simp [hne]

/-- What is missing of two parts is missing at the end of the first, or at the end of the second if that has words. -/
theorem append_cases (h : LacksClosing front (ws ++ ws')) (hends : Ends [.rparen] ws') :
    LacksClosing front ws ∨ ∃ front', front = ws ++ front' ∧ LacksClosing front' ws' := by
  obtain ⟨closings, hne, hall, he⟩ := h
  rcases List.append_eq_append_iff.1 he with ⟨front', rfl, hws'⟩ | ⟨shut, hws, rfl⟩
  · exact .inr ⟨front', rfl, closings, hne, hall, hws'⟩
  · -- the second part is closing parentheses, so it has no words
    cases ws' with
    | nil => exact .inl ⟨shut, by simpa using hne, by simpa using hall, hws⟩
    | cons t ws' =>
      have hk : t.kind = .rparen := hall t (by simp)
      simp [Ends, hk] at hends

/-- What is missing after a word that is no closing parenthesis is missing after the words behind it. -/
theorem of_cons (h : LacksClosing front (t :: ws)) (ht : t.kind ≠ .rparen) :
    ∃ front', front = t :: front' ∧ LacksClosing front' ws := by
  obtain ⟨closings, hne, hall, he⟩ := h
  cases front with
  | nil =>
    obtain rfl : t :: ws = closings := he
    exact absurd (hall t List.mem_cons_self) ht
  | cons u front' =>
    obtain ⟨rfl, rfl⟩ : t = u ∧ ws = front' ++ closings := List.cons.inj he
    exact ⟨front', rfl, closings, hne, hall, rfl⟩

/-- The last word alone is missing, or the words before it lack closing parentheses too. -/
theorem of_concat (h : LacksClosing front (ws ++ [t])) : front = ws ∨ LacksClosing front ws := by
  obtain ⟨closings, hne, hall, he⟩ := h
  rw [← List.dropLast_concat_getLast hne, ← List.append_assoc] at he
  obtain ⟨rfl, -⟩ := List.append_inj' he rfl
  by_cases hshut : closings.dropLast = []
  · exact .inl (by rw [hshut, List.append_nil])
  · exact .inr ⟨closings.dropLast, hshut, fun v hv => hall v (List.dropLast_subset _ hv), rfl⟩

/-- What does not stand at the front of the words does not stand at the front of those that are there. -/
theorem ends (h : LacksClosing front ws) {kinds : List TokenKind} (hends : Ends kinds ws) (hk : .eof ∉ kinds) :
    Ends kinds front := by
  obtain ⟨closings, -, -, rfl⟩ := h
  cases front with
  | nil => exact hk
  | cons u front => exact hends

end LacksClosing

namespace Phrase

/-- At the end of the words stands the end of the input. -/
theorem ends_nil {kinds : List TokenKind} (h : .eof ∉ kinds) : Ends kinds [] := h

theorem ne_rparen_of_mem {kind : TokenKind} (h : kind ∈ expressionKinds) : kind ≠ .rparen := by
  rintro rfl
  revert h
  decide

theorem Sign.kind_ne_rparen (s : Sign) : s.token.kind ≠ .rparen :=
  ne_rparen_of_mem (List.mem_append_left _ s.kind_mem)

theorem Times.kind_ne_rparen (o : Times) : o.token.kind ≠ .rparen :=
  ne_rparen_of_mem (List.mem_append_right _ o.kind_mem)

theorem Terms.ends_rparen (d : Terms) : Ends [.rparen] d.words := by
  cases d with
  | nil => exact ends_nil (by decide)
  | cons sign term others => simp [Ends, Terms.words, sign.kind_ne_rparen]

theorem Factors.ends_rparen (d : Factors) : Ends [.rparen] d.words := by
  cases d with
  | nil => exact ends_nil (by decide)
  | cons times factor others => simp [Ends, Factors.words, times.kind_ne_rparen]

/-- Other terms that lack closing parentheses do not go on with a product. -/
theorem Terms.ends_of_lacksClosing (d : Terms) {front : List Token} (h : LacksClosing front d.words) :
    Ends productKinds front := by
  have hwords : Ends productKinds (d.words ++ []) := d.ends (ends_nil (by decide))
  rw [List.append_nil] at hwords
  exact h.ends hwords (by decide)

end Phrase

namespace Grammar

open PL0.Parser

/-- How a rule ends that misses a closing parenthesis where the words end. -/
def unclosedAtEnd (endLine : Nat) : Outcome Yard := .failed (.unclosedAt TokenKind.eof.describe endLine) []

theorem run_bind_of_unclosedAtEnd {α : Type} {p : Parser Yard} {endLine : Nat} {ts : List Token}
    (h : p.run endLine ts = unclosedAtEnd endLine) (f : Yard → Parser α) :
    (p >>= f).run endLine ts = .failed (.unclosedAt TokenKind.eof.describe endLine) [] := by
  rw [run_bind, h]
  rfl

/-- Two rules, one after the other: what is missing is missed by the first, or the first reads its words and what is
missing is missed by the second. -/
theorem run_bind_unclosed {p : Parser Yard} {f : Yard → Parser Yard} {endLine : Nat} {front ws ws' : List Token}
    (hfront : LacksClosing front (ws ++ ws')) (hends : Ends [.rparen] ws')
    (hleft : LacksClosing front ws → p.run endLine front = unclosedAtEnd endLine)
    (hright : ∀ front', front = ws ++ front' → LacksClosing front' ws' →
      ∃ y, p.run endLine front = .done y front' ∧ (f y).run endLine front' = unclosedAtEnd endLine) :
    (p >>= f).run endLine front = unclosedAtEnd endLine := by
  rcases hfront.append_cases hends with hf | ⟨front', he, hf⟩
  · exact run_bind_of_unclosedAtEnd (hleft hf) f
  · obtain ⟨y, hp, hq⟩ := hright front' he hf
    rw [run_bind_of_done hp, hq]

variable {n endLine : Nat} {y y' : Yard} {front : List Token}

/-- A term and the terms after it that lack closing parentheses, if both are refused for the lack of one. -/
theorem run_sum_unclosed {first : Term} {others : Terms} (hn : 3 * front.length + 2 ≤ n)
    (hf : LacksClosing front (first.words ++ others.words)) (h : y.processAll first.marked = .ok y')
    (hfirst : LacksClosing front first.words → (term n y).run endLine front = unclosedAtEnd endLine)
    (hothers : ∀ front', front'.length ≤ front.length → LacksClosing front' others.words →
      (moreTerms n y').run endLine front' = unclosedAtEnd endLine) :
    (term n y >>= moreTerms n).run endLine front = unclosedAtEnd endLine := by
  refine run_bind_unclosed hf others.ends_rparen hfirst ?_
  rintro front' rfl hf'
  rw [List.length_append] at hn
  have hle : front'.length ≤ (first.words ++ front').length := by rw [List.length_append]; omega
  exact ⟨y', run_term first (by omega) (others.ends_of_lacksClosing hf') h, hothers front' hle hf'⟩

/-- A factor and the factors after it that lack closing parentheses, if both are refused for the lack of one. -/
theorem run_product_unclosed {first : Factor} {others : Factors} (hn : 3 * front.length + 1 ≤ n)
    (hf : LacksClosing front (first.words ++ others.words)) (h : y.processAll first.marked = .ok y')
    (hfirst : LacksClosing front first.words → (factor n y).run endLine front = unclosedAtEnd endLine)
    (hothers : ∀ front', front'.length ≤ front.length → LacksClosing front' others.words →
      (moreFactors n y').run endLine front' = unclosedAtEnd endLine) :
    (factor n y >>= moreFactors n).run endLine front = unclosedAtEnd endLine := by
  refine run_bind_unclosed hf others.ends_rparen hfirst ?_
  rintro front' rfl hf'
  rw [List.length_append] at hn
  have hle : front'.length ≤ (first.words ++ front').length := by rw [List.length_append]; omega
  exact ⟨y', run_factor first (by omega) h, hothers front' hle hf'⟩

mutual

/-- **An expression** that lacks closing parentheses is refused for the lack of one. -/
theorem run_expression_unclosed : ∀ (d : Expression) {n endLine : Nat} {y y' : Yard} {front : List Token},
    3 * front.length + 3 ≤ n → LacksClosing front d.words → y.processAll d.marked = .ok y' →
    (expression n y).run endLine front = unclosedAtEnd endLine
  | .mk none first others, n + 1, endLine, y, y', front, hn, hf, h => by
    obtain ⟨y₁, h₁, h₂⟩ := Yard.processAll_eq_ok_append.1 h
    have hsign : Ends sumKinds front := hf.ends (first.ends _) (by decide)
    rw [expression, run_bind_of_done (run_leadingSign_nil y hsign)]
    exact run_sum_unclosed (by omega) hf h₁ (fun hf => run_term_unclosed first (by omega) hf h₁)
      fun front' hle hf' => run_moreTerms_unclosed others (by omega) hf' h₂
  | .mk (some sign) first others, n + 1, endLine, y, y', front, hn, hf, h => by
    obtain ⟨y₀, h₀, h⟩ := Yard.processAll_eq_ok_cons.1 h
    obtain ⟨y₁, h₁, h₂⟩ := Yard.processAll_eq_ok_append.1 h
    obtain ⟨front, rfl, hrest⟩ := hf.of_cons sign.kind_ne_rparen
    rw [List.length_cons] at hn
    have hs : (leadingSign y).run endLine (sign.token :: front) = _ :=
      (run_leadingSign_cons sign y _).trans (run_feed_eq_done.2 ⟨h₀, rfl⟩)
    rw [expression, run_bind_of_done hs]
    exact run_sum_unclosed (by omega) hrest h₁ (fun hf => run_term_unclosed first (by omega) hf h₁)
      fun front' hle hf' => run_moreTerms_unclosed others (by omega) hf' h₂

theorem run_moreTerms_unclosed : ∀ (d : Terms) {n endLine : Nat} {y y' : Yard} {front : List Token},
    3 * front.length + 2 ≤ n → LacksClosing front d.words → y.processAll d.marked = .ok y' →
    (moreTerms n y).run endLine front = unclosedAtEnd endLine
  | .nil, _, _, _, _, _, _, hf, _ => absurd rfl hf.ne_nil
  | .cons sign term others, n + 1, endLine, y, y', front, hn, hf, h => by
    obtain ⟨y₀, h₀, h⟩ := Yard.processAll_eq_ok_cons.1 h
    obtain ⟨y₁, h₁, h₂⟩ := Yard.processAll_eq_ok_append.1 h
    obtain ⟨front, rfl, hrest⟩ := hf.of_cons sign.kind_ne_rparen
    rw [List.length_cons] at hn
    rw [run_moreTerms_cons, run_feed_bind h₀]
    exact run_sum_unclosed (by omega) hrest h₁ (fun hf => run_term_unclosed term (by omega) hf h₁)
      fun front' hle hf' => run_moreTerms_unclosed others (by omega) hf' h₂

theorem run_term_unclosed : ∀ (d : Term) {n endLine : Nat} {y y' : Yard} {front : List Token},
    3 * front.length + 2 ≤ n → LacksClosing front d.words → y.processAll d.marked = .ok y' →
    (term n y).run endLine front = unclosedAtEnd endLine
  | .mk first others, n + 1, endLine, y, y', front, hn, hf, h => by
    obtain ⟨y₁, h₁, h₂⟩ := Yard.processAll_eq_ok_append.1 h
    rw [Grammar.term]
    exact run_product_unclosed (by omega) hf h₁ (fun hf => run_factor_unclosed first (by omega) hf h₁)
      fun front' hle hf' => run_moreFactors_unclosed others (by omega) hf' h₂

theorem run_moreFactors_unclosed : ∀ (d : Factors) {n endLine : Nat} {y y' : Yard} {front : List Token},
    3 * front.length + 1 ≤ n → LacksClosing front d.words → y.processAll d.marked = .ok y' →
    (moreFactors n y).run endLine front = unclosedAtEnd endLine
  | .nil, _, _, _, _, _, _, hf, _ => absurd rfl hf.ne_nil
  | .cons times factor others, n + 1, endLine, y, y', front, hn, hf, h => by
    obtain ⟨y₀, h₀, h⟩ := Yard.processAll_eq_ok_cons.1 h
    obtain ⟨y₁, h₁, h₂⟩ := Yard.processAll_eq_ok_append.1 h
    obtain ⟨front, rfl, hrest⟩ := hf.of_cons times.kind_ne_rparen
    rw [List.length_cons] at hn
    rw [run_moreFactors_cons, run_feed_bind h₀]
    exact run_product_unclosed (by omega) hrest h₁ (fun hf => run_factor_unclosed factor (by omega) hf h₁)
      fun front' hle hf' => run_moreFactors_unclosed others (by omega) hf' h₂

theorem run_factor_unclosed : ∀ (d : Factor) {n endLine : Nat} {y y' : Yard} {front : List Token},
    3 * front.length + 1 ≤ n → LacksClosing front d.words → y.processAll d.marked = .ok y' →
    (factor n y).run endLine front = unclosedAtEnd endLine
  | .ident name, _, _, _, _, _, _, hf, _ => by
    obtain ⟨front, -, hf⟩ := hf.of_cons (by simp [name.kind_eq])
    exact absurd rfl hf.ne_nil
  | .number value, _, _, _, _, _, _, hf, _ => by
    obtain ⟨front, -, hf⟩ := hf.of_cons (by simp [value.kind_eq])
    exact absurd rfl hf.ne_nil
  | .paren opening inner closing, n + 1, endLine, y, y', front, hn, hf, h => by
    obtain ⟨y₀, h₀, h⟩ := Yard.processAll_eq_ok_cons.1 h
    obtain ⟨y₁, h₁, -⟩ := Yard.processAll_eq_ok_append.1 h
    obtain ⟨front, rfl, hrest⟩ := hf.of_cons (by simp [opening.kind_eq])
    rw [List.length_cons] at hn
    rw [factor, run_peek_bind]
    simp only [frontOf_cons, opening.kind_eq, run_advance_bind, List.tail_cons]
    rw [run_feed_bind h₀]
    rcases hrest.of_concat with rfl | hinner
    · -- the parenthesis that is missing is the one of this factor
      have hread : (expression n y₀).run endLine (inner.words ++ []) = .done y₁ [] :=
        run_expression inner (by omega) (ends_nil (by decide)) h₁
      rw [List.append_nil] at hread
      rw [run_bind_of_done hread]
      rfl
    · exact run_bind_of_unclosedAtEnd (run_expression_unclosed inner (by omega) hinner h₁) _

end

/-! ## Expressions that stand alone -/

theorem run_feed_bind_of_error {α : Type} {y y' : Yard} {t : Token} {fault : Fault}
    (h : y.process t = (.error fault, y')) (f : Yard → Parser α) {endLine : Nat} {ts : List Token} :
    (feed y t >>= f).run endLine ts = .failed fault ts := by
  rw [run_bind, feed, h]
  rfl

/-- The yard refuses a closing parenthesis after a whole expression, whatever stands behind it. -/
theorem run_loneTree_surplus (d : Expression) {n endLine : Nat} {closing : Token} (hk : closing.kind = .rparen)
    (more : List Token) (hn : 3 * d.words.length + 3 ≤ n) :
    (loneTree n).run endLine (d.words ++ closing :: more) = .failed (.unopened closing.line) more := by
  obtain ⟨y, hy, hh⟩ := d.builds .initial (Yard.blocks_nil _)
  obtain ⟨y', hp⟩ := process_surplus hh hk
  have hends : Ends expressionKinds (closing :: more) := fun hm => ne_rparen_of_mem hm hk
  rw [loneTree, run_bind_of_done (run_expression d hn hends hy), run_accept?_bind, frontOf_cons, if_pos hk]
  exact run_feed_bind_of_error hp _

theorem run_loneTree_unclosed (d : Expression) {n endLine : Nat} {front : List Token}
    (hf : LacksClosing front d.words) (hn : 3 * front.length + 3 ≤ n) :
    (loneTree n).run endLine front = .failed (.unclosedAt TokenKind.eof.describe endLine) [] := by
  obtain ⟨y, hy, -⟩ := d.builds .initial (Yard.blocks_nil _)
  exact run_bind_of_unclosedAtEnd (run_expression_unclosed d hn hf hy) _

end Grammar

variable {ws : List Token}

/-- Words without an end of the input among them all come before it. -/
theorem beforeEnd_eq_self (h : ∀ t ∈ ws, t.kind ≠ .eof) : beforeEnd ws = ws := by
  have he : beforeEnd (ws ++ []) = ws := beforeEnd_append h rfl
  rwa [List.append_nil] at he

theorem parseExpression_of_failed {fault : Fault} {rest : List Token}
    (h : (loneTree (Cursor.ofTokens ws).bound).run (Cursor.ofTokens ws).endLine ws = .failed fault rest) :
    parseExpression ws = .error fault := by
  have hsettle : ∀ (o : Outcome Expr) (hne : o ≠ .exhausted), o = .failed fault rest →
      (o.settle hne).1 = .error fault := by
    rintro _ _ rfl
    rfl
  exact hsettle _ _ h

/-- **Parentheses that do not match.** Where words make up an expression, a closing parenthesis after them is refused
as one that was never opened, on its own line and whatever stands behind it. Where words make up an expression only
with closing parentheses after them, they are refused without these as an expression with a parenthesis that is never
closed, where they end. Both are faults of parentheses that do not match, and of no other kind. -/
theorem parseExpression_unmatched (hws : ∀ t ∈ ws, t.kind ≠ .eof) :
    (∀ e, parseExpression ws = .ok e → ∀ (closing : Token) (more : List Token), closing.kind = .rparen →
        parseExpression (ws ++ closing :: more) = .error (.unopened closing.line)) ∧
      (∀ closings, closings ≠ [] → (∀ t ∈ closings, t.kind = .rparen) →
        ∀ e, parseExpression (ws ++ closings) = .ok e →
          parseExpression ws =
            .error (.unclosedAt TokenKind.eof.describe ((ws.getLast?.map (·.line)).getD 1))) ∧
      ∀ lexeme line, (Fault.unopened line).kind = .unbalanced ∧
        (Fault.unclosedAt lexeme line).kind = .unbalanced := by
  refine ⟨fun e he closing more hk => ?_, fun closings hne hall e he => ?_, fun _ _ => ⟨rfl, rfl⟩⟩
  · obtain ⟨d, hd, -⟩ := phrase_of_parseExpression he
    rw [beforeEnd_eq_self hws] at hd
    subst hd
    refine parseExpression_of_failed (run_loneTree_surplus d hk more ?_)
    simp only [Cursor.bound, Cursor.ofTokens, List.length_append]
    omega
  · have hend : ∀ t ∈ ws ++ closings, t.kind ≠ .eof := by
      refine List.forall_mem_append.2 ⟨hws, fun t ht => ?_⟩
      rw [hall t ht]
      decide
    obtain ⟨d, hd, -⟩ := phrase_of_parseExpression he
    rw [beforeEnd_eq_self hend] at hd
    refine parseExpression_of_failed (run_loneTree_unclosed d ⟨closings, hne, hall, hd⟩ ?_)
    simp only [Cursor.bound, Cursor.ofTokens]
    omega

/-- `-(x`, on two lines. -/
def openNegation : List Token :=
  [.plain .minus "-" 1, .plain .lparen "(" 1, .plain .ident "x" 2]

/-- An open parenthesis is missed where the words end, and the second closing one is too many. -/
theorem parseExpression_unmatched_negation :
    parseExpression openNegation = .error (.unclosedAt "end of input" 2) ∧
      parseExpression (openNegation ++ [.plain .rparen ")" 2]) = .ok (.unary .unaryMinus (.operand (.ident "x"))) ∧
      parseExpression (openNegation ++ [.plain .rparen ")" 2] ++ [.plain .rparen ")" 3, .plain .ident "y" 3]) =
        .error (.unopened 3) := by
  have hclosed : parseExpression (openNegation ++ [.plain .rparen ")" 2]) =
      .ok (.unary .unaryMinus (.operand (.ident "x"))) := rfl
  have hwords : ∀ t ∈ openNegation, t.kind ≠ .eof := by decide
  have hwords' : ∀ t ∈ openNegation ++ [.plain .rparen ")" 2], t.kind ≠ .eof := by decide
  exact ⟨(parseExpression_unmatched hwords).2.1 _ (by decide) (by decide) _ hclosed, hclosed,
    (parseExpression_unmatched hwords').1 _ hclosed _ _ rfl⟩

end PL0
