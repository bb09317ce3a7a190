/-
How deep the grammar recurses. A rule that has not read a word calls only rules below it, so a bound of three
times the words that are left, and four more, is never met, whatever the words are. Main statements:
`leaves_loneTree` and `leaves_program`; each rule leaves a tail of its words, and a shorter one if it
succeeds.
-/
import PL0.Grammar

namespace PL0.Grammar

open PL0.Parser Outcome

variable {endLine : Nat} {ts : List Token}

/-! ## Expressions -/

theorem leaves_feed (y : Yard) (t : Token) : ((feed y t).run endLine ts).Leaves ts 0 := by
  unfold feed
  split
  · exact leaves_pure _
  · exact leaves_fail _ _

theorem leaves_leadingSign (y : Yard) : ((leadingSign y).run endLine ts).Leaves ts 0 := by
  rw [leadingSign, run_peek_bind]
  split
  · rename_i sign h
    refine (leaves_advance_bind (n := 0) ?_ fun _ => leaves_feed y sign).mono (Nat.zero_le 1)
    intro he
    simp [Token.toUnary?, he] at h
  · exact leaves_pure y

/-- **The rules of an expression** leave a tail of their words, within a bound of three for each word. -/
theorem leaves_expression_rules (n : Nat) :
    (∀ y endLine ts, 3 * ts.length + 3 ≤ n → ((expression n y).run endLine ts).Leaves ts 1) ∧
    (∀ y endLine ts, 3 * ts.length + 2 ≤ n → ((moreTerms n y).run endLine ts).Leaves ts 0) ∧
    (∀ y endLine ts, 3 * ts.length + 2 ≤ n → ((term n y).run endLine ts).Leaves ts 1) ∧
    (∀ y endLine ts, 3 * ts.length + 1 ≤ n → ((moreFactors n y).run endLine ts).Leaves ts 0) ∧
    (∀ y endLine ts, 3 * ts.length + 1 ≤ n → ((factor n y).run endLine ts).Leaves ts 1) := by
  induction n with
  | zero => refine ⟨?_, ?_, ?_, ?_, ?_⟩ <;> intro y endLine ts h <;> omega
  | succ n ih =>
    obtain ⟨ihe, ihmt, iht, ihmf, ihf⟩ := ih
    refine ⟨fun y endLine ts h => ?_, fun y endLine ts h => ?_, fun y endLine ts h => ?_,
      fun y endLine ts h => ?_, fun y endLine ts h => ?_⟩
    · rw [expression]
      refine leaves_bind (m := 0) (n := 1) (leaves_leadingSign y) fun y r hr => ?_
      refine leaves_bind (m := 1) (n := 0) (iht y endLine r (by omega)) fun y r' hr' => ?_
      exact ihmt y endLine r' (by omega)
    · rw [moreTerms, run_peek_bind]
      split
      case h_1 hk | h_2 hk =>
        refine (leaves_advance_bind (n := 0) (by simp [hk]) fun hlt => ?_).mono (Nat.zero_le 1)
        refine leaves_bind (m := 0) (n := 0) (leaves_feed y _) fun y r hr => ?_
        refine (leaves_bind (m := 1) (n := 0) (iht y endLine r (by omega)) fun y r' hr' => ?_).mono
          (Nat.zero_le 1)
        exact ihmt y endLine r' (by omega)
      case h_3 => exact leaves_pure y
    · rw [term]
      refine leaves_bind (m := 1) (n := 0) (ihf y endLine ts (by omega)) fun y r hr => ?_
      exact ihmf y endLine r (by omega)
    · rw [moreFactors, run_peek_bind]
      split
      case h_1 hk | h_2 hk =>
        refine (leaves_advance_bind (n := 0) (by simp [hk]) fun hlt => ?_).mono (Nat.zero_le 1)
        refine leaves_bind (m := 0) (n := 0) (leaves_feed y _) fun y r hr => ?_
        refine (leaves_bind (m := 1) (n := 0) (ihf y endLine r (by omega)) fun y r' hr' => ?_).mono
          (Nat.zero_le 1)
        exact ihmf y endLine r' (by omega)
      case h_3 => exact leaves_pure y
    · rw [factor, run_peek_bind]
      split
      case h_1 hk | h_2 hk =>
        exact leaves_advance_bind (n := 0) (by simp [hk]) fun _ => leaves_feed y _
      case h_3 hk =>
        refine leaves_advance_bind (n := 0) (by simp [hk]) fun hlt => ?_
        refine leaves_bind (m := 0) (n := 0) (leaves_feed y _) fun y r hr => ?_
        refine (leaves_bind (m := 1) (n := 0) (ihe y endLine r (by omega)) fun y r' hr' => ?_).mono
          (Nat.zero_le 1)
        exact leaves_accept?_bind (by decide) (fun _ => leaves_feed y _) (leaves_refuse _ _)
      case h_4 => exact leaves_refuse _ _

theorem leaves_tree {n : Nat} (h : 3 * ts.length + 3 ≤ n) :
    ((tree n).run endLine ts).Leaves ts 1 :=
  leaves_bind (m := 1) (n := 0) ((leaves_expression_rules n).1 .initial endLine ts h)
    fun y _ _ => leaves_ofExcept y.finish

theorem leaves_loneTree {n : Nat} (h : 3 * ts.length + 3 ≤ n) :
    ((loneTree n).run endLine ts).Leaves ts 1 := by
  refine leaves_bind (m := 1) (n := 0) ((leaves_expression_rules n).1 .initial endLine ts h)
    fun y r _ => ?_
  have hclose : ∀ r : List Token, ((do
      let _ ← expect .eof
      ofExcept y.finish : Parser Expr).run endLine r).Leaves r 0 := fun r =>
    leaves_bind (m := 0) (n := 0) leaves_expect_eof fun _ _ _ => leaves_ofExcept _
  refine leaves_accept?_bind (by decide) (fun hlt => ?_) ?_
  · refine leaves_bind (m := 0) (n := 0) (leaves_feed y _) fun y' r' _ => ?_
    exact leaves_bind (m := 0) (n := 0) leaves_expect_eof fun _ _ _ => leaves_ofExcept _
  · exact hclose r

/-! ## Conditions and statements -/

theorem leaves_condition {n : Nat} (h : 3 * ts.length + 3 ≤ n) :
    ((condition n).run endLine ts).Leaves ts 1 := by
  unfold condition
  refine leaves_accept?_bind (by decide) (fun hlt => ?_) ?_
  · exact leaves_bind (m := 1) (n := 0) (leaves_tree (by omega)) fun _ _ _ => leaves_pure _
  · refine leaves_bind (m := 1) (n := 0) (leaves_tree h) fun left r hr => ?_
    rw [run_peek_bind]
    split
    · rename_i rel hrel
      refine (leaves_advance_bind (n := 0) ?_ fun hlt => ?_).mono (Nat.zero_le 1)
      · intro he; rw [he] at hrel; simp [Relation.ofKind?] at hrel
      · exact (leaves_bind (m := 1) (n := 0) (leaves_tree (by omega)) fun _ _ _ =>
          leaves_pure _).mono (Nat.zero_le 1)
    · exact leaves_refuse _ _

/-- **The rules of a statement** leave a tail of their words, within a bound of three for each word. -/
theorem leaves_statement_rules (n : Nat) :
    (∀ endLine ts, 3 * ts.length + 3 ≤ n → ((statement n).run endLine ts).Leaves ts 1) ∧
    (∀ endLine ts, 3 * ts.length + 3 ≤ n → ((moreStatements n).run endLine ts).Leaves ts 0) := by
  induction n with
  | zero => refine ⟨?_, ?_⟩ <;> intro endLine ts h <;> omega
  | succ n ih =>
    obtain ⟨ihs, ihms⟩ := ih
    refine ⟨fun endLine ts h => ?_, fun endLine ts h => ?_⟩
    · rw [statement, run_peek_bind]
      split
      case h_1 hk =>
        refine leaves_advance_bind (n := 0) (by simp [hk]) fun hlt => ?_
        refine (leaves_bind (m := 1) (n := 0) (leaves_expect (by decide)) fun _ r hr => ?_).mono
          (Nat.zero_le 1)
        exact (leaves_bind (m := 1) (n := 0) (leaves_tree (by omega)) fun _ _ _ =>
          leaves_pure _).mono (Nat.zero_le 1)
      case h_2 hk =>
        refine leaves_advance_bind (n := 0) (by simp [hk]) fun hlt => ?_
        exact (leaves_bind (m := 1) (n := 0) (leaves_expect (by decide)) fun _ _ _ =>
          leaves_pure _).mono (Nat.zero_le 1)
      case h_3 hk =>
        refine leaves_advance_bind (n := 0) (by simp [hk]) fun hlt => ?_
        exact (leaves_bind (m := 1) (n := 0) (leaves_tree (by omega)) fun _ _ _ =>
          leaves_pure _).mono (Nat.zero_le 1)
      case h_4 hk =>
        refine leaves_advance_bind (n := 0) (by simp [hk]) fun hlt => ?_
        refine (leaves_bind (m := 1) (n := 0) (ihs endLine _ (by omega)) fun _ r hr => ?_).mono
          (Nat.zero_le 1)
        refine leaves_bind (m := 0) (n := 0) (ihms endLine r (by omega)) fun _ r' hr' => ?_
        exact (leaves_bind (m := 1) (n := 0) (leaves_expect (by decide)) fun _ _ _ =>
          leaves_pure _).mono (Nat.zero_le 1)
      case h_5 hk | h_6 hk =>
        refine leaves_advance_bind (n := 0) (by simp [hk]) fun hlt => ?_
        refine (leaves_bind (m := 1) (n := 0) (leaves_condition (by omega)) fun _ r hr => ?_).mono
          (Nat.zero_le 1)
        refine (leaves_bind (m := 1) (n := 0) (leaves_expect (by decide)) fun _ r' hr' => ?_).mono
          (Nat.zero_le 1)
        exact (leaves_bind (m := 1) (n := 0) (ihs endLine _ (by omega)) fun _ _ _ =>
          leaves_pure _).mono (Nat.zero_le 1)
      case h_7 => exact leaves_refuse _ _
    · rw [moreStatements]
      refine leaves_accept?_bind (by decide) (fun hlt => ?_) (leaves_pure _)
      refine (leaves_bind (m := 1) (n := 0) (ihs endLine _ (by omega)) fun _ r hr => ?_).mono
        (Nat.zero_le 1)
      exact leaves_bind (m := 0) (n := 0) (ihms endLine r (by omega)) fun _ _ _ => leaves_pure _

/-! ## Blocks -/

theorem leaves_literal : (literal.run endLine ts).Leaves ts 1 := by
  refine leaves_bind (m := 1) (n := 0) (leaves_expect (by decide)) fun t r hr => ?_
  split
  · exact leaves_pure _
  · exact leaves_fail _ _

theorem leaves_constantList (n : Nat) : ∀ d endLine ts, ts.length + 1 ≤ n →
    ((constantList n d).run endLine ts).Leaves ts 1 := by
  induction n with
  | zero => intro d endLine ts h; omega
  | succ n ih =>
    intro d endLine ts h
    rw [constantList]
    refine leaves_bind (m := 1) (n := 0) (leaves_expect (by decide)) fun name r hr => ?_
    refine (leaves_bind (m := 1) (n := 0) (leaves_expect (by decide)) fun _ r' hr' => ?_).mono
      (Nat.zero_le 1)
    refine (leaves_bind (m := 1) (n := 0) leaves_literal fun value r'' hr'' => ?_).mono
      (Nat.zero_le 1)
    refine leaves_accept?_bind (by decide) (fun hlt => ?_) ?_
    · exact (ih _ endLine _ (by omega)).mono (Nat.zero_le 1)
    · exact (leaves_bind (m := 1) (n := 0) (leaves_expect (by decide)) fun _ _ _ =>
        leaves_pure _).mono (Nat.zero_le 1)

theorem leaves_variableList (n : Nat) : ∀ d endLine ts, ts.length + 1 ≤ n →
    ((variableList n d).run endLine ts).Leaves ts 1 := by
  induction n with
  | zero => intro d endLine ts h; omega
  | succ n ih =>
    intro d endLine ts h
    rw [variableList]
    refine leaves_bind (m := 1) (n := 0) (leaves_expect (by decide)) fun name r hr => ?_
    refine leaves_accept?_bind (by decide) (fun hlt => ?_) ?_
    · exact (ih _ endLine _ (by omega)).mono (Nat.zero_le 1)
    · exact (leaves_bind (m := 1) (n := 0) (leaves_expect (by decide)) fun _ _ _ =>
        leaves_pure _).mono (Nat.zero_le 1)

theorem leaves_optionalPart {keyword : TokenKind} (hk : keyword ≠ .eof)
    {list : Declarations → Parser Declarations} {d : Declarations}
    (h : ts.tail.length < ts.length → ((list d).run endLine ts.tail).Leaves ts.tail 1) :
    ((optionalPart keyword list d).run endLine ts).Leaves ts 0 :=
  leaves_accept?_bind hk (fun hlt => (h hlt).mono (Nat.zero_le 1)) (leaves_pure _)

theorem leaves_declarations {n : Nat} (h : ts.length + 1 ≤ n) :
    ((declarations n).run endLine ts).Leaves ts 0 := by
  refine leaves_bind (m := 0) (n := 0) (leaves_optionalPart (by decide) fun hlt => ?_) fun d r hr => ?_
  · exact leaves_constantList n _ endLine _ (by omega)
  · exact leaves_optionalPart (by decide) fun hlt => leaves_variableList n d endLine _ (by omega)

/-- **The rules of a block** leave a tail of their words, within a bound of three for each word. -/
theorem leaves_block_rules (n : Nat) :
    (∀ endLine ts, 3 * ts.length + 4 ≤ n → ((block n).run endLine ts).Leaves ts 1) ∧
    (∀ endLine ts, 3 * ts.length + 3 ≤ n → ((procedures n).run endLine ts).Leaves ts 0) := by
  induction n with
  | zero => refine ⟨?_, ?_⟩ <;> intro endLine ts h <;> omega
  | succ n ih =>
    obtain ⟨ihb, ihp⟩ := ih
    refine ⟨fun endLine ts h => ?_, fun endLine ts h => ?_⟩
    · rw [block]
      refine leaves_bind (m := 0) (n := 1) (leaves_declarations (by omega)) fun _ r hr => ?_
      refine leaves_bind (m := 0) (n := 1) (ihp endLine r (by omega)) fun _ r' hr' => ?_
      exact leaves_bind (m := 1) (n := 0) ((leaves_statement_rules n).1 endLine r' (by omega))
        fun _ _ _ => leaves_pure _
    · rw [procedures]
      refine leaves_accept?_bind (by decide) (fun hlt => ?_) (leaves_pure _)
      refine (leaves_bind (m := 1) (n := 0) (leaves_expect (by decide)) fun _ r hr => ?_).mono
        (Nat.zero_le 1)
      refine (leaves_bind (m := 1) (n := 0) (leaves_expect (by decide)) fun _ r' hr' => ?_).mono
        (Nat.zero_le 1)
      refine (leaves_bind (m := 1) (n := 0) (ihb endLine r' (by omega)) fun _ r'' hr'' => ?_).mono
        (Nat.zero_le 1)
      refine (leaves_bind (m := 1) (n := 0) (leaves_expect (by decide)) fun _ r3 hr3 => ?_).mono
        (Nat.zero_le 1)
      exact leaves_bind (m := 0) (n := 0) (ihp endLine r3 (by omega)) fun _ _ _ => leaves_pure _

theorem leaves_program {n : Nat} (h : 3 * ts.length + 4 ≤ n) :
    ((program n).run endLine ts).Leaves ts 1 := by
  refine leaves_bind (m := 1) (n := 0) ((leaves_block_rules n).1 endLine ts h) fun _ _ _ => ?_
  refine (leaves_bind (m := 1) (n := 0) (leaves_expect (by decide)) fun _ _ _ => ?_).mono
    (Nat.zero_le 1)
  exact leaves_bind (m := 0) (n := 0) leaves_expect_eof fun _ _ _ => leaves_pure _

end PL0.Grammar
