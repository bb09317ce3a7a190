/-
The answer of a yard that was completed. A row is that of one tree at most, and a row of no tree is empty, or it
is made up of the rows of several trees, or an operator comes in it after fewer trees than it takes
(`RpnItem.Broken`). Which of these it is is decided at the first operator that has too few, and else at the end.
Main statement: `tree_inverts_postorder`.
-/
import PL0.Proofs.Yard.Request

namespace PL0

/-- Trees with one row are equal, if every operator in them has its operands. -/
theorem Expr.WellFormed.postorder_inj {e e' : Expr} (h : e.WellFormed) (h' : e'.WellFormed)
    (he : e.postorder = e'.postorder) : e = e' := by
  have ht := RpnItem.tree?_postorder h
  rw [he, RpnItem.tree?_postorder h'] at ht
  exact (Except.ok.inj ht).symm

namespace RpnItem

/-- Why a row is that of no tree. -/
inductive Broken : List RpnItem → RpnFault → Prop where
  /-- Nothing is in it. -/
  | empty : Broken [] .empty
  /-- It is made up of the rows of several trees. -/
  | surplus {trees : List Expr} (wellFormed : AllWellFormed trees) (several : 2 ≤ trees.length) :
    Broken (rowOf trees) (.surplus (trees.length - 1))
  /-- An operator comes after fewer trees than it takes. -/
  | missingOperand {trees : List Expr} {op : Operator} (wellFormed : AllWellFormed trees)
    (few : trees.length < op.arity) (row : List RpnItem) :
    Broken (rowOf trees ++ .operator op :: row) (.missingOperand op)

variable {trees : List Expr} {item : RpnItem} {row : List RpnItem} {reason : RpnFault}

/-- An item is refused if it is an operator that takes more trees than there are. -/
theorem push_eq_error (h : push trees item = .error reason) :
    ∃ op, item = .operator op ∧ trees.length < op.arity ∧ reason = .missingOperand op := by
  cases item with
  | operand leaf => cases h
  | operator op =>
    refine ⟨op, rfl, ?_⟩
    cases hu : op.isUnary with
    | true =>
      rcases trees with _ | ⟨inner, rest⟩
      · simp only [push, hu, if_true, Except.error.injEq] at h
        exact ⟨by simp [Operator.arity, hu], h.symm⟩
      · rw [push_operator_unary hu] at h
        cases h
    | false =>
      rcases trees with _ | ⟨right, _ | ⟨left, rest⟩⟩
      · simp only [push, hu, Bool.false_eq_true, if_false, Except.error.injEq] at h
        exact ⟨by simp [Operator.arity, hu], h.symm⟩
      · simp only [push, hu, Bool.false_eq_true, if_false, Except.error.injEq] at h
        exact ⟨by simp [Operator.arity, hu], h.symm⟩
      · rw [push_operator_binary hu] at h
        cases h

/-- A row is refused at an operator, and what was read before it are the rows of the trees that there are. By
induction on the row, with the trees that are finished before it. -/
theorem broken_of_pushAll_eq_error (hw : AllWellFormed trees) (h : pushAll trees row = .error reason) :
    Broken (rowOf trees ++ row) reason := by
  induction row generalizing trees with
  | nil => cases h
  | cons item row ih =>
    rw [pushAll] at h
    cases hp : push trees item with
    | error reason' =>
      rw [hp] at h
      cases h
      obtain ⟨op, rfl, hfew, rfl⟩ := push_eq_error hp
      exact .missingOperand hw hfew row
    | ok trees' =>
      rw [hp] at h
      obtain ⟨hw', hr'⟩ := push_eq_ok hw hp
      rw [List.append_cons, ← hr']
      exact ih hw' h

/-- A row that is refused is broken, for the reason that is given. -/
theorem broken_of_tree?_eq_error (h : tree? row = .error reason) : Broken row reason := by
  have hnil : AllWellFormed [] := List.forall_mem_nil _
  rw [tree?] at h
  cases hp : pushAll [] row with
  | error reason' =>
    rw [hp] at h
    cases h
    exact broken_of_pushAll_eq_error hnil hp
  | ok trees =>
    rw [hp] at h
    obtain ⟨hw, hr⟩ := pushAll_eq_ok hnil hp
    obtain rfl : rowOf trees = row := hr
    rcases trees with _ | ⟨root, _ | ⟨other, rest⟩⟩
    · cases h
      exact .empty
    · cases h
    · cases h
      exact .surplus hw (by simp)

end RpnItem

namespace Yard

/-- **Rows and trees are the same thing.** A yard that was completed answers with a tree exactly where its row is the
row of a tree in which every operator has its operands, and with that tree. There is no other of that row, and the row
has one item for each of its nodes. Every other row is broken, and is refused for the reason for which it is. -/
theorem tree_inverts_postorder {y : Yard} (h : y.completed = true) :
    (∀ e, y.tree = .ok e ↔ e.WellFormed ∧ e.postorder = y.rpn) ∧
      (∀ e, y.tree = .ok e → e.nodeCount = y.rpn.length ∧
        ∀ e' : Expr, e'.WellFormed → e'.postorder = y.rpn → e' = e) ∧
      ((∀ e : Expr, e.WellFormed → e.postorder ≠ y.rpn) → ∃ reason, RpnItem.Broken y.rpn reason ∧
        y.tree = .error (treeFault y.line reason) ∧ (treeFault y.line reason).kind = .unresolved) := by
  have hiff : ∀ e, y.tree = .ok e ↔ e.WellFormed ∧ e.postorder = y.rpn := by
    intro e
    rw [tree_eq_ok_iff]
    exact and_iff_right h
  refine ⟨hiff, fun e he => ?_, fun hnone => ?_⟩
  · obtain ⟨hw, hrow⟩ := (hiff e).1 he
    refine ⟨by rw [← hrow, e.length_postorder], fun e' hw' hrow' => ?_⟩
    exact hw'.postorder_inj hw (hrow'.trans hrow.symm)
  · cases ht : RpnItem.tree? y.rpn with
    | ok e =>
      obtain ⟨hw, hrow⟩ := RpnItem.tree?_eq_ok_iff.1 ht
      exact absurd hrow (hnone e hw)
    | error reason =>
      refine ⟨reason, RpnItem.broken_of_tree?_eq_error ht, ?_, kind_treeFault _ _⟩
      rw [tree, if_pos h, ht]
      rfl

/-- `x - y` with a sign before the `y`, completed. -/
def signedRight : Yard where
  output := [.operator .minus, .operator .unaryMinus, .operand (.ident "y"), .operand (.ident "x")]
  stack := []
  completed := true
  line := 1

/-- The row of a difference with a sign in it is that of one tree in which every operator has its operands, although
it is also that of a tree in which none has. -/
theorem tree_inverts_postorder_signed :
    signedRight.tree = .ok (.binary .minus (.operand (.ident "x")) (.unary .unaryMinus (.operand (.ident "y")))) ∧
      (∀ e' : Expr, e'.WellFormed → e'.postorder = signedRight.rpn →
        e' = .binary .minus (.operand (.ident "x")) (.unary .unaryMinus (.operand (.ident "y")))) ∧
      (Expr.unary .minus (.binary .unaryMinus (.operand (.ident "x")) (.operand (.ident "y")))).postorder =
        signedRight.rpn := by
  have hcompleted : signedRight.completed = true := rfl
  have htree : signedRight.tree =
      .ok (.binary .minus (.operand (.ident "x")) (.unary .unaryMinus (.operand (.ident "y")))) := rfl
  exact ⟨htree, ((tree_inverts_postorder hcompleted).2.1 _ htree).2, rfl⟩

end Yard

end PL0
