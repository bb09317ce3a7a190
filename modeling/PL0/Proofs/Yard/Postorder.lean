/-
Rows and trees. The trees on the stack, written one after another, are the items that have been read so far
(`RpnItem.rowOf`): reading an item adds it at the end. So a row has a tree only if it is the row of that tree. Main
statement: `RpnItem.tree?_eq_ok_iff`.
-/
import PL0.Rpn

namespace PL0.RpnItem

/-- The rows of the trees on a stack, one after another. -/
def rowOf (trees : List Expr) : List RpnItem := trees.reverse.flatMap Expr.postorder

theorem rowOf_cons (e : Expr) (trees : List Expr) : rowOf (e :: trees) = rowOf trees ++ e.postorder := by
  simp [rowOf]

/-- All trees of the stack have their operands. -/
def AllWellFormed (trees : List Expr) : Prop := ∀ e ∈ trees, e.WellFormed

theorem allWellFormed_cons {e : Expr} {trees : List Expr} :
    AllWellFormed (e :: trees) ↔ e.WellFormed ∧ AllWellFormed trees := List.forall_mem_cons

/-- An item that is read comes last in the rows of the trees. -/
theorem push_eq_ok {trees trees' : List Expr} {item : RpnItem} (hw : AllWellFormed trees)
    (h : push trees item = .ok trees') : AllWellFormed trees' ∧ rowOf trees' = rowOf trees ++ [item] := by
  cases item with
  | operand leaf =>
    cases h
    exact ⟨allWellFormed_cons.2 ⟨trivial, hw⟩, rowOf_cons _ _⟩
  | operator op =>
    cases hu : op.isUnary with
    | true =>
      rcases trees with _ | ⟨inner, rest⟩
      · simp [push, hu] at h
      · rw [push_operator_unary hu] at h
        cases h
        obtain ⟨hi, hr⟩ := allWellFormed_cons.1 hw
        exact ⟨allWellFormed_cons.2 ⟨⟨hu, hi⟩, hr⟩, by simp [rowOf_cons, Expr.postorder]⟩
    | false =>
      rcases trees with _ | ⟨right, _ | ⟨left, rest⟩⟩
      · simp [push, hu] at h
      · simp [push, hu] at h
      · rw [push_operator_binary hu] at h
        cases h
        obtain ⟨hr, hw⟩ := allWellFormed_cons.1 hw
        obtain ⟨hl, hw⟩ := allWellFormed_cons.1 hw
        exact ⟨allWellFormed_cons.2 ⟨⟨hu, hl, hr⟩, hw⟩, by simp [rowOf_cons, Expr.postorder]⟩

theorem pushAll_eq_ok {trees trees' : List Expr} {row : List RpnItem} (hw : AllWellFormed trees)
    (h : pushAll trees row = .ok trees') : AllWellFormed trees' ∧ rowOf trees' = rowOf trees ++ row := by
  induction row generalizing trees with
  | nil =>
    cases h
    exact ⟨hw, (List.append_nil _).symm⟩
  | cons item row ih =>
    rw [pushAll] at h
    cases hp : push trees item with
    | error fault => rw [hp] at h; cases h
    | ok trees₁ =>
      rw [hp] at h
      obtain ⟨hw₁, hr₁⟩ := push_eq_ok hw hp
      obtain ⟨hw', hr'⟩ := ih hw₁ h
      exact ⟨hw', by rw [hr', hr₁, List.append_assoc, List.singleton_append]⟩

/-- **A row has a tree** exactly when it is the row of that tree. -/
theorem tree?_eq_ok_iff {row : List RpnItem} {e : Expr} :
    tree? row = .ok e ↔ e.WellFormed ∧ e.postorder = row := by
  constructor
  · intro h
    rw [tree?] at h
    cases hp : pushAll [] row with
    | error fault => rw [hp] at h; cases h
    | ok trees =>
      rw [hp] at h
      have hnil : AllWellFormed [] := List.forall_mem_nil _
      obtain ⟨hw, hr⟩ := pushAll_eq_ok hnil hp
      rcases trees with _ | ⟨root, _ | ⟨other, rest⟩⟩
      · cases h
      · cases h
        exact ⟨(allWellFormed_cons.1 hw).1, by rw [rowOf_cons] at hr; exact hr⟩
      · cases h
  · rintro ⟨hw, rfl⟩
    exact tree?_postorder hw

end PL0.RpnItem
