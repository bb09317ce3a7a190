/-
The account of a tree. A yard that was completed goes on to take words in, and still answers with a tree then: what
waits is in none. So the tree is made up of all that was taken exactly where the history strands no operator and
leaves no parenthesis open. Main statement: `tree_accounts_iff`.
-/
import PL0.Proofs.Yard.History

namespace PL0.Yard

/-- A completion that succeeds leaves nothing behind. -/
theorem not_strands_complete {rs : List Request} (h : openAfter rs = 0) : ¬Strands (rs ++ [.complete]) := by
  rw [strands_concat]
  rintro (⟨hop, -⟩ | ⟨-, hr⟩)
  · exact hop
  · exact hr ⟨trivial, h⟩

/-- What waits is all that a tree leaves out. -/
theorem account_of_tree {rs : List Request} {e : Expr} (h : (initial.afterAll rs).tree = .ok e) :
    (e.postorder ++ (initial.afterAll rs).stack.filterMap Waiting.item?).Perm
      ((initial.taken rs).filterMap Token.item?) := by
  obtain ⟨-, -, hrow⟩ := tree_eq_ok_iff.1 h
  have hitems := items_afterAll initial rs
  rw [show initial.items = [] from rfl, List.append_nil] at hitems
  rw [hrow]
  exact ((List.reverse_perm _).append_right _).trans hitems

/-- **The account of a tree.** After any history, a tree is refused for one cause only. One that is given was
completed, and it is made up of all the words that were taken, with nothing waiting, exactly where all parentheses
are closed and no operator is stranded. -/
theorem tree_accounts_iff (rs : List Request) :
    (∀ fault, (initial.afterAll rs).tree = .error fault → fault.kind = .unresolved) ∧
      ∀ e, (initial.afterAll rs).tree = .ok e →
        (∃ before rest, rs = before ++ .complete :: rest ∧ openAfter before = 0) ∧
          ((initial.afterAll rs).stack = [] ∧ e.postorder.Perm ((initial.taken rs).filterMap Token.item?) ↔
            openAfter rs = 0 ∧ ¬Strands rs) := by
  refine ⟨fun fault h => kind_of_tree_eq_error h, fun e h => ?_⟩
  have hstack : (initial.afterAll rs).stack = [] ↔ openAfter rs = 0 ∧ ¬Strands rs := by
    rw [stack_eq_nil_iff, depth_history, waitsOutside_history]
  refine ⟨(completed_history rs).1 (tree_eq_ok_iff.1 h).1, ?_⟩
  rw [← hstack]
  refine ⟨And.left, fun hs => ⟨hs, ?_⟩⟩
  have haccount := account_of_tree h
  rwa [hs, List.filterMap_nil, List.append_nil] at haccount

/-- `x - y`, and a completion. -/
def difference : List Request :=
  [.process (.plain .ident "x" 1), .process (.plain .minus "-" 1), .process (.plain .ident "y" 1), .complete]

/-- A difference that was completed is all that was taken. -/
theorem tree_accounts_iff_difference :
    (initial.afterAll difference).tree = .ok (.binary .minus (.operand (.ident "x")) (.operand (.ident "y"))) ∧
      (initial.afterAll difference).stack = [] ∧
      (Expr.binary .minus (.operand (.ident "x")) (.operand (.ident "y"))).postorder.Perm
        ((initial.taken difference).filterMap Token.item?) := by
  have htree : (initial.afterAll difference).tree =
      .ok (.binary .minus (.operand (.ident "x")) (.operand (.ident "y"))) := rfl
  have hkept : ¬Strands (difference.dropLast ++ [.complete]) := not_strands_complete rfl
  exact ⟨htree, (((tree_accounts_iff difference).2 _ htree).2).2 ⟨rfl, hkept⟩⟩

/-- `x`, a completion, and `-` after it: the tree is `x`, and the operator waits. -/
theorem tree_leaves_out_late_operator :
    ¬∀ rs e, (initial.afterAll rs).tree = .ok e →
      (initial.afterAll rs).stack = [] ∧ e.postorder.Perm ((initial.taken rs).filterMap Token.item?) := by
  intro h
  have hlate := h [.process (.plain .ident "x" 1), .complete, .process (.plain .minus "-" 1)]
    (.operand (.ident "x")) rfl
  cases hlate.1

end PL0.Yard
