/-
After a mismatch. A yard does not remember that it reported one: what stood above the parenthesis is in the row, and
the yard goes on from there. So a later completion succeeds where no parenthesis is open, and a tree is given after
it. Main statement: `mismatch_final_iff`, on the histories in which the mismatch is the end nevertheless.
-/
import PL0.Proofs.Yard.History

namespace PL0.Yard

theorem refusal?_complete_eq_none_iff (rs : List Request) :
    (initial.afterAll rs).refusal? .complete = none ↔ openAfter rs = 0 := by
  rw [refusal?_complete, depth_history]
  split <;> simp [*]

theorem refusal?_tree_eq_none_iff (y : Yard) : y.refusal? .tree = none ↔
    y.completed = true ∧ ∃ e : Expr, e.WellFormed ∧ e.postorder = y.rpn := by
  rw [refusal?, ← exists_and_left]
  simp only [← tree_eq_ok_iff]
  cases y.tree <;> simp [faultOf?]

/-- Where the completion was that a history holds: before some request of it, in it, or after it. -/
theorem completed_around (before : List Request) (r : Request) (after : List Request) :
    (initial.afterAll (before ++ r :: after)).completed = true ↔
      (∃ first rest, before = first ++ .complete :: rest ∧ openAfter first = 0) ∨
        (r = .complete ∧ openAfter before = 0) ∨
        ∃ mid rest, after = mid ++ .complete :: rest ∧ openAfter (before ++ r :: mid) = 0 := by
  have hopen : ∀ mid, openAfter (before ++ r :: mid) = mid.foldl Request.depthAfter (r.depthAfter (openAfter before)) :=
    fun mid => List.foldl_append
  rw [afterAll_append, show (initial.afterAll before).afterAll (r :: after) =
    ((initial.afterAll before).after r).afterAll after from rfl, completed_afterAll, completed_after, completed_history,
    depth_after, depth_history, or_assoc]
  simp only [hopen]

/-- **After a mismatch** every completion and every tree is refused exactly where parentheses are open at each of the
completions, and, had the yard been completed before, the row is that of no tree at any of the trees. -/
theorem mismatch_final_iff {before : List Request} {bad : Request}
    (h : ((initial.afterAll before).refusal? bad).map Fault.kind = some .unbalanced) (after : List Request) :
    (∀ mid r rest, after = mid ++ r :: rest → r = .complete ∨ r = .tree →
        (initial.afterAll (before ++ bad :: mid)).refusal? r ≠ none) ↔
      (∀ mid rest, after = mid ++ .complete :: rest → openAfter (before ++ bad :: mid) ≠ 0) ∧
        ((∃ first rest, before = first ++ .complete :: rest ∧ openAfter first = 0) →
          ∀ mid rest, after = mid ++ .tree :: rest →
            ∀ e : Expr, e.WellFormed → e.postorder ≠ (initial.afterAll (before ++ bad :: mid)).rpn) := by
  have hbad : ¬(bad = .complete ∧ openAfter before = 0) := by
    rintro ⟨rfl, hd⟩
    rw [(refusal?_complete_eq_none_iff before).2 hd] at h
    cases h
  constructor
  · intro hrefused
    refine ⟨fun mid rest hm hd => ?_, fun hfirst mid rest hm e hw hrow => ?_⟩
    · exact hrefused mid .complete rest hm (.inl rfl) ((refusal?_complete_eq_none_iff _).2 hd)
    · refine hrefused mid .tree rest hm (.inr rfl) ((refusal?_tree_eq_none_iff _).2 ⟨?_, e, hw, hrow⟩)
      exact (completed_around before bad mid).2 (.inl hfirst)
  · rintro ⟨hopen, hrow⟩ mid r rest hm (rfl | rfl)
    · rw [Ne, refusal?_complete_eq_none_iff]
      exact hopen mid rest hm
    · -- a tree needs a completion that succeeded, and none did but those before the mismatch
      rw [Ne, refusal?_tree_eq_none_iff]
      rintro ⟨hcompleted, e, hw, he⟩
      rcases (completed_around before bad mid).1 hcompleted with hfirst | hnow | ⟨mid', rest', rfl, hd⟩
      · exact hrow hfirst mid rest hm e hw he
      · exact hbad hnow
      · exact hopen mid' (rest' ++ .tree :: rest) (by rw [hm]; simp) hd

/-- `(x`, before a completion. -/
def opened : List Request := [.process (.plain .lparen "(" 1), .process (.plain .ident "x" 1)]

/-- `(x` cannot be completed, and has no tree after that. -/
theorem mismatch_final_iff_opened :
    ((initial.afterAll opened).refusal? .complete).map Fault.kind = some .unbalanced ∧
      ∀ mid r rest, [Request.tree] = mid ++ r :: rest → r = .complete ∨ r = .tree →
        (initial.afterAll (opened ++ .complete :: mid)).refusal? r ≠ none := by
  have hrefused : ((initial.afterAll opened).refusal? .complete).map Fault.kind = some .unbalanced := rfl
  have hnone : ∀ {rs : List Request}, .complete ∉ rs → ∀ first rest, rs ≠ first ++ .complete :: rest := by
    rintro rs hrs first rest rfl
    simp at hrs
  refine ⟨hrefused, (mismatch_final_iff hrefused [.tree]).2 ⟨fun mid rest hm => ?_, ?_⟩⟩
  · exact absurd hm (hnone (by decide) mid rest)
  · rintro ⟨first, rest, hf, -⟩
    exact absurd hf (hnone (by decide) first rest)

/-- `x )` is refused at the parenthesis, and a completion succeeds after it. -/
theorem complete_after_mismatch :
    ¬∀ before bad after, ((initial.afterAll before).refusal? bad).map Fault.kind = some .unbalanced →
      ∀ mid r rest, after = mid ++ r :: rest → r = .complete ∨ r = .tree →
        (initial.afterAll (before ++ bad :: mid)).refusal? r ≠ none := by
  intro h
  exact h [.process (.plain .ident "x" 1)] (.process (.plain .rparen ")" 1)) [.complete] rfl
    [] .complete [] rfl (.inl rfl) rfl

end PL0.Yard
