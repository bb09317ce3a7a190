/-
What may wait on what. If no leading sign is handed over while an operator is on top of the stack, then along the stack
every operator right above another one stands between two operands and ranks higher: one that joins its operands
releases all that do not rank lower, before it waits. Main statements: `Ranked.after`, by which one request keeps the
ranks, and `Ranked.inOrder`, which says what the ranks amount to between two parentheses.
-/
import Mathlib.Data.List.Chain
import PL0.Proofs.Yard.Request

namespace PL0

/-- What may wait right above something else: an operator waits above an operator only if it has two operands and ranks
higher. -/
def Waiting.Above : Waiting → Waiting → Prop
  | operator upper, operator lower => lower.precedence < upper.precedence ∧ upper.isUnary = false
  | operator _, paren => True
  | paren, _ => True

namespace Operator

/-- The ranks of operators that stand between two operands. -/
theorem precedence_of_binary {op : Operator} (h : op.isUnary = false) : op.precedence = 10 ∨ op.precedence = 20 := by
  cases op with
  | plus | minus => exact .inl rfl
  | multiply | divide => exact .inr rfl
  | unaryPlus | unaryMinus => cases h

theorem ten_le_precedence (op : Operator) : 10 ≤ op.precedence := by cases op <;> decide

end Operator

/-- The request hands over a leading sign, if at all, while no operator is on top of the stack. -/
def Request.SignFits (y : Yard) : Request → Prop
  | process t => ∀ op, t.item? = some (.operator op) → op.isUnary = true → Yard.Blocks 0 y.stack
  | complete => True
  | tree => True

namespace Yard

/-- Whatever waits may wait where it does. -/
def Ranked (y : Yard) : Prop := y.stack.IsChain Waiting.Above

/-- Of operators that wait one right above another, with no parenthesis among them, each ranks higher than the one below
it, a leading sign is the lowest, and there are two at most. -/
structure InOrder (y : Yard) : Prop where
  descending : ∀ ops : List Operator, ops.map .operator <:+: y.stack →
    (ops.map Operator.precedence).Pairwise (· > ·)
  signLowest : ∀ upper lower : Operator, [.operator upper, .operator lower] <:+: y.stack → upper.isUnary = false
  two : ∀ ops : List Operator, ops.map .operator <:+: y.stack → ops.length ≤ 2

theorem ranked_initial : initial.Ranked := List.isChain_nil

theorem Ranked.of_suffix {y y' : Yard} (h : y.Ranked) (hs : y'.stack <:+ y.stack) : y'.Ranked := h.suffix hs

/-! ## One request -/

theorem blocks_release (rank : Nat) (output : List RpnItem) (stack : List Waiting) :
    Blocks rank (release rank output stack).2 := by
  induction stack generalizing output with
  | nil => exact blocks_nil rank
  | cons w stack ih =>
    cases w with
    | paren => exact blocks_paren rank stack
    | operator op =>
      rw [release]
      split
      · rename_i h
        exact blocks_operator h stack
      · exact ih _

theorem suffix_release (rank : Nat) (output : List RpnItem) (stack : List Waiting) :
    (release rank output stack).2 <:+ stack := by
  obtain ⟨ops, rest, hs, hr⟩ := exists_release rank output stack
  rw [hr, hs]
  exact List.suffix_append _ _

theorem isChain_operator {op : Operator} {stack : List Waiting} (h : stack.IsChain Waiting.Above)
    (ht : ∀ lower rest, stack = .operator lower :: rest → lower.precedence < op.precedence ∧ op.isUnary = false) :
    (Waiting.operator op :: stack).IsChain Waiting.Above := by
  cases stack with
  | nil => exact List.isChain_singleton _
  | cons w rest =>
    refine List.isChain_cons_cons.2 ⟨?_, h⟩
    cases w with
    | paren => exact trivial
    | operator lower => exact ht lower rest rfl

/-- An operator keeps the ranks: a sign waits on no operator, and any other one releases those that do not rank lower. -/
theorem Ranked.pushOperator {y : Yard} (h : y.Ranked) {op : Operator}
    (hsign : op.isUnary = true → Blocks 0 y.stack) : (y.pushOperator op).Ranked := by
  unfold Yard.pushOperator
  cases hu : op.isUnary with
  | true =>
    refine isChain_operator h fun lower rest hs => ?_
    exact absurd (hsign hu lower rest hs) (Nat.not_lt_zero _)
  | false =>
    refine isChain_operator (h.suffix (suffix_release ..)) fun lower rest hs => ?_
    exact ⟨blocks_release _ _ _ lower rest hs, hu⟩

theorem suffix_closeParen (y : Yard) : y.closeParen.2.stack <:+ y.stack := by
  obtain ⟨ops, hs | ⟨rest, hs⟩⟩ := exists_operators y.stack
  · rw [closeParen, hs, unwind_operators]
    exact List.nil_suffix
  · rw [closeParen, hs, unwind_paren]
    exact (List.suffix_cons _ _).trans (List.suffix_append _ _)

theorem suffix_complete (y : Yard) : y.complete.2.stack <:+ y.stack := by
  obtain ⟨ops, hs | ⟨rest, hs⟩⟩ := exists_operators y.stack
  · rw [complete, hs, unwind_operators]
    exact List.nil_suffix
  · rw [complete, hs, unwind_paren]
    exact (List.suffix_cons _ _).trans (List.suffix_append _ _)

/-- **A request keeps the ranks**, whether it is refused or not. -/
theorem Ranked.after {y : Yard} (h : y.Ranked) {r : Request} (hr : r.SignFits y) : (y.after r).Ranked := by
  cases r with
  | process t =>
    have he := y.process_effect t
    rw [after_process]
    generalize y.process t = c at he ⊢
    cases he with
    | operand item => exact h
    | operator item => exact Ranked.pushOperator (y := { y with line := t.line }) h (hr _ item)
    | opened kind =>
      refine List.isChain_cons.2 ⟨fun w _ => ?_, h⟩
      cases w <;> exact trivial
    | closed kind => exact h.of_suffix (suffix_closeParen { y with line := t.line })
    | refused item kind cause => exact h
  | complete => exact h.of_suffix y.suffix_complete
  | tree => exact h

/-! ## Operators between two parentheses -/

/-- **Between two parentheses** the operators of a yard with its ranks are in order. -/
theorem Ranked.inOrder {y : Yard} (h : y.Ranked) : y.InOrder := by
  have hrun : ∀ ops : List Operator, ops.map .operator <:+: y.stack →
      ops.IsChain fun upper lower => lower.precedence < upper.precedence ∧ upper.isUnary = false := by
    intro ops hi
    have hchain : (ops.map Waiting.operator).IsChain Waiting.Above := List.IsChain.infix h hi
    exact (List.isChain_map _).1 hchain
  refine ⟨fun ops hi => ?_, fun upper lower hi => ?_, fun ops hi => ?_⟩
  · exact List.isChain_iff_pairwise.1 ((List.isChain_map _).2 ((hrun ops hi).imp fun _ _ h => h.1))
  · exact (List.isChain_pair.1 (hrun [upper, lower] hi)).2
  · match ops, hrun ops hi with
    | [], _ | [_], _ | [_, _], _ => simp
    | upper :: op :: lower :: rest, hc =>
      obtain ⟨⟨hop, hu⟩, hc⟩ := List.isChain_cons_cons.1 hc
      obtain ⟨⟨hlower, hou⟩, -⟩ := List.isChain_cons_cons.1 hc
      have h₁ := Operator.precedence_of_binary hu
      have h₂ := Operator.precedence_of_binary hou
      have h₃ := lower.ten_le_precedence
      omega

end Yard

end PL0
