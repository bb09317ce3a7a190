/-
Requests to a yard: it is handed a word, it is to be completed, or its tree is asked for, in any order and whatever it
answered before. What a word does is said once (`process_effect`), and so is the closing of parentheses, which a
closing parenthesis and a completion share (`Closes`). Main statements: a request loses no item and adds those of the
word that is taken (`items_after`), the parentheses that are open can be counted without the yard (`depth_after`), an
operator that waits outside all parentheses stays until something is closed there (`waitsOutside_after`), and a tree is
given exactly of a yard that is completed and holds the row of that tree (`tree_eq_ok_iff`).
-/
import Mathlib.Data.List.Perm.Basic
import PL0.Proofs.Yard.Building
import PL0.Proofs.Yard.Postorder

namespace PL0

/-- What can be asked of a yard. -/
inductive Request where
  | process (t : Token)
  | complete
  | tree
deriving DecidableEq, Repr

/-- The item that a word adds to the row of an expression. Parentheses add none. -/
def Token.item? (t : Token) : Option RpnItem :=
  match t.kind with
  | .ident => some (.operand (.ident t.text))
  | .number => t.value.map fun value => .operand (.number value)
  | kind => (Operator.ofKind? kind).map .operator

/-- The item of what waits. A parenthesis has none. -/
def Waiting.item? : Waiting → Option RpnItem
  | operator op => some (.operator op)
  | paren => none

/-- How many parentheses are open after a request, if `d` are open before it. A completion that finds one open takes
it away. -/
def Request.depthAfter (d : Nat) : Request → Nat
  | process t =>
    match t.kind with
    | .lparen => d + 1
    | .rparen => d - 1
    | _ => d
  | complete => d - 1
  | tree => d

/-- The request closes the latest parenthesis, if one is open. -/
def Request.Closing : Request → Prop
  | process t => t.kind = .rparen
  | complete => True
  | tree => False

/-- The request hands over an operator. -/
def Request.Operates : Request → Prop
  | process t => ∃ op, t.item? = some (.operator op)
  | complete => False
  | tree => False

/-- The fault of a result. -/
def faultOf? {α : Type} : Except Fault α → Option Fault
  | .ok _ => none
  | .error fault => some fault

namespace Yard

/-- The yard after a request, whatever it answered. -/
def after (y : Yard) : Request → Yard
  | .process t => (y.process t).2
  | .complete => y.complete.2
  | .tree => y

/-- The fault with which a request is answered, if it is refused. -/
def refusal? (y : Yard) : Request → Option Fault
  | .process t => faultOf? (y.process t).1
  | .complete => faultOf? y.complete.1
  | .tree => faultOf? y.tree

/-- The word that a request hands over, if the yard takes it. -/
def takes? (y : Yard) : Request → Option Token
  | .process t => if (faultOf? (y.process t).1).isNone then some t else none
  | .complete => none
  | .tree => none

/-- All items in the yard: the row, and the operators that wait. -/
def items (y : Yard) : List RpnItem := y.output ++ y.stack.filterMap Waiting.item?

/-- How many parentheses are open. -/
def depth (y : Yard) : Nat := y.stack.count .paren

/-- An operator waits outside all parentheses that are open. -/
def WaitsOutside (y : Yard) : Prop := ∃ op, y.stack.getLast? = some (.operator op)

@[simp] theorem depth_line (y : Yard) (line : Nat) : ({ y with line } : Yard).depth = y.depth := rfl

@[simp] theorem waitsOutside_line (y : Yard) (line : Nat) :
    ({ y with line } : Yard).WaitsOutside ↔ y.WaitsOutside := .rfl

theorem after_process (y : Yard) (t : Token) : y.after (.process t) = (y.process t).2 := rfl

/-! ## One request -/

/-- What a word does to a yard. -/
inductive Effect (y : Yard) (t : Token) : Except Fault Unit × Yard → Prop where
  | operand {leaf : Operand} (item : t.item? = some (.operand leaf)) :
    Effect y t (.ok (), { y with line := t.line }.emit leaf)
  | operator {op : Operator} (item : t.item? = some (.operator op)) :
    Effect y t (.ok (), { y with line := t.line }.pushOperator op)
  | opened (kind : t.kind = .lparen) :
    Effect y t (.ok (), { y with line := t.line, stack := .paren :: y.stack })
  | closed (kind : t.kind = .rparen) : Effect y t { y with line := t.line }.closeParen
  | refused {fault : Fault} (item : t.item? = none) (kind : t.kind ≠ .lparen ∧ t.kind ≠ .rparen)
    (cause : fault.kind = .unresolved) : Effect y t (.error fault, { y with line := t.line })

theorem process_effect (y : Yard) (t : Token) : y.Effect t (y.process t) := by
  unfold process
  cases hk : t.kind with
  | ident => exact .operand (by simp [Token.item?, hk])
  | number =>
    cases hv : t.value with
    | some value => exact .operand (by simp [Token.item?, hk, hv])
    | none => exact .refused (by simp [Token.item?, hk, hv]) (by simp [hk]) rfl
  | lparen => exact .opened hk
  | rparen => exact .closed hk
  | plus => exact @Effect.operator _ _ .plus (by simp [Token.item?, hk, Operator.ofKind?])
  | minus => exact @Effect.operator _ _ .minus (by simp [Token.item?, hk, Operator.ofKind?])
  | multiply => exact @Effect.operator _ _ .multiply (by simp [Token.item?, hk, Operator.ofKind?])
  | divide => exact @Effect.operator _ _ .divide (by simp [Token.item?, hk, Operator.ofKind?])
  | unaryPlus => exact @Effect.operator _ _ .unaryPlus (by simp [Token.item?, hk, Operator.ofKind?])
  | unaryMinus => exact @Effect.operator _ _ .unaryMinus (by simp [Token.item?, hk, Operator.ofKind?])
  | _ => exact .refused (by simp [Token.item?, hk, Operator.ofKind?]) (by simp [hk]) rfl

/-! ## Operators that go to the row -/

theorem exists_release (rank : Nat) (output : List RpnItem) (stack : List Waiting) :
    ∃ (ops : List Operator) (rest : List Waiting), stack = ops.map .operator ++ rest ∧
      release rank output stack = ((ops.map .operator).reverse ++ output, rest) := by
  induction stack generalizing output with
  | nil => exact ⟨[], [], rfl, rfl⟩
  | cons w stack ih =>
    cases w with
    | paren => exact ⟨[], .paren :: stack, rfl, rfl⟩
    | operator op =>
      by_cases h : op.precedence < rank
      · exact ⟨[], .operator op :: stack, rfl, by rw [release, if_pos h]; rfl⟩
      · obtain ⟨ops, rest, hs, hr⟩ := ih (.operator op :: output)
        refine ⟨op :: ops, rest, by rw [hs]; rfl, ?_⟩
        rw [release, if_neg h, hr]
        simp

/-- What is on top of the stack: operators, down to the latest parenthesis that is open. -/
theorem exists_operators (stack : List Waiting) : ∃ ops : List Operator,
    stack = ops.map .operator ∨ ∃ rest, stack = ops.map .operator ++ .paren :: rest := by
  induction stack with
  | nil => exact ⟨[], .inl rfl⟩
  | cons w stack ih =>
    cases w with
    | paren => exact ⟨[], .inr ⟨stack, rfl⟩⟩
    | operator op =>
      obtain ⟨ops, rfl | ⟨rest, rfl⟩⟩ := ih
      · exact ⟨op :: ops, .inl rfl⟩
      · exact ⟨op :: ops, .inr ⟨rest, rfl⟩⟩

theorem unwind_operators (output : List RpnItem) (ops : List Operator) :
    unwind output (ops.map .operator) = ((ops.map .operator).reverse ++ output, none) := by
  have h := unwind_append output ops []
  rwa [List.append_nil] at h

theorem unwind_paren (output : List RpnItem) (ops : List Operator) (rest : List Waiting) :
    unwind output (ops.map .operator ++ .paren :: rest) = ((ops.map .operator).reverse ++ output, some rest) :=
  unwind_append output ops (.paren :: rest)

theorem filterMap_item?_map (ops : List Operator) :
    (ops.map Waiting.operator).filterMap Waiting.item? = ops.map .operator := by
  induction ops with
  | nil => rfl
  | cons op ops ih => simpa [Waiting.item?] using ih

theorem count_paren_map (ops : List Operator) : (ops.map Waiting.operator).count .paren = 0 := by
  induction ops with
  | nil => rfl
  | cons op ops ih => simpa using ih

/-- Operators that go from the top of the stack to the row stay in the yard. -/
theorem items_perm_of_moved {y : Yard} {ops : List Operator} {rest : List Waiting}
    (h : y.stack = ops.map .operator ++ rest) :
    ((ops.map RpnItem.operator).reverse ++ y.output ++ rest.filterMap Waiting.item?).Perm y.items := by
  rw [items, h, List.filterMap_append, filterMap_item?_map, ← List.append_assoc]
  exact ((List.reverse_perm _).append_right _ |>.trans List.perm_append_comm).append_right _

theorem depth_of_moved {y : Yard} {ops : List Operator} {rest : List Waiting}
    (h : y.stack = ops.map .operator ++ rest) : y.depth = rest.count .paren := by
  rw [depth, h, List.count_append, count_paren_map, Nat.zero_add]

/-- The yard `y'` comes from `y` by closing the latest parenthesis that is open, if one is: the operators above it
go to the row. -/
structure Closes (y y' : Yard) : Prop where
  items : y'.items.Perm y.items
  depth : y'.depth = y.depth - 1
  waitsOutside : y'.WaitsOutside ↔ y.WaitsOutside ∧ y.depth ≠ 0

theorem closes_of_unopened {y y' : Yard} {ops : List Operator} (h : y.stack = ops.map .operator)
    (ho : y'.output = (ops.map .operator).reverse ++ y.output) (hs : y'.stack = []) : y.Closes y' := by
  have hm : y.stack = ops.map .operator ++ [] := by rw [h, List.append_nil]
  have hd : y.depth = 0 := depth_of_moved hm
  refine ⟨?_, ?_, ?_⟩
  · rw [items, ho, hs]
    exact items_perm_of_moved hm
  · rw [hd, depth, hs]
    rfl
  · simp [WaitsOutside, hs, hd]

theorem closes_of_open {y y' : Yard} {ops : List Operator} (h : y.stack = ops.map .operator ++ .paren :: y'.stack)
    (ho : y'.output = (ops.map .operator).reverse ++ y.output) : y.Closes y' := by
  have hd : y.depth = y'.depth + 1 := by rw [depth_of_moved h, List.count_cons_self, depth]
  refine ⟨?_, ?_, ?_⟩
  · have hp := items_perm_of_moved h
    rwa [List.filterMap_cons_none rfl, ← ho] at hp
  · rw [hd, Nat.add_sub_cancel]
  · cases hs : y'.stack <;> simp [WaitsOutside, h, hd, hs]

/-- A closing parenthesis is refused exactly where none is open. -/
theorem closeParen_eq (y : Yard) : ∃ y', y.Closes y' ∧ y'.completed = y.completed ∧
    y.closeParen = (if y.depth = 0 then .error (.unopened y.line) else .ok (), y') := by
  obtain ⟨ops, hs | ⟨rest, hs⟩⟩ := exists_operators y.stack
  · have hd : y.depth = 0 := by rw [depth, hs, count_paren_map]
    rw [closeParen, hs, unwind_operators, if_pos hd]
    exact ⟨{ y with output := _, stack := [] }, closes_of_unopened hs rfl rfl, rfl, rfl⟩
  · have hd : y.depth ≠ 0 := by simp [depth_of_moved hs]
    rw [closeParen, hs, unwind_paren, if_neg hd]
    exact ⟨{ y with output := _, stack := rest }, closes_of_open hs rfl, rfl, rfl⟩

/-- A yard is completed exactly where no parenthesis is open. -/
theorem complete_eq (y : Yard) : ∃ y', y.Closes y' ∧ y'.completed = (y.completed || y.depth == 0) ∧
    y.complete = (if y.depth = 0 then .ok () else .error (.unclosed y.line), y') := by
  obtain ⟨ops, hs | ⟨rest, hs⟩⟩ := exists_operators y.stack
  · have hd : y.depth = 0 := by rw [depth, hs, count_paren_map]
    rw [complete, hs, unwind_operators, if_pos hd]
    exact ⟨_, closes_of_unopened hs rfl rfl, by simp [hd], rfl⟩
  · have hd : y.depth ≠ 0 := by simp [depth_of_moved hs]
    rw [complete, hs, unwind_paren, if_neg hd]
    exact ⟨_, closes_of_open hs rfl, by simp [hd], rfl⟩

theorem pushOperator_eq (y : Yard) (op : Operator) : ∃ (ops : List Operator) (rest : List Waiting),
    y.stack = ops.map .operator ++ rest ∧
      y.pushOperator op =
        { y with output := (ops.map .operator).reverse ++ y.output, stack := .operator op :: rest } := by
  unfold pushOperator
  split
  · exact ⟨[], y.stack, rfl, rfl⟩
  · obtain ⟨ops, rest, hs, hr⟩ := exists_release op.precedence y.output y.stack
    exact ⟨ops, rest, hs, by rw [hr]⟩

/-! ## What a request keeps -/

/-- The items of the words that a request hands over and the yard takes. -/
def takenItems (y : Yard) (r : Request) : List RpnItem := (y.takes? r).toList.filterMap Token.item?

theorem takenItems_of_item?_eq_none {y : Yard} {t : Token} (h : t.item? = none) :
    y.takenItems (.process t) = [] := by
  rw [takenItems, takes?]
  split <;> simp [h]

theorem takenItems_of_ok {y : Yard} {t : Token} {item : RpnItem} (h : t.item? = some item)
    (hp : (y.process t).1 = .ok ()) : y.takenItems (.process t) = [item] := by
  simp [takenItems, takes?, faultOf?, hp, h]

theorem item?_eq_none_of_paren {t : Token} (h : t.kind = .lparen ∨ t.kind = .rparen) : t.item? = none := by
  rcases h with h | h <;> simp [Token.item?, h, Operator.ofKind?]

/-- A request loses no item, and adds those of the word that is taken. -/
theorem items_after (y : Yard) (r : Request) : (y.after r).items.Perm (y.takenItems r ++ y.items) := by
  cases r with
  | process t =>
    have he := y.process_effect t
    have ht := @takenItems_of_ok y t
    rw [after_process]
    generalize y.process t = c at he ht ⊢
    cases he with
    | operand item =>
      rw [ht item rfl]
      exact .refl _
    | @operator op item =>
      rw [ht item rfl]
      obtain ⟨ops, rest, hs, hp⟩ := pushOperator_eq { y with line := t.line } op
      rw [hp]
      exact List.perm_middle.trans (.cons _ (items_perm_of_moved hs))
    | opened kind =>
      rw [takenItems_of_item?_eq_none (item?_eq_none_of_paren (.inl kind))]
      exact .refl _
    | closed kind =>
      rw [takenItems_of_item?_eq_none (item?_eq_none_of_paren (.inr kind))]
      obtain ⟨y', hc, -, hp⟩ := closeParen_eq { y with line := t.line }
      rw [hp]
      exact hc.items
    | refused item kind cause =>
      rw [takenItems_of_item?_eq_none item]
      exact .refl _
  | complete =>
    obtain ⟨y', hc, -, hp⟩ := y.complete_eq
    rw [after, hp]
    exact hc.items
  | tree => exact .refl _

theorem depthAfter_of_item? {t : Token} {item : RpnItem} (h : t.item? = some item) (d : Nat) :
    (Request.process t).depthAfter d = d := by
  rw [Request.depthAfter]
  split
  · rename_i hk
    rw [item?_eq_none_of_paren (.inl hk)] at h
    cases h
  · rename_i hk
    rw [item?_eq_none_of_paren (.inr hk)] at h
    cases h
  · rfl

theorem depth_after (y : Yard) (r : Request) : (y.after r).depth = r.depthAfter y.depth := by
  cases r with
  | process t =>
    have he := y.process_effect t
    rw [after_process]
    generalize y.process t = c at he ⊢
    cases he with
    | operand item => rw [depthAfter_of_item? item]; rfl
    | @operator op item =>
      obtain ⟨ops, rest, hs, hp⟩ := pushOperator_eq { y with line := t.line } op
      have hd : y.depth = rest.count .paren := depth_of_moved hs
      rw [depthAfter_of_item? item, hp, hd]
      exact List.count_cons_of_ne (by simp)
    | opened kind =>
      simp only [Request.depthAfter, kind]
      exact List.count_cons_self
    | closed kind =>
      simp only [Request.depthAfter, kind]
      obtain ⟨y', hc, -, hp⟩ := closeParen_eq { y with line := t.line }
      rw [hp]
      exact hc.depth
    | refused item kind cause =>
      rw [Request.depthAfter]
      split
      · rename_i hk; exact absurd hk kind.1
      · rename_i hk; exact absurd hk kind.2
      · rfl
  | complete =>
    obtain ⟨y', hc, -, hp⟩ := y.complete_eq
    rw [after, hp]
    exact hc.depth
  | tree => rfl

theorem stack_eq_nil_iff (y : Yard) : y.stack = [] ↔ y.depth = 0 ∧ ¬y.WaitsOutside := by
  constructor
  · intro h
    simp [depth, WaitsOutside, h]
  · rintro ⟨hd, hw⟩
    rcases List.eq_nil_or_concat y.stack with h | ⟨rest, w, h⟩
    · exact h
    · cases w with
      | operator op => exact absurd ⟨op, by simp [h]⟩ hw
      | paren => simp [depth, h] at hd

theorem waitsOutside_pushOperator (y : Yard) (op : Operator) :
    (y.pushOperator op).WaitsOutside ↔ y.depth = 0 ∨ y.WaitsOutside := by
  obtain ⟨ops, rest, hs, hp⟩ := pushOperator_eq y op
  have hd : y.depth = rest.count .paren := depth_of_moved hs
  rw [hp, hd, WaitsOutside, WaitsOutside, hs]
  rcases List.eq_nil_or_concat rest with rfl | ⟨below, w, rfl⟩
  · simp
  · cases w <;> simp [List.getLast?_cons, List.getLast?_append]

theorem waitsOutside_after (y : Yard) (r : Request) : (y.after r).WaitsOutside ↔
    (r.Operates ∧ y.depth = 0) ∨ (y.WaitsOutside ∧ ¬(r.Closing ∧ y.depth = 0)) := by
  cases r with
  | process t =>
    have he := y.process_effect t
    rw [after_process]
    generalize y.process t = c at he ⊢
    cases he with
    | operand item =>
      have hr : t.kind ≠ .rparen := fun hk => by rw [item?_eq_none_of_paren (.inr hk)] at item; cases item
      simp [Request.Operates, Request.Closing, item, hr, WaitsOutside, emit]
    | @operator op item =>
      have hr : t.kind ≠ .rparen := fun hk => by rw [item?_eq_none_of_paren (.inr hk)] at item; cases item
      simp [Request.Operates, Request.Closing, item, hr, waitsOutside_pushOperator]
    | opened kind =>
      cases hs : y.stack <;>
        simp [Request.Operates, Request.Closing, item?_eq_none_of_paren (.inl kind), kind, WaitsOutside, hs]
    | closed kind =>
      obtain ⟨y', hc, -, hp⟩ := closeParen_eq { y with line := t.line }
      simp [Request.Operates, Request.Closing, item?_eq_none_of_paren (.inr kind), kind, hp, hc.waitsOutside]
    | refused item kind cause =>
      simp [Request.Operates, Request.Closing, item, kind.2]
  | complete =>
    obtain ⟨y', hc, -, hp⟩ := y.complete_eq
    simp [after, hp, hc.waitsOutside, Request.Operates, Request.Closing]
  | tree => simp [after, Request.Operates, Request.Closing]

theorem completed_after (y : Yard) (r : Request) :
    (y.after r).completed = true ↔ y.completed = true ∨ r = .complete ∧ y.depth = 0 := by
  cases r with
  | process t =>
    have he := y.process_effect t
    rw [after_process]
    generalize y.process t = c at he ⊢
    cases he with
    | @operator op item =>
      obtain ⟨ops, rest, hs, hp⟩ := pushOperator_eq { y with line := t.line } op
      simp [hp]
    | closed kind =>
      obtain ⟨y', -, hc, hp⟩ := closeParen_eq { y with line := t.line }
      simp [hp, hc]
    | _ => simp [emit]
  | complete =>
    obtain ⟨y', -, hc, hp⟩ := y.complete_eq
    simp [after, hp, hc]
  | tree => simp [after]

/-! ## What is refused -/

theorem refusal?_complete (y : Yard) :
    y.refusal? .complete = if y.depth = 0 then none else some (.unclosed y.line) := by
  obtain ⟨y', -, -, hp⟩ := y.complete_eq
  rw [refusal?, hp]
  split <;> rfl

theorem tree_eq_ok_iff {y : Yard} {e : Expr} :
    y.tree = .ok e ↔ y.completed = true ∧ e.WellFormed ∧ e.postorder = y.rpn := by
  rw [← RpnItem.tree?_eq_ok_iff, tree]
  cases y.completed with
  | false => simp
  | true => cases RpnItem.tree? y.rpn <;> simp [Except.mapError]

/-- A tree is refused for one cause only. -/
theorem kind_of_tree_eq_error {y : Yard} {fault : Fault} (h : y.tree = .error fault) : fault.kind = .unresolved := by
  unfold tree at h
  split at h
  · cases ht : RpnItem.tree? y.rpn with
    | ok e => rw [ht] at h; cases h
    | error reason => rw [ht] at h; cases h; exact kind_treeFault _ _
  · cases h
    rfl

end Yard

end PL0
