/-
Words in any order. A yard takes words one after another whether they make up an expression or not: each of them has to
be an operand, an operator or a parenthesis, and none may close a parenthesis that was not opened before it. If every
parenthesis is closed in the end, the yard can be completed, and nothing is lost or doubled on the way, because
operators only ever move from the stack to the row. Main statement: `complete_iff_balanced`.
-/
import PL0.Proofs.Yard.History

namespace PL0

/-! ## Words -/

namespace RpnItem

def operand? : RpnItem → Option Operand
  | operand leaf => some leaf
  | operator _ => none

def operator? : RpnItem → Option Operator
  | operand _ => none
  | operator op => some op

end RpnItem

namespace Token

/-- The operand that a word is. A number is one if it has a value. -/
def operand? (t : Token) : Option Operand :=
  match t.kind with
  | .ident => some (.ident t.text)
  | .number => t.value.map .number
  | _ => none

/-- The operator that a word is. -/
def operator? (t : Token) : Option Operator := Operator.ofKind? t.kind

/-- The word is an operand, an operator or a parenthesis. -/
def Usable (t : Token) : Prop :=
  (∃ leaf, t.operand? = some leaf) ∨ (∃ op, t.operator? = some op) ∨ t.kind = .lparen ∨ t.kind = .rparen

theorem operand?_eq (t : Token) : t.operand? = t.item?.bind RpnItem.operand? := by
  unfold operand? item?
  cases t.kind with
  | number => cases t.value <;> rfl
  | _ => rfl

theorem operator?_eq (t : Token) : t.operator? = t.item?.bind RpnItem.operator? := by
  unfold operator? item?
  cases t.kind with
  | number => cases t.value <;> rfl
  | _ => rfl

/-! ## Parentheses -/

/-- How many parentheses words open. -/
def openings (ts : List Token) : Nat := ts.countP (·.kind = .lparen)

/-- How many parentheses words close. -/
def closings (ts : List Token) : Nat := ts.countP (·.kind = .rparen)

/-- With `d` parentheses open before them, words close none that is not open. -/
def Within (d : Nat) (ts : List Token) : Prop := ∀ front, front <+: ts → closings front ≤ d + openings front

/-- Words close all parentheses that they open, and none before it is opened. -/
structure Balanced (ts : List Token) : Prop where
  within : ∀ front, front <+: ts → closings front ≤ openings front
  settled : closings ts = openings ts

theorem openings_append (ts us : List Token) : openings (ts ++ us) = openings ts + openings us := List.countP_append

theorem closings_append (ts us : List Token) : closings (ts ++ us) = closings ts + closings us := List.countP_append

theorem openings_cons (t : Token) (ts : List Token) : openings (t :: ts) = openings [t] + openings ts :=
  openings_append [t] ts

theorem closings_cons (t : Token) (ts : List Token) : closings (t :: ts) = closings [t] + closings ts :=
  closings_append [t] ts

theorem within_nil (d : Nat) : Within d [] := by
  intro front hf
  rw [List.prefix_nil.1 hf]
  exact Nat.zero_le _

/-- The parentheses that are open after a word, with those that it closes, are those before it, with those that it
opens. -/
theorem depthAfter_add {t : Token} {d : Nat} (h : t.kind = .rparen → d ≠ 0) :
    (Request.process t).depthAfter d + closings [t] = d + openings [t] := by
  rw [Request.depthAfter, closings, openings, List.countP_singleton, List.countP_singleton]
  split
  · rename_i hk
    simp [hk]
  · rename_i hk
    have := h hk
    simp [hk]
    omega
  · rename_i hl hr
    replace hl : t.kind ≠ .lparen := hl
    replace hr : t.kind ≠ .rparen := hr
    simp [hl, hr]

theorem within_cons {d : Nat} {t : Token} {ts : List Token} :
    Within d (t :: ts) ↔ (t.kind = .rparen → d ≠ 0) ∧ Within ((Request.process t).depthAfter d) ts := by
  constructor
  · intro h
    have hd : t.kind = .rparen → d ≠ 0 := by
      intro hk
      have := h [t] (List.prefix_append [t] ts)
      simp [closings, openings, hk] at this
      omega
    refine ⟨hd, fun front hf => ?_⟩
    have hfront := h (t :: front) (List.cons_prefix_cons.2 ⟨rfl, hf⟩)
    have hafter := depthAfter_add hd
    rw [closings_cons, openings_cons] at hfront
    omega
  · rintro ⟨hd, h⟩ front hf
    rcases List.prefix_cons_iff.1 hf with rfl | ⟨front, rfl, hrest⟩
    · exact Nat.zero_le _
    · have hfront := h front hrest
      have hafter := depthAfter_add hd
      rw [closings_cons, openings_cons]
      omega

end Token

namespace Yard

open Token

/-! ## One word -/

/-- A word is taken if it can be used and closes no parenthesis that is not open. -/
theorem process_eq_ok_iff (y : Yard) (t : Token) :
    (y.process t).1 = .ok () ↔ t.Usable ∧ (t.kind = .rparen → y.depth ≠ 0) := by
  have he := y.process_effect t
  have hopd := t.operand?_eq
  have hopr := t.operator?_eq
  generalize y.process t = c at he ⊢
  cases he with
  | operand item =>
    rw [item] at hopd
    have hr : t.kind ≠ .rparen := fun hk => by rw [item?_eq_none_of_paren (.inr hk)] at item; cases item
    exact ⟨fun _ => ⟨.inl ⟨_, hopd⟩, fun hk => absurd hk hr⟩, fun _ => rfl⟩
  | operator item =>
    rw [item] at hopr
    have hr : t.kind ≠ .rparen := fun hk => by rw [item?_eq_none_of_paren (.inr hk)] at item; cases item
    exact ⟨fun _ => ⟨.inr (.inl ⟨_, hopr⟩), fun hk => absurd hk hr⟩, fun _ => rfl⟩
  | opened kind => simp [Usable, kind]
  | closed kind =>
    obtain ⟨y', -, -, hp⟩ := closeParen_eq { y with line := t.line }
    rw [hp, depth_line]
    by_cases hd : y.depth = 0 <;> simp [Usable, kind, hd]
  | refused item kind cause =>
    rw [item] at hopd hopr
    simp [Usable, hopd, hopr, kind.1, kind.2]

/-- The operands of the row in their order. -/
def operands (y : Yard) : List Operand := y.rpn.filterMap RpnItem.operand?

theorem operands_of_moved {y y' : Yard} {ops : List Operator}
    (h : y'.output = (ops.map .operator).reverse ++ y.output) : y'.operands = y.operands := by
  have hnone : (ops.map RpnItem.operator).filterMap RpnItem.operand? = [] := by
    simp [List.filterMap_eq_nil_iff, RpnItem.operand?]
  rw [operands, rpn, h, List.reverse_append, List.reverse_reverse, List.filterMap_append, hnone, List.append_nil]
  rfl

theorem exists_unwind (output : List RpnItem) (stack : List Waiting) : ∃ (ops : List Operator)
    (below : Option (List Waiting)), unwind output stack = ((ops.map .operator).reverse ++ output, below) := by
  obtain ⟨ops, rfl | ⟨rest, rfl⟩⟩ := exists_operators stack
  · exact ⟨ops, none, unwind_operators output ops⟩
  · exact ⟨ops, some rest, unwind_paren output ops rest⟩

theorem operands_closeParen (y : Yard) : y.closeParen.2.operands = y.operands := by
  obtain ⟨ops, below, h⟩ := exists_unwind y.output y.stack
  rw [closeParen, h]
  cases below <;> exact operands_of_moved rfl

theorem operands_complete (y : Yard) : y.complete.2.operands = y.operands := by
  obtain ⟨ops, below, h⟩ := exists_unwind y.output y.stack
  rw [complete, h]
  cases below <;> exact operands_of_moved rfl

/-- A word that is an operand comes last in the row, and no other word moves an operand. -/
theorem operands_process (y : Yard) (t : Token) :
    (y.process t).2.operands = y.operands ++ t.operand?.toList := by
  have he := y.process_effect t
  rw [t.operand?_eq]
  generalize y.process t = c at he ⊢
  cases he with
  | operand item => simp [item, operands, rpn, emit, RpnItem.operand?]
  | @operator op item =>
    obtain ⟨ops, rest, -, hp⟩ := pushOperator_eq { y with line := t.line } op
    rw [item, hp]
    exact (operands_of_moved rfl).trans (List.append_nil _).symm
  | opened kind =>
    rw [item?_eq_none_of_paren (.inl kind)]
    exact (List.append_nil _).symm
  | closed kind =>
    rw [item?_eq_none_of_paren (.inr kind), operands_closeParen]
    exact (List.append_nil _).symm
  | refused item kind cause =>
    rw [item]
    exact (List.append_nil _).symm

/-! ## Words one after another -/

theorem exists_processAll_iff {y : Yard} {ts : List Token} :
    (∃ y', y.processAll ts = .ok y') ↔ (∀ t ∈ ts, t.Usable) ∧ Within y.depth ts := by
  induction ts generalizing y with
  | nil => exact ⟨fun _ => ⟨List.forall_mem_nil _, within_nil _⟩, fun _ => ⟨y, rfl⟩⟩
  | cons t ts ih =>
    have hstep : (∃ y', y.processAll (t :: ts) = .ok y') ↔
        (y.process t).1 = .ok () ∧ ∃ y', (y.process t).2.processAll ts = .ok y' := by
      rw [processAll]
      split <;> rename_i hp <;> simp [hp]
    rw [hstep, ih, process_eq_ok_iff, List.forall_mem_cons, within_cons, ← depth_after, after_process]
    tauto

/-- A yard that takes all words has taken each of them. -/
theorem afterAll_of_processAll {y y' : Yard} {ts : List Token} (h : y.processAll ts = .ok y') :
    y.afterAll (ts.map .process) = y' ∧ y.taken (ts.map .process) = ts := by
  induction ts generalizing y with
  | nil =>
    cases h
    exact ⟨rfl, rfl⟩
  | cons t ts ih =>
    obtain ⟨y₁, hp, h⟩ := processAll_eq_ok_cons.1 h
    have hafter : y.after (.process t) = y₁ := congrArg Prod.snd hp
    have htakes : y.takes? (.process t) = some t := by simp [takes?, hp, faultOf?]
    obtain ⟨hall, htaken⟩ := ih h
    refine ⟨?_, ?_⟩
    · rw [List.map_cons, afterAll, List.foldl_cons, hafter]
      exact hall
    · rw [List.map_cons, taken, htakes, hafter, htaken]
      rfl

theorem depth_processAll {y y' : Yard} {ts : List Token} (h : y.processAll ts = .ok y') :
    y'.depth + closings ts = y.depth + openings ts := by
  induction ts generalizing y with
  | nil =>
    cases h
    rfl
  | cons t ts ih =>
    obtain ⟨y₁, hp, h⟩ := processAll_eq_ok_cons.1 h
    have hok : (y.process t).1 = .ok () := congrArg Prod.fst hp
    have hone : y₁.depth + closings [t] = y.depth + openings [t] := by
      have hadd := depthAfter_add ((process_eq_ok_iff y t).1 hok).2
      rwa [← depth_after, after_process, hp] at hadd
    have hrest := ih h
    rw [closings_cons, openings_cons]
    omega

theorem operands_processAll {y y' : Yard} {ts : List Token} (h : y.processAll ts = .ok y') :
    y'.operands = y.operands ++ ts.filterMap operand? := by
  induction ts generalizing y with
  | nil =>
    cases h
    exact (List.append_nil _).symm
  | cons t ts ih =>
    obtain ⟨y₁, hp, h⟩ := processAll_eq_ok_cons.1 h
    have hone := y.operands_process t
    rw [hp] at hone
    rw [ih h, hone, List.append_assoc, List.filterMap_cons]
    cases t.operand? <;> rfl

theorem exists_complete_iff (y : Yard) : (∃ y', y.complete = (.ok (), y')) ↔ y.depth = 0 := by
  obtain ⟨y', -, -, hp⟩ := y.complete_eq
  rw [hp]
  by_cases hd : y.depth = 0 <;> simp [hd]

/-- All words that were taken are in the row of a yard that was completed. -/
theorem rpn_perm_of_complete {y y' : Yard} {ts : List Token} (h : initial.processAll ts = .ok y)
    (hc : y.complete = (.ok (), y')) : y'.rpn.Perm (ts.filterMap item?) := by
  obtain ⟨hafter, htaken⟩ := afterAll_of_processAll h
  have hitems := items_afterAll initial (ts.map .process)
  rw [hafter, htaken, show initial.items = [] from rfl, List.append_nil] at hitems
  have hd : y.depth = 0 := y.exists_complete_iff.1 ⟨y', hc⟩
  obtain ⟨y₁, hcloses, -, hp⟩ := y.complete_eq
  obtain rfl : y' = y₁ := congrArg Prod.snd (hc.symm.trans hp)
  have hstack : y'.stack = [] := by
    rw [stack_eq_nil_iff, hcloses.depth, hcloses.waitsOutside, hd]
    exact ⟨rfl, fun hw => hw.2 rfl⟩
  have hrow : y'.items = y'.output := by rw [items, hstack, List.filterMap_nil, List.append_nil]
  exact (List.reverse_perm _).trans (hrow ▸ hcloses.items.trans hitems)

/-- **Words in any order.** A yard takes words one after another and can be completed then exactly where each of them is
an operand, an operator or a parenthesis and the parentheses are balanced; and then its row is made up of the operands
in the order of the words, and of the operators of the words, each as often as there. -/
theorem complete_iff_balanced (ts : List Token) :
    ((∃ y y', initial.processAll ts = .ok y ∧ y.complete = (.ok (), y')) ↔
        (∀ t ∈ ts, t.Usable) ∧ Token.Balanced ts) ∧
      ∀ y y', initial.processAll ts = .ok y → y.complete = (.ok (), y') →
        y'.rpn.filterMap RpnItem.operand? = ts.filterMap operand? ∧
          (y'.rpn.filterMap RpnItem.operator?).Perm (ts.filterMap operator?) := by
  have hwithin : Within initial.depth ts ↔ ∀ front, front <+: ts → closings front ≤ openings front := by
    simp [Within, initial, depth]
  have hcomplete : ∀ {y}, initial.processAll ts = .ok y →
      ((∃ y', y.complete = (.ok (), y')) ↔ closings ts = openings ts) := by
    intro y hy
    have hd := depth_processAll hy
    rw [show initial.depth = 0 from rfl] at hd
    rw [exists_complete_iff]
    omega
  refine ⟨⟨?_, ?_⟩, fun y y' hy hc => ⟨?_, ?_⟩⟩
  · rintro ⟨y, y', hy, hc⟩
    obtain ⟨husable, hw⟩ := exists_processAll_iff.1 ⟨y, hy⟩
    exact ⟨husable, hwithin.1 hw, (hcomplete hy).1 ⟨y', hc⟩⟩
  · rintro ⟨husable, hbalanced⟩
    obtain ⟨y, hy⟩ := exists_processAll_iff.2 ⟨husable, hwithin.2 hbalanced.within⟩
    obtain ⟨y', hc⟩ := (hcomplete hy).2 hbalanced.settled
    exact ⟨y, y', hy, hc⟩
  · have hrow := y.operands_complete
    rw [hc, operands_processAll hy] at hrow
    exact hrow
  · have hperm := (rpn_perm_of_complete hy hc).filterMap RpnItem.operator?
    rw [List.filterMap_filterMap] at hperm
    rwa [show (fun t => t.item?.bind RpnItem.operator?) = operator? from funext fun t => t.operator?_eq.symm] at hperm

/-- `* ( x + ) 3 -`, which is no expression. -/
def scrambled : List Token :=
  [.plain .multiply "*" 1, .plain .lparen "(" 1, .plain .ident "x" 1, .plain .plus "+" 1, .plain .rparen ")" 1,
   ⟨.number, "3", some 3, 1⟩, .plain .unaryMinus "-" 1]

/-- All of it is taken, and nothing of it is lost. -/
theorem complete_iff_balanced_scrambled : Token.Balanced scrambled ∧
    ∃ y y', initial.processAll scrambled = .ok y ∧ y.complete = (.ok (), y') ∧
      y'.rpn.filterMap RpnItem.operand? = [.ident "x", .number 3] ∧
      (y'.rpn.filterMap RpnItem.operator?).Perm [.multiply, .plus, .unaryMinus] := by
  obtain ⟨y, y', hy, hc⟩ : ∃ y y', initial.processAll scrambled = .ok y ∧ y.complete = (.ok (), y') :=
    ⟨_, _, rfl, rfl⟩
  obtain ⟨hiff, hrow⟩ := complete_iff_balanced scrambled
  obtain ⟨hoperands, hoperators⟩ := hrow y y' hy hc
  exact ⟨(hiff.1 ⟨y, y', hy, hc⟩).2, y, y', hy, hc, hoperands, hoperators⟩

end Yard

end PL0
