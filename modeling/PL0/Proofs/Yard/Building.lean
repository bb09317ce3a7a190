/-
What the yard builds from the words of a phrase. While the words of a term or an expression come in, the row
together with the operators that wait above the stack found at its start is the row of the tree read so far
(`Yard.Holds`); the ranks decide what may wait there. Main statements: an expression is taken in whole from
any yard whose stack lets a sum begin (`Expression.builds`), and a yard that holds a tree and nothing else
finishes with that tree (`Yard.Holds.finish`).
-/
import PL0.Proofs.Phrase.Expression
import PL0.Yard

namespace PL0

/-- Takes in words one after another, up to the first that is refused. -/
def Yard.processAll (y : Yard) : List Token → Except Fault Yard
  | [] => .ok y
  | t :: ts =>
    match y.process t with
    | (.ok (), y) => y.processAll ts
    | (.error fault, _) => .error fault

/-! ## The words that reach the yard -/

namespace Phrase

/-- The sign as a leading sign reaches the yard. -/
def Sign.marked : Sign → Token
  | .plus w => { w.token with kind := .unaryPlus }
  | .minus w => { w.token with kind := .unaryMinus }

mutual

/-- The words of an expression as they reach the yard: leading signs are marked as such. -/
def Expression.marked : Expression → List Token
  | .mk none first others => first.marked ++ others.marked
  | .mk (some sign) first others => sign.marked :: (first.marked ++ others.marked)

def Terms.marked : Terms → List Token
  | .nil => []
  | .cons sign term others => sign.token :: (term.marked ++ others.marked)

def Term.marked : Term → List Token
  | .mk first others => first.marked ++ others.marked

def Factors.marked : Factors → List Token
  | .nil => []
  | .cons times factor others => times.token :: (factor.marked ++ others.marked)

def Factor.marked : Factor → List Token
  | .ident name => [name.token]
  | .number n => [n.token]
  | .paren opening inner closing => opening.token :: (inner.marked ++ [closing.token])

end

theorem Sign.toUnary?_token (s : Sign) : s.token.toUnary? = some s.marked := by
  cases s <;> rename_i w <;> simp [Sign.token, Token.toUnary?, w.kind_eq, Sign.marked]

theorem Sign.ofKind?_token (s : Sign) : Operator.ofKind? s.token.kind = some s.binary := by
  cases s <;> rename_i w <;> simp [Sign.token, w.kind_eq, Operator.ofKind?, Sign.binary]

theorem Sign.ofKind?_marked (s : Sign) : Operator.ofKind? s.marked.kind = some s.unary := by
  cases s <;> rfl

theorem Times.ofKind?_token (o : Times) : Operator.ofKind? o.token.kind = some o.operator := by
  cases o <;> rename_i w <;> simp [Times.token, w.kind_eq, Operator.ofKind?, Times.operator]

end Phrase

namespace Yard

/-! ## Words one after another -/

theorem processAll_cons {y y' : Yard} {t : Token} (h : y.process t = (.ok (), y')) (ts : List Token) :
    y.processAll (t :: ts) = y'.processAll ts := by
  rw [processAll, h]

theorem processAll_append {y y' : Yard} {ts : List Token} (h : y.processAll ts = .ok y')
    (ts' : List Token) : y.processAll (ts ++ ts') = y'.processAll ts' := by
  induction ts generalizing y with
  | nil => cases h; rfl
  | cons t ts ih =>
    rw [List.cons_append, processAll]
    rw [processAll] at h
    split at h
    · exact ih h
    · cases h

theorem processAll_eq_ok_append {y y' : Yard} {ts ts' : List Token} :
    y.processAll (ts ++ ts') = .ok y' ↔ ∃ y₁, y.processAll ts = .ok y₁ ∧ y₁.processAll ts' = .ok y' := by
  constructor
  · intro h
    cases h₁ : y.processAll ts with
    | ok y₁ => exact ⟨y₁, rfl, by rwa [processAll_append h₁] at h⟩
    | error fault =>
      exfalso
      induction ts generalizing y with
      | nil => cases h₁
      | cons t ts ih =>
        rw [List.cons_append, processAll] at h
        rw [processAll] at h₁
        split at h
        · rename_i hp; rw [hp] at h₁; exact ih h h₁
        · cases h
  · rintro ⟨y₁, h₁, h₂⟩
    rwa [processAll_append h₁]

theorem processAll_eq_ok_cons {y y' : Yard} {t : Token} {ts : List Token} :
    y.processAll (t :: ts) = .ok y' ↔ ∃ y₁, y.process t = (.ok (), y₁) ∧ y₁.processAll ts = .ok y' := by
  rw [processAll]
  split
  · rename_i y₁ hp
    simp [hp]
  · rename_i hp
    simp [hp]

/-! ## A tree that is held -/

/-- The row since `output`, and after it the operators that wait above `stack`, make up the row of the
tree; what waits there has at least the rank. -/
def Holds (y : Yard) (rank : Nat) (output : List RpnItem) (stack : List Waiting) (e : Expr) : Prop :=
  ∃ ops : List Operator, (∀ op ∈ ops, rank ≤ op.precedence) ∧
    y.stack = ops.map .operator ++ stack ∧
    (ops.map .operator).reverse ++ y.output = e.postorder.reverse ++ output

/-- What is on top of the stack is not released for an operator of the rank. -/
def Blocks (rank : Nat) (stack : List Waiting) : Prop :=
  ∀ op rest, stack = .operator op :: rest → op.precedence < rank

theorem blocks_nil (rank : Nat) : Blocks rank [] := by
  intro op rest h; cases h

theorem blocks_paren (rank : Nat) (stack : List Waiting) : Blocks rank (.paren :: stack) := by
  intro op rest h; cases h

theorem blocks_operator {rank : Nat} {op : Operator} (h : op.precedence < rank) (stack : List Waiting) :
    Blocks rank (.operator op :: stack) := by
  intro op' rest he; cases he; exact h

theorem Blocks.mono {rank rank' : Nat} {stack : List Waiting} (h : Blocks rank stack)
    (hr : rank ≤ rank') : Blocks rank' stack :=
  fun op rest he => Nat.lt_of_lt_of_le (h op rest he) hr

theorem release_of_blocks {rank : Nat} {stack : List Waiting} (h : Blocks rank stack)
    (output : List RpnItem) : release rank output stack = (output, stack) := by
  cases stack with
  | nil => rfl
  | cons w rest => cases w with
    | operator op => rw [release, if_pos (h op rest rfl)]
    | paren => rfl

theorem release_append {rank : Nat} {stack : List Waiting} (h : Blocks rank stack) {ops : List Operator}
    (hops : ∀ op ∈ ops, rank ≤ op.precedence) (output : List RpnItem) :
    release rank output (ops.map .operator ++ stack) =
      ((ops.map .operator).reverse ++ output, stack) := by
  induction ops generalizing output with
  | nil => exact release_of_blocks h output
  | cons op ops ih =>
    have hop : ¬op.precedence < rank := Nat.not_lt.2 (hops op (by simp))
    rw [List.map_cons, List.cons_append, release, if_neg hop, ih fun o ho => hops o (by simp [ho])]
    simp

theorem unwind_append (output : List RpnItem) (ops : List Operator) (stack : List Waiting) :
    unwind output (ops.map .operator ++ stack) =
      unwind ((ops.map .operator).reverse ++ output) stack := by
  induction ops generalizing output with
  | nil => rfl
  | cons op ops ih =>
    rw [List.map_cons, List.cons_append, unwind, ih]
    simp

namespace Holds

variable {y : Yard} {rank : Nat} {output : List RpnItem} {stack : List Waiting} {e : Expr}

theorem mono (h : y.Holds rank output stack e) {rank' : Nat} (hr : rank' ≤ rank) :
    y.Holds rank' output stack e := by
  obtain ⟨ops, hops, hs, ho⟩ := h
  exact ⟨ops, fun op hop => Nat.le_trans hr (hops op hop), hs, ho⟩

/-- An operand that has just come in is held, and nothing waits above the stack. -/
theorem settled (rank : Nat) (hs : y.stack = stack) (ho : y.output = e.postorder.reverse ++ output) :
    y.Holds rank output stack e :=
  ⟨[], by simp, by simpa using hs, by simpa using ho⟩

/-- A tree above a waiting operator and the row before it become the tree of the operator. -/
theorem join {op : Operator} {before : List RpnItem} {e' : Expr}
    (h : y.Holds rank before (.operator op :: stack) e) {rank' : Nat} (hr : rank' ≤ rank)
    (hop : rank' ≤ op.precedence)
    (he : .operator op :: (e.postorder.reverse ++ before) = e'.postorder.reverse ++ output) :
    y.Holds rank' output stack e' := by
  obtain ⟨ops, hops, hs, ho⟩ := h
  refine ⟨ops ++ [op], ?_, by simp [hs], ?_⟩
  · intro o hm
    rcases List.mem_append.1 hm with hm | hm
    · exact Nat.le_trans hr (hops o hm)
    · rwa [List.mem_singleton.1 hm]
  · rw [← he, ← ho]
    simp

theorem unary {op : Operator} (h : y.Holds rank output (.operator op :: stack) e) {rank' : Nat}
    (hr : rank' ≤ rank) (hop : rank' ≤ op.precedence) :
    y.Holds rank' output stack (.unary op e) :=
  h.join hr hop (by simp [Expr.postorder])

theorem binary {op : Operator} {left : Expr}
    (h : y.Holds rank (left.postorder.reverse ++ output) (.operator op :: stack) e) {rank' : Nat}
    (hr : rank' ≤ rank) (hop : rank' ≤ op.precedence) :
    y.Holds rank' output stack (.binary op left e) :=
  h.join hr hop (by simp [Expr.postorder])

/-- An operator of the rank sends all that waits above the stack to the row. -/
theorem pushOperator (h : y.Holds rank output stack e) (hb : Blocks rank stack) {op : Operator}
    (hu : op.isUnary = false) (hop : op.precedence = rank) :
    y.pushOperator op =
      { y with output := e.postorder.reverse ++ output, stack := .operator op :: stack } := by
  obtain ⟨ops, hops, hs, ho⟩ := h
  simp only [Yard.pushOperator, hu, Bool.false_eq_true, if_false, hs, hop, release_append hb hops, ho]

theorem closeParen (h : y.Holds rank output (.paren :: stack) e) :
    y.closeParen = (.ok (), { y with output := e.postorder.reverse ++ output, stack }) := by
  obtain ⟨ops, hops, hs, ho⟩ := h
  simp only [Yard.closeParen, hs, unwind_append, ho, unwind]

theorem closeParen_unopened (h : y.Holds rank output [] e) :
    ∃ y', y.closeParen = (.error (.unopened y.line), y') := by
  obtain ⟨ops, hops, hs, ho⟩ := h
  rw [List.append_nil] at hs
  have hu := unwind_append y.output ops []
  rw [List.append_nil] at hu
  simp only [Yard.closeParen, hs, hu, unwind, Prod.mk.injEq, true_and, exists_eq']

/-- A yard that holds a well-formed tree and nothing else finishes with it. -/
theorem finish (h : y.Holds rank [] [] e) (he : e.WellFormed) : y.finish = .ok e := by
  obtain ⟨ops, hops, hs, ho⟩ := h
  have hu := unwind_append y.output ops []
  rw [List.append_nil] at hu hs ho
  simp only [Yard.finish, Yard.complete, hs, hu, ho, unwind, Yard.tree, Yard.rpn, if_true,
    List.reverse_reverse, RpnItem.tree?_postorder he]
  rfl

end Holds

end Yard

/-! ## The words of a phrase -/

namespace Phrase

open Yard

/-- The rank of what joins terms. -/
def sumRank : Nat := Operator.plus.precedence

/-- The rank of what joins factors. -/
def productRank : Nat := Operator.multiply.precedence

theorem Sign.precedence_binary (s : Sign) : s.binary.precedence = sumRank := by cases s <;> rfl

theorem Sign.precedence_unary (s : Sign) :
    sumRank ≤ s.unary.precedence ∧ s.unary.precedence < productRank := by
  cases s <;> simp [unary, Operator.precedence, sumRank, productRank]

theorem Times.precedence_operator (o : Times) : o.operator.precedence = productRank := by cases o <;> rfl

theorem sumRank_lt : sumRank < productRank := by decide

/-- An operator after the tree that is held: the tree goes to the row, and the operator waits. -/
theorem process_binary {y : Yard} {rank : Nat} {output : List RpnItem} {stack : List Waiting} {left : Expr}
    (h : y.Holds rank output stack left) (hb : Blocks rank stack) {t : Token} {op : Operator}
    (hk : Operator.ofKind? t.kind = some op) (hu : op.isUnary = false) (hop : op.precedence = rank) :
    ∃ y', y.process t = (.ok (), y') ∧ y'.output = left.postorder.reverse ++ output ∧
      y'.stack = .operator op :: stack := by
  have h' : ({ y with line := t.line } : Yard).Holds rank output stack left := h
  refine ⟨_, process_operator hk, ?_, ?_⟩
  · rw [h'.pushOperator hb hu hop]
  · rw [h'.pushOperator hb hu hop]

theorem process_leading (s : Sign) (y : Yard) :
    ∃ y', y.process s.marked = (.ok (), y') ∧ y'.output = y.output ∧
      y'.stack = .operator s.unary :: y.stack := by
  refine ⟨_, process_operator s.ofKind?_marked, ?_, ?_⟩
  · simp only [pushOperator, s.isUnary_unary, if_true]
  · simp only [pushOperator, s.isUnary_unary, if_true]

/-- A closing parenthesis after the tree that is held: the tree goes to the row. -/
theorem process_closing {y : Yard} {rank : Nat} {output : List RpnItem} {stack : List Waiting} {e : Expr}
    (h : y.Holds rank output (.paren :: stack) e) (closing : Word .rparen) :
    ∃ y', y.process closing.token = (.ok (), y') ∧ y'.output = e.postorder.reverse ++ output ∧
      y'.stack = stack := by
  have h' : ({ y with line := closing.token.line } : Yard).Holds rank output (.paren :: stack) e := h
  exact ⟨_, (process_rparen closing.kind_eq).trans h'.closeParen, rfl, rfl⟩

mutual

/-- **An expression** is taken in whole where a sum may begin, and is held then. -/
theorem Expression.builds : ∀ (d : Expression) (y : Yard), Blocks sumRank y.stack →
    ∃ y', y.processAll d.marked = .ok y' ∧ y'.Holds sumRank y.output y.stack d.tree
  | .mk none first others, y, hb => by
    obtain ⟨y₁, h₁, hh₁⟩ := first.builds y (hb.mono (Nat.le_of_lt sumRank_lt))
    obtain ⟨y₂, h₂, hh₂⟩ := others.builds (hh₁.mono (Nat.le_of_lt sumRank_lt)) hb
    exact ⟨y₂, (processAll_append h₁ _).trans h₂, hh₂⟩
  | .mk (some sign) first others, y, hb => by
    obtain ⟨y₀, h₀, ho₀, hs₀⟩ := process_leading sign y
    have hb₀ : Blocks productRank y₀.stack := by
      rw [hs₀]
      exact blocks_operator sign.precedence_unary.2 _
    obtain ⟨y₁, h₁, hh₁⟩ := first.builds y₀ hb₀
    rw [ho₀, hs₀] at hh₁
    obtain ⟨y₂, h₂, hh₂⟩ :=
      others.builds (hh₁.unary (Nat.le_of_lt sumRank_lt) sign.precedence_unary.1) hb
    refine ⟨y₂, ?_, hh₂⟩
    rw [Expression.marked, processAll_cons h₀, processAll_append h₁, h₂]

theorem Terms.builds : ∀ (d : Terms) {y : Yard} {output : List RpnItem} {stack : List Waiting}
    {left : Expr}, y.Holds sumRank output stack left → Blocks sumRank stack →
    ∃ y', y.processAll d.marked = .ok y' ∧ y'.Holds sumRank output stack (d.fold left)
  | .nil, y, _, _, _, h, _ => ⟨y, rfl, h⟩
  | .cons sign term others, y, output, stack, left, h, hb => by
    obtain ⟨y₀, h₀, ho₀, hs₀⟩ :=
      process_binary h hb sign.ofKind?_token sign.isUnary_binary sign.precedence_binary
    have hb₀ : Blocks productRank y₀.stack := by
      rw [hs₀]
      exact blocks_operator (by rw [sign.precedence_binary]; exact sumRank_lt) _
    obtain ⟨y₁, h₁, hh₁⟩ := term.builds y₀ hb₀
    rw [ho₀, hs₀] at hh₁
    have hh := hh₁.binary (Nat.le_of_lt sumRank_lt) (Nat.le_of_eq sign.precedence_binary.symm)
    obtain ⟨y₂, h₂, hh₂⟩ := others.builds hh hb
    refine ⟨y₂, ?_, hh₂⟩
    rw [Terms.marked, processAll_cons h₀, processAll_append h₁, h₂]

theorem Term.builds : ∀ (d : Term) (y : Yard), Blocks productRank y.stack →
    ∃ y', y.processAll d.marked = .ok y' ∧ y'.Holds productRank y.output y.stack d.tree
  | .mk first others, y, hb => by
    obtain ⟨y₁, h₁, ho₁, hs₁⟩ := first.builds y
    obtain ⟨y₂, h₂, hh₂⟩ := others.builds (Holds.settled productRank hs₁ ho₁) hb
    exact ⟨y₂, (processAll_append h₁ _).trans h₂, hh₂⟩

theorem Factors.builds : ∀ (d : Factors) {y : Yard} {output : List RpnItem} {stack : List Waiting}
    {left : Expr}, y.Holds productRank output stack left → Blocks productRank stack →
    ∃ y', y.processAll d.marked = .ok y' ∧ y'.Holds productRank output stack (d.fold left)
  | .nil, y, _, _, _, h, _ => ⟨y, rfl, h⟩
  | .cons times factor others, y, output, stack, left, h, hb => by
    obtain ⟨y₀, h₀, ho₀, hs₀⟩ :=
      process_binary h hb times.ofKind?_token times.isUnary_operator times.precedence_operator
    obtain ⟨y₁, h₁, ho₁, hs₁⟩ := factor.builds y₀
    rw [hs₀] at hs₁
    rw [ho₀] at ho₁
    have hh := (Holds.settled productRank hs₁ ho₁).binary (Nat.le_refl _)
      (Nat.le_of_eq times.precedence_operator.symm)
    obtain ⟨y₂, h₂, hh₂⟩ := others.builds hh hb
    refine ⟨y₂, ?_, hh₂⟩
    rw [Factors.marked, processAll_cons h₀, processAll_append h₁, h₂]

/-- A factor goes to the row at once, and leaves the stack as it was. -/
theorem Factor.builds : ∀ (d : Factor) (y : Yard), ∃ y', y.processAll d.marked = .ok y' ∧
    y'.output = d.tree.postorder.reverse ++ y.output ∧ y'.stack = y.stack
  | .ident name, y => ⟨_, processAll_cons (process_ident name.kind_eq) [], rfl, rfl⟩
  | .number n, y => ⟨_, processAll_cons (process_number n.kind_eq n.value_eq) [], rfl, rfl⟩
  | .paren opening inner closing, y => by
    have h₀ := process_lparen (y := y) opening.kind_eq
    obtain ⟨y₁, h₁, hh₁⟩ := inner.builds { y with line := opening.token.line, stack := .paren :: y.stack }
      (blocks_paren _ _)
    obtain ⟨y₂, h₂, ho₂, hs₂⟩ := process_closing hh₁ closing
    refine ⟨y₂, ?_, ho₂, hs₂⟩
    rw [Factor.marked, processAll_cons h₀, processAll_append h₁, processAll_cons h₂]
    rfl

end

end Phrase

end PL0
