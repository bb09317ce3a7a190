/-
The calls that are made on a yard while an expression is read. `Watched` keeps them beside the parser that makes
them, in their order and each with the yard on which it is made. The rules of an expression are written down
once more with their calls, and without these they are the rules of the grammar (`parser_tree`); the calls hand
one word after another to one yard, and what becomes of the yard is what the rule returns
(`drives_expression_rules`). Main statement: if the numbers among the words have their values, no call fails
(`succeeds_of_mem_calls`).
-/
import PL0.Proofs.Reading.Refusal

namespace PL0

namespace Yard

/-- A call on a yard, and the yard on which it is made. -/
inductive Call where
  | process (y : Yard) (t : Token)
  | complete (y : Yard)
  | tree (y : Yard)
deriving DecidableEq, Repr

/-- The call does what it is meant to do. -/
def Call.Succeeds : Call → Prop
  | process y t => (y.process t).1 = .ok ()
  | complete y => y.complete.1 = .ok ()
  | tree y => ∃ e, y.tree = .ok e

/-- Words are handed one after another to the yard, which takes them all. -/
inductive Chain : Yard → List Call → Yard → Prop where
  | nil (y : Yard) : Chain y [] y
  | cons {y y₁ y' : Yard} {t : Token} {calls : List Call} (step : y.process t = (.ok (), y₁))
      (chain : Chain y₁ calls y') : Chain y (.process y t :: calls) y'

theorem Chain.append {y y₁ y' : Yard} {calls calls' : List Call} (h : Chain y calls y₁)
    (h' : Chain y₁ calls' y') : Chain y (calls ++ calls') y' := by
  induction h with
  | nil y => exact h'
  | cons step _ ih => exact .cons step (ih h')

theorem Chain.succeeds {y y' : Yard} {calls : List Call} (h : Chain y calls y') :
    ∀ call ∈ calls, call.Succeeds := by
  induction h with
  | nil y => simp
  | cons step _ ih => exact List.forall_mem_cons.2 ⟨congrArg Prod.fst step, ih⟩

theorem complete_tree_of_finish {y : Yard} {e : Expr} (h : y.finish = .ok e) :
    y.complete.1 = .ok () ∧ y.complete.2.tree = .ok e := by
  unfold finish at h
  split at h
  · rename_i y' hc
    rw [hc]
    exact ⟨rfl, h⟩
  · cases h

end Yard

open Yard Phrase

/-! ## Parsers and their calls -/

/-- A parser, and the calls that it makes. -/
structure Watched (α : Type) where
  parser : Parser α
  calls : (endLine : Nat) → List Token → List Call

namespace Watched

variable {α β : Type}

/-- The calls made with what was read, if it was read. -/
def callsAfter (calls : α → List Token → List Call) : Outcome α → List Call
  | .done a rest => calls a rest
  | .failed _ _ => []
  | .exhausted => []

instance : Monad Watched where
  pure a := ⟨pure a, fun _ _ => []⟩
  bind w f := {
    parser := w.parser >>= fun a => (f a).parser
    calls := fun endLine ts =>
      w.calls endLine ts ++ callsAfter (fun a rest => (f a).calls endLine rest) (w.parser.run endLine ts) }

/-- A parser that makes no call. -/
def quiet (p : Parser α) : Watched α := ⟨p, fun _ _ => []⟩

@[simp] theorem parser_bind (w : Watched α) (f : α → Watched β) :
    (w >>= f).parser = w.parser >>= fun a => (f a).parser := rfl

@[simp] theorem parser_quiet (p : Parser α) : (quiet p).parser = p := rfl

/-! ## The rules of an expression and their calls -/

open PL0.Parser (peek advance accept? exhausted refuse unexpected ofExcept)

def feed (y : Yard) (t : Token) : Watched Yard := ⟨Grammar.feed y t, fun _ _ => [.process y t]⟩

/-- The tree is asked for when all words have come. -/
def finish (y : Yard) : Watched Expr := ⟨ofExcept y.finish, fun _ _ => [.complete y, .tree y.complete.2]⟩

def leadingSign (y : Yard) : Watched Yard := do
  match (← quiet peek).toUnary? with
  | some sign => do
    let _ ← quiet advance
    feed y sign
  | none => return y

/-- The closing parenthesis of a factor. -/
def closing (y : Yard) : Watched Yard := do
  match ← quiet (accept? .rparen) with
  | some close => feed y close
  | none => quiet (refuse .unclosedAt)

mutual

def expression : Nat → Yard → Watched Yard
  | 0, _ => quiet exhausted
  | n + 1, y => do
    let y ← leadingSign y
    let y ← term n y
    moreTerms n y

def moreTerms : Nat → Yard → Watched Yard
  | 0, _ => quiet exhausted
  | n + 1, y => do
    match (← quiet peek).kind with
    | .plus | .minus => do
      let y ← feed y (← quiet advance)
      let y ← term n y
      moreTerms n y
    | _ => return y

def term : Nat → Yard → Watched Yard
  | 0, _ => quiet exhausted
  | n + 1, y => do
    let y ← factor n y
    moreFactors n y

def moreFactors : Nat → Yard → Watched Yard
  | 0, _ => quiet exhausted
  | n + 1, y => do
    match (← quiet peek).kind with
    | .multiply | .divide => do
      let y ← feed y (← quiet advance)
      let y ← factor n y
      moreFactors n y
    | _ => return y

def factor : Nat → Yard → Watched Yard
  | 0, _ => quiet exhausted
  | n + 1, y => do
    match (← quiet peek).kind with
    | .ident | .number => feed y (← quiet advance)
    | .lparen => do
      let y ← feed y (← quiet advance)
      let y ← expression n y
      closing y
    | _ => quiet (unexpected "factor")

end

def tree (n : Nat) : Watched Expr := do
  let y ← expression n .initial
  finish y

@[simp] theorem parser_feed (y : Yard) (t : Token) : (feed y t).parser = Grammar.feed y t := rfl

theorem parser_leadingSign (y : Yard) : (leadingSign y).parser = Grammar.leadingSign y := by
  simp only [leadingSign, Grammar.leadingSign, parser_bind, parser_quiet]
  refine congrArg (peek >>= ·) (funext fun t => ?_)
  cases t.toUnary? <;> rfl

theorem parser_closing (y : Yard) : (closing y).parser = (do
    match ← accept? .rparen with
    | some close => Grammar.feed y close
    | none => refuse .unclosedAt : Parser Yard) := by
  simp only [closing, parser_bind, parser_quiet]
  refine congrArg (accept? .rparen >>= ·) (funext fun found => ?_)
  cases found <;> rfl

/-- **The rules without their calls** are the rules of the grammar. -/
theorem parser_expression_rules (n : Nat) :
    (∀ y, (expression n y).parser = Grammar.expression n y) ∧
    (∀ y, (moreTerms n y).parser = Grammar.moreTerms n y) ∧
    (∀ y, (term n y).parser = Grammar.term n y) ∧
    (∀ y, (moreFactors n y).parser = Grammar.moreFactors n y) ∧
    (∀ y, (factor n y).parser = Grammar.factor n y) := by
  induction n with
  | zero => refine ⟨?_, ?_, ?_, ?_, ?_⟩ <;> intro y <;> rfl
  | succ n ih =>
    obtain ⟨ihe, ihmt, iht, ihmf, ihf⟩ := ih
    refine ⟨fun y => ?_, fun y => ?_, fun y => ?_, fun y => ?_, fun y => ?_⟩
    · simp only [expression, Grammar.expression, parser_bind, parser_leadingSign, iht, ihmt]
    · simp only [moreTerms, Grammar.moreTerms, parser_bind, parser_quiet]
      refine congrArg (peek >>= ·) (funext fun t => ?_)
      cases t.kind with
      | plus | minus => simp only [parser_bind, parser_quiet, parser_feed, iht, ihmt]
      | _ => rfl
    · simp only [term, Grammar.term, parser_bind, ihf, ihmf]
    · simp only [moreFactors, Grammar.moreFactors, parser_bind, parser_quiet]
      refine congrArg (peek >>= ·) (funext fun t => ?_)
      cases t.kind with
      | multiply | divide => simp only [parser_bind, parser_quiet, parser_feed, ihf, ihmf]
      | _ => rfl
    · simp only [factor, Grammar.factor, parser_bind, parser_quiet]
      refine congrArg (peek >>= ·) (funext fun t => ?_)
      cases t.kind with
      | lparen =>
        simp only [parser_bind, parser_quiet, parser_feed, ihe]
        refine congrArg (advance >>= ·) (funext fun t => congrArg (Grammar.feed y t >>= ·) (funext fun y₁ => ?_))
        exact congrArg (Grammar.expression n y₁ >>= ·) (funext parser_closing)
      | _ => rfl

theorem parser_tree (n : Nat) : (tree n).parser = Grammar.tree n := by
  simp only [tree, Grammar.tree, parser_bind, (parser_expression_rules n).1]
  rfl

/-! ## The yard takes every word -/

variable {endLine n : Nat} {ts rest : List Token}

/-- The calls take the yard from one state to another, which is the one that the parser returns, if it returns
one. -/
def Drives (y : Yard) (w : Watched Yard) (endLine : Nat) (ts : List Token) : Prop :=
  ∃ y', Chain y (w.calls endLine ts) y' ∧ ∀ y₁ rest, w.parser.run endLine ts = .done y₁ rest → y₁ = y'

theorem drives_pure (y : Yard) : Drives y (pure y) endLine ts := by
  refine ⟨y, .nil y, ?_⟩
  intro y₁ rest h
  cases h
  rfl

theorem drives_refuse (y : Yard) (reason : String → Nat → Fault) :
    Drives y (quiet (refuse reason)) endLine ts :=
  ⟨y, .nil y, nofun⟩

theorem drives_feed {y y₁ : Yard} {t : Token} (h : y.process t = (.ok (), y₁)) :
    Drives y (feed y t) endLine ts := by
  refine ⟨y₁, .cons h (.nil y₁), ?_⟩
  intro y' rest hrun
  rw [parser_feed, Grammar.run_feed_eq_done.2 ⟨h, rfl⟩] at hrun
  cases hrun
  rfl

/-- One parser after another on one yard. -/
theorem drives_bind {y : Yard} {w : Watched Yard} {f : Yard → Watched Yard} (hw : Drives y w endLine ts)
    (hf : ∀ y₁ rest, w.parser.run endLine ts = .done y₁ rest → Drives y₁ (f y₁) endLine rest) :
    Drives y (w >>= f) endLine ts := by
  obtain ⟨y₁, hc, hy₁⟩ := hw
  have hcalls : (w >>= f).calls endLine ts = w.calls endLine ts ++
      callsAfter (fun a rest => (f a).calls endLine rest) (w.parser.run endLine ts) := rfl
  unfold Drives
  rw [hcalls, parser_bind, Parser.run_bind]
  cases hrun : w.parser.run endLine ts with
  | done y₂ rest =>
    obtain rfl : y₂ = y₁ := hy₁ y₂ rest hrun
    obtain ⟨y', hc', hy'⟩ := hf y₂ rest hrun
    exact ⟨y', hc.append hc', hy'⟩
  | failed fault rest => exact ⟨y₁, hc.append (.nil y₁), nofun⟩
  | exhausted => exact ⟨y₁, hc.append (.nil y₁), nofun⟩

/-- A word is handed to the yard, and reading goes on with the yard. -/
theorem drives_feed_bind {y y₁ : Yard} {t : Token} {f : Yard → Watched Yard} (h : y.process t = (.ok (), y₁))
    (hf : Drives y₁ (f y₁) endLine ts) : Drives y (feed y t >>= f) endLine ts := by
  refine drives_bind (drives_feed h) fun y' rest hrun => ?_
  rw [parser_feed, Grammar.run_feed_eq_done.2 ⟨h, rfl⟩] at hrun
  cases hrun
  exact hf

/-- What makes no call leaves the yard to what follows. -/
theorem drives_quiet_bind {y : Yard} {p : Parser α} {a : α} {f : α → Watched Yard}
    (hrun : p.run endLine ts = .done a rest) (h : Drives y (f a) endLine rest) :
    Drives y (quiet p >>= f) endLine ts := by
  have hcalls : (quiet p >>= f).calls endLine ts = (f a).calls endLine rest := by
    show callsAfter _ (p.run endLine ts) = _
    rw [hrun]
    rfl
  unfold Drives
  rw [hcalls, parser_bind, parser_quiet, Parser.run_bind_of_done hrun]
  exact h

theorem drives_leadingSign (y : Yard) : Drives y (leadingSign y) endLine ts := by
  refine drives_quiet_bind rfl ?_
  by_cases hk : (frontOf ts).kind ∈ sumKinds
  · obtain ⟨sign, r, rfl⟩ := Grammar.exists_sign hk
    rw [frontOf_cons, sign.toUnary?_token]
    exact drives_quiet_bind rfl (drives_feed (process_operator sign.ofKind?_marked))
  · rw [Grammar.toUnary?_eq_none hk]
    exact drives_pure y

/-- What stands after an expression that was begun after an open parenthesis. -/
theorem drives_closing {y y' : Yard} {stack : List Waiting} (hs : y.stack = .paren :: stack)
    (h : (Grammar.expression n y).run endLine ts = .done y' rest) : Drives y' (closing y') endLine rest := by
  by_cases hc : (frontOf rest).kind = .rparen
  · obtain ⟨close, r, rfl⟩ := exists_word hc (by decide)
    obtain ⟨y'', hp⟩ := Grammar.process_closing_of_run hs h close
    exact drives_quiet_bind (if_pos close.kind_eq) (drives_feed hp)
  · exact drives_quiet_bind (if_neg hc) (drives_refuse y' _)

/-- **The calls of an expression** hand its words to the yard, and the yard takes them all. -/
theorem drives_expression_rules (n : Nat) :
    (∀ y endLine ts, Valued ts → Drives y (expression n y) endLine ts) ∧
    (∀ y endLine ts, Valued ts → Drives y (moreTerms n y) endLine ts) ∧
    (∀ y endLine ts, Valued ts → Drives y (term n y) endLine ts) ∧
    (∀ y endLine ts, Valued ts → Drives y (moreFactors n y) endLine ts) ∧
    (∀ y endLine ts, Valued ts → Drives y (factor n y) endLine ts) := by
  induction n with
  | zero => refine ⟨?_, ?_, ?_, ?_, ?_⟩ <;> intro y endLine ts hv <;> exact ⟨y, .nil y, nofun⟩
  | succ n ih =>
    obtain ⟨ihe, ihmt, iht, ihmf, ihf⟩ := ih
    have hterm : ∀ y, (term n y).parser.Traces Term.words := by
      intro y
      rw [(parser_expression_rules n).2.2.1]
      exact (Grammar.traces_expression_rules n).2.2.1 y
    have hfactor : ∀ y, (factor n y).parser.Traces Factor.words := by
      intro y
      rw [(parser_expression_rules n).2.2.2.2]
      exact (Grammar.traces_expression_rules n).2.2.2.2 y
    refine ⟨fun y endLine ts hv => ?_, fun y endLine ts hv => ?_, fun y endLine ts hv => ?_,
      fun y endLine ts hv => ?_, fun y endLine ts hv => ?_⟩
    · refine drives_bind (drives_leadingSign y) fun y₁ r₁ h₁ => ?_
      rw [parser_leadingSign] at h₁
      have hr : Valued r₁ := (Grammar.traces_leadingSign y).valued hv h₁
      exact drives_bind (iht y₁ endLine r₁ hr) fun y₂ r₂ h₂ => ihmt y₂ endLine r₂ ((hterm y₁).valued hr h₂)
    · refine drives_quiet_bind rfl ?_
      split
      case h_1 hk | h_2 hk =>
        obtain ⟨sign, r, rfl⟩ := exists_word hk (by decide)
        have hop := congrArg Operator.ofKind? sign.kind_eq
        refine drives_quiet_bind rfl (drives_feed_bind (process_operator hop) ?_)
        have hr : Valued r := (valued_cons.1 hv).2
        exact drives_bind (iht _ endLine r hr) fun y₂ r₂ h₂ => ihmt y₂ endLine r₂ ((hterm _).valued hr h₂)
      case h_3 => exact drives_pure y
    · exact drives_bind (ihf y endLine ts hv) fun y₁ r₁ h₁ => ihmf y₁ endLine r₁ ((hfactor y).valued hv h₁)
    · refine drives_quiet_bind rfl ?_
      split
      case h_1 hk | h_2 hk =>
        obtain ⟨times, r, rfl⟩ := exists_word hk (by decide)
        have hop := congrArg Operator.ofKind? times.kind_eq
        refine drives_quiet_bind rfl (drives_feed_bind (process_operator hop) ?_)
        have hr : Valued r := (valued_cons.1 hv).2
        exact drives_bind (ihf _ endLine r hr) fun y₂ r₂ h₂ => ihmf y₂ endLine r₂ ((hfactor _).valued hr h₂)
      case h_3 => exact drives_pure y
    · refine drives_quiet_bind rfl ?_
      split
      case h_1 hk =>
        obtain ⟨name, r, rfl⟩ := exists_word hk (by decide)
        exact drives_quiet_bind rfl (drives_feed (process_ident name.kind_eq))
      case h_2 hk =>
        obtain ⟨word, r, rfl⟩ := exists_word hk (by decide)
        obtain ⟨value, hvalue⟩ := Option.ne_none_iff_exists'.1 ((valued_cons.1 hv).1 word.kind_eq)
        exact drives_quiet_bind rfl (drives_feed (process_number word.kind_eq hvalue))
      case h_3 hk =>
        obtain ⟨opening, r, rfl⟩ := exists_word hk (by decide)
        refine drives_quiet_bind rfl (drives_feed_bind (process_lparen opening.kind_eq) ?_)
        refine drives_bind (ihe _ endLine r (valued_cons.1 hv).2) fun y₂ r₂ h₂ => ?_
        rw [(parser_expression_rules n).1] at h₂
        exact drives_closing rfl h₂
      case h_4 => exact drives_refuse y _

/-- No call fails that is made while an expression is read for its tree. -/
theorem succeeds_of_mem_calls (hv : Valued ts) : ∀ call ∈ (tree n).calls endLine ts, call.Succeeds := by
  obtain ⟨y', hc, hy'⟩ := (drives_expression_rules n).1 .initial endLine ts hv
  refine List.forall_mem_append.2 ⟨hc.succeeds, ?_⟩
  cases hrun : (expression n .initial).parser.run endLine ts with
  | done y rest =>
    rw [(parser_expression_rules n).1] at hrun
    obtain ⟨e, he⟩ := Grammar.finish_of_run hrun
    obtain ⟨hcomplete, htree⟩ := complete_tree_of_finish he
    intro call hm
    simp only [callsAfter, finish, List.mem_cons, List.not_mem_nil, or_false] at hm
    rcases hm with rfl | rfl
    · exact hcomplete
    · exact ⟨e, htree⟩
  | failed fault rest => simp [callsAfter]
  | exhausted => simp [callsAfter]

/-- Three words, and the tree at the end. -/
example :
    ((tree 9).calls 1 [.plain .lparen "(" 1, .plain .ident "x" 1, .plain .rparen ")" 1]).length = 5 := by rfl

end Watched

end PL0
