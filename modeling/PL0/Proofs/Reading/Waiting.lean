/-
The stack of the yard while an expression is read, from any words. The calls that are made for an expression are made on
one yard, each on what the one before left (`Driven`), also where a call is refused and reading stops. A leading sign is
handed over only at the start or after an open parenthesis, so that the ranks along the stack are kept; and a rule that
succeeds has closed what it opened, so that the yard is completed with no parenthesis open. Main statement:
`inOrder_of_calls`.
-/
import PL0.Proofs.Reading.Calls
import PL0.Proofs.Yard.Balance
import PL0.Proofs.Yard.Ranks

namespace PL0

namespace Yard

open Token (openings closings openings_append closings_append)

/-! ## Calls on one yard -/

/-- The yard on which a call is made. -/
def Call.yard : Call → Yard
  | process y _ => y
  | complete y => y
  | tree y => y

/-- What is asked by a call. -/
def Call.request : Call → Request
  | process _ t => .process t
  | complete _ => .complete
  | tree _ => .tree

/-- The call hands over a leading sign only where no operator is on top of the stack, and completes the yard only where no
parenthesis is open. -/
def Call.Fits (call : Call) : Prop :=
  call.request.SignFits call.yard ∧ (call.request = .complete → call.yard.depth = 0)

/-- Calls on one yard, one after another, whatever they answer. -/
inductive Driven : Yard → List Call → Yard → Prop where
  | nil (y : Yard) : Driven y [] y
  | cons {y y' : Yard} {call : Call} {calls : List Call} (on : call.yard = y) (fits : call.Fits)
      (rest : Driven (y.after call.request) calls y') : Driven y (call :: calls) y'

namespace Driven

variable {y y₁ y' : Yard} {calls calls' : List Call}

theorem append (h : Driven y calls y₁) (h' : Driven y₁ calls' y') : Driven y (calls ++ calls') y' := by
  induction h with
  | nil y => exact h'
  | cons on fits _ ih => exact .cons on fits (ih h')

theorem split (h : Driven y (calls ++ calls') y') : ∃ y₁, Driven y calls y₁ ∧ Driven y₁ calls' y' := by
  induction calls generalizing y with
  | nil => exact ⟨y, .nil y, h⟩
  | cons call calls ih =>
    cases h with
    | cons on fits rest =>
      obtain ⟨y₁, h₁, h₂⟩ := ih rest
      exact ⟨y₁, .cons on fits h₁, h₂⟩

theorem afterAll_eq (h : Driven y calls y') : y.afterAll (calls.map Call.request) = y' := by
  induction h with
  | nil y => rfl
  | cons _ _ _ ih => exact ih

theorem head_yard (h : Driven y calls y') : ∀ call ∈ calls.head?, call.yard = y := by
  cases h with
  | nil => exact nofun
  | cons on => rintro _ ⟨⟩; exact on

theorem ranked (h : Driven y calls y') (hy : y.Ranked) : y'.Ranked := by
  induction h with
  | nil y => exact hy
  | cons on fits _ ih =>
    subst on
    exact ih (hy.after fits.1)

end Driven

/-- What is refused opens nothing, and closes nothing that is open. -/
theorem depthAfter_of_refused {y : Yard} {t : Token} {fault : Fault} (h : (y.process t).1 = .error fault) :
    (Request.process t).depthAfter y.depth = y.depth := by
  have hno : ¬(t.Usable ∧ (t.kind = .rparen → y.depth ≠ 0)) := by
    rw [← process_eq_ok_iff, h]
    simp
  rw [Request.depthAfter]
  split
  · rename_i hk
    exact absurd ⟨.inr (.inr (.inl hk)), fun hr => by simp [hk] at hr⟩ hno
  · rename_i hk
    by_contra hd
    exact hno ⟨.inr (.inr (.inr hk)), fun _ h0 => hd (by rw [h0])⟩
  · rfl

/-- The parentheses that are open after a request, with those that it closed, are those before it, with those that it
opened; what is refused does neither. -/
theorem depth_after_add {y : Yard} {r : Request} (h : r = .complete → y.depth = 0) :
    (y.after r).depth + closings (y.takes? r).toList = y.depth + openings (y.takes? r).toList := by
  cases r with
  | process t =>
    rw [depth_after, takes?]
    cases hp : (y.process t).1 with
    | ok _ => exact Token.depthAfter_add ((process_eq_ok_iff y t).1 hp).2
    | error fault =>
      rw [depthAfter_of_refused hp]
      rfl
  | complete =>
    rw [depth_after, h rfl]
    rfl
  | tree => rfl

theorem Driven.depth {y y' : Yard} {calls : List Call} (h : Driven y calls y') :
    y'.depth + closings (y.taken (calls.map Call.request)) =
      y.depth + openings (y.taken (calls.map Call.request)) := by
  induction h with
  | nil y => rfl
  | @cons y y' call calls on fits _ ih =>
    subst on
    have hone := depth_after_add fits.2
    rw [List.map_cons, taken, closings_append, openings_append]
    omega

end Yard

namespace Watched

open Yard
open PL0.Parser (peek advance accept? exhausted refuse expect)
open Token (openings closings)

variable {α β : Type} {endLine n : Nat} {ts rest : List Token} {y : Yard}

/-! ## An expression that stands alone -/

/-- The rule for an expression that stands alone, and its calls. -/
def loneTree (n : Nat) : Watched Expr := do
  let y ← expression n .initial
  let y ← match ← quiet (accept? .rparen) with
    | some close => feed y close
    | none => pure y
  let _ ← quiet (expect .eof)
  finish y

theorem parser_loneTree (n : Nat) : (loneTree n).parser = Grammar.loneTree n := by
  simp only [loneTree, Grammar.loneTree, parser_bind, (parser_expression_rules n).1]
  refine congrArg (Grammar.expression n .initial >>= ·) (funext fun y => ?_)
  refine congrArg (accept? .rparen >>= ·) (funext fun found => ?_)
  cases found <;> rfl

/-! ## What a rule does to the yard -/

/-- The calls drive the yard `y` to one of which `Q` says, with the result, what holds if there is a result. -/
def Handles (y : Yard) (w : Watched α) (endLine : Nat) (ts : List Token) (Q : Yard → α → Prop) : Prop :=
  ∃ y', Driven y (w.calls endLine ts) y' ∧ ∀ a rest, w.parser.run endLine ts = .done a rest → Q y' a

/-- The result is the yard itself, with `d` parentheses open. -/
def Returns (d : Nat) (y' y₁ : Yard) : Prop := y₁ = y' ∧ y₁.depth = d

theorem handles_pure : Handles y (pure y) endLine ts (Returns y.depth) := by
  refine ⟨y, .nil y, ?_⟩
  rintro y₁ rest ⟨⟩
  exact ⟨rfl, rfl⟩

theorem handles_quiet {p : Parser α} {Q : Yard → α → Prop}
    (h : ∀ a rest, p.run endLine ts = .done a rest → Q y a) : Handles y (quiet p) endLine ts Q :=
  ⟨y, .nil y, h⟩

theorem handles_exhausted {Q : Yard → α → Prop} : Handles y (quiet exhausted) endLine ts Q :=
  handles_quiet fun _ _ h => by cases h

theorem handles_refuse {reason : String → Nat → Fault} {Q : Yard → α → Prop} :
    Handles y (quiet (refuse reason)) endLine ts Q :=
  handles_quiet fun _ _ h => by cases h

/-- One parser after another. -/
theorem handles_bind {w : Watched α} {f : α → Watched β} {Q : Yard → α → Prop} {R : Yard → β → Prop}
    (hw : Handles y w endLine ts Q)
    (hf : ∀ y' a rest, w.parser.run endLine ts = .done a rest → Q y' a → Handles y' (f a) endLine rest R) :
    Handles y (w >>= f) endLine ts R := by
  obtain ⟨y₁, hc, hq⟩ := hw
  have hcalls : (w >>= f).calls endLine ts = w.calls endLine ts ++
      callsAfter (fun a rest => (f a).calls endLine rest) (w.parser.run endLine ts) := rfl
  unfold Handles
  rw [hcalls, parser_bind, Parser.run_bind]
  cases hrun : w.parser.run endLine ts with
  | done a rest =>
    obtain ⟨y', hc', hr⟩ := hf y₁ a rest hrun (hq a rest hrun)
    exact ⟨y', hc.append hc', hr⟩
  | failed fault rest => exact ⟨y₁, hc.append (.nil y₁), nofun⟩
  | exhausted => exact ⟨y₁, hc.append (.nil y₁), nofun⟩

/-- What makes no call leaves the yard to what follows. -/
theorem handles_quiet_bind {p : Parser α} {f : α → Watched β} {R : Yard → β → Prop}
    (h : ∀ a rest, p.run endLine ts = .done a rest → Handles y (f a) endLine rest R) :
    Handles y (quiet p >>= f) endLine ts R :=
  handles_bind (handles_quiet (Q := fun y' _ => y' = y) fun _ _ _ => rfl) fun _ a rest hrun hy => hy ▸ h a rest hrun

/-- The word at the front stays there. -/
theorem handles_peek_bind {f : Token → Watched β} {R : Yard → β → Prop}
    (h : Handles y (f (frontOf ts)) endLine ts R) : Handles y (quiet peek >>= f) endLine ts R :=
  handles_quiet_bind fun _ _ hrun => by cases hrun; exact h

theorem handles_advance_bind {f : Token → Watched β} {R : Yard → β → Prop}
    (h : Handles y (f (frontOf ts)) endLine ts.tail R) : Handles y (quiet advance >>= f) endLine ts R :=
  handles_quiet_bind fun _ _ hrun => by cases hrun; exact h

theorem handles_accept?_bind {kind : TokenKind} {f : Option Token → Watched β} {R : Yard → β → Prop}
    (hsome : (frontOf ts).kind = kind → Handles y (f (some (frontOf ts))) endLine ts.tail R)
    (hnone : Handles y (f none) endLine ts R) : Handles y (quiet (accept? kind) >>= f) endLine ts R := by
  refine handles_quiet_bind fun a rest hrun => ?_
  by_cases hk : (frontOf ts).kind = kind
  · simp only [accept?, hk, if_true] at hrun
    cases hrun
    exact hsome hk
  · simp only [accept?, hk, if_false] at hrun
    cases hrun
    exact hnone

/-- Only leading signs have to fit. -/
theorem signFits_of_kind {t : Token} (h : t.kind ≠ .unaryPlus ∧ t.kind ≠ .unaryMinus) :
    (Request.process t).SignFits y := by
  intro op item hu
  have hop : Operator.ofKind? t.kind = some op := by
    have h := t.operator?_eq
    rwa [item] at h
  cases hk : t.kind <;> rw [hk] at hop <;> cases hop
  case unaryPlus => exact absurd hk h.1
  case unaryMinus => exact absurd hk h.2
  all_goals cases hu

theorem depthAfter_of_kind {t : Token} (h : t.kind ≠ .lparen ∧ t.kind ≠ .rparen) (d : Nat) :
    (Request.process t).depthAfter d = d := by
  rw [Request.depthAfter]
  split
  · rename_i hk
    exact absurd hk h.1
  · rename_i hk
    exact absurd hk h.2
  · rfl

/-- A word that is handed over opens or closes what its kind says. -/
theorem handles_feed {t : Token} (h : (Request.process t).SignFits y) :
    Handles y (feed y t) endLine ts (Returns ((Request.process t).depthAfter y.depth)) := by
  refine ⟨y.after (.process t), .cons rfl ⟨h, nofun⟩ (.nil _), fun y₁ rest hrun => ?_⟩
  obtain ⟨hp, -⟩ := Grammar.run_feed_eq_done.1 hrun
  have hy₁ : y₁ = y.after (.process t) := by rw [after_process, hp]
  exact ⟨hy₁, hy₁ ▸ depth_after y (.process t)⟩

theorem handles_word {t : Token} (hp : t.kind ≠ .lparen ∧ t.kind ≠ .rparen)
    (hs : t.kind ≠ .unaryPlus ∧ t.kind ≠ .unaryMinus) : Handles y (feed y t) endLine ts (Returns y.depth) :=
  depthAfter_of_kind hp y.depth ▸ handles_feed (signFits_of_kind hs)

theorem kind_of_toUnary? {t sign : Token} (h : t.toUnary? = some sign) :
    sign.kind = .unaryPlus ∨ sign.kind = .unaryMinus := by
  unfold Token.toUnary? at h
  split at h <;> cases h
  · exact .inl rfl
  · exact .inr rfl

theorem handles_leadingSign (hb : Blocks 0 y.stack) :
    Handles y (leadingSign y) endLine ts (Returns y.depth) := by
  refine handles_peek_bind ?_
  cases hs : (frontOf ts).toUnary? with
  | some sign =>
    have hd : (Request.process sign).depthAfter y.depth = y.depth :=
      depthAfter_of_kind (by rcases kind_of_toUnary? hs with hk | hk <;> simp [hk]) y.depth
    exact handles_advance_bind (hd ▸ handles_feed fun _ _ _ => hb)
  | none => exact handles_pure

/-- The closing of a parenthesis. -/
theorem handles_closing : Handles y (closing y) endLine ts (Returns (y.depth - 1)) := by
  refine handles_accept?_bind (fun hk => ?_) handles_refuse
  have hd : (Request.process (frontOf ts)).depthAfter y.depth = y.depth - 1 := by simp [Request.depthAfter, hk]
  exact hd ▸ handles_feed (signFits_of_kind (by simp [hk]))

/-- **The rules of an expression** leave as many parentheses open as they find, if they succeed. Only an expression may begin
with a sign, and it is begun where no operator is on top of the stack. -/
theorem handles_expression_rules (n : Nat) :
    (∀ y endLine ts, Blocks 0 y.stack → Handles y (expression n y) endLine ts (Returns y.depth)) ∧
    (∀ y endLine ts, Handles y (moreTerms n y) endLine ts (Returns y.depth)) ∧
    (∀ y endLine ts, Handles y (term n y) endLine ts (Returns y.depth)) ∧
    (∀ y endLine ts, Handles y (moreFactors n y) endLine ts (Returns y.depth)) ∧
    (∀ y endLine ts, Handles y (factor n y) endLine ts (Returns y.depth)) := by
  induction n with
  | zero =>
    refine ⟨?_, ?_, ?_, ?_, ?_⟩ <;> intros <;> exact handles_exhausted
  | succ n ih =>
    obtain ⟨ihe, ihmt, iht, ihmf, ihf⟩ := ih
    refine ⟨fun y endLine ts hb => ?_, fun y endLine ts => ?_, fun y endLine ts => ?_, fun y endLine ts => ?_,
      fun y endLine ts => ?_⟩
    · refine handles_bind (handles_leadingSign hb) ?_
      rintro _ y₁ r₁ - ⟨rfl, h₁⟩
      refine handles_bind (iht y₁ endLine r₁) ?_
      rintro _ y₂ r₂ - ⟨rfl, h₂⟩
      exact (h₂.trans h₁) ▸ ihmt y₂ endLine r₂
    · refine handles_peek_bind ?_
      split
      case h_1 hk | h_2 hk =>
        refine handles_advance_bind (handles_bind (handles_word (by simp [hk]) (by simp [hk])) ?_)
        rintro _ y₁ r₁ - ⟨rfl, h₁⟩
        refine handles_bind (iht y₁ endLine r₁) ?_
        rintro _ y₂ r₂ - ⟨rfl, h₂⟩
        exact (h₂.trans h₁) ▸ ihmt y₂ endLine r₂
      case h_3 => exact handles_pure
    · refine handles_bind (ihf y endLine ts) ?_
      rintro _ y₁ r₁ - ⟨rfl, h₁⟩
      exact h₁ ▸ ihmf y₁ endLine r₁
    · refine handles_peek_bind ?_
      split
      case h_1 hk | h_2 hk =>
        refine handles_advance_bind (handles_bind (handles_word (by simp [hk]) (by simp [hk])) ?_)
        rintro _ y₁ r₁ - ⟨rfl, h₁⟩
        refine handles_bind (ihf y₁ endLine r₁) ?_
        rintro _ y₂ r₂ - ⟨rfl, h₂⟩
        exact (h₂.trans h₁) ▸ ihmf y₂ endLine r₂
      case h_3 => exact handles_pure
    · refine handles_peek_bind ?_
      split
      case h_1 hk | h_2 hk =>
        exact handles_advance_bind (handles_word (by simp [hk]) (by simp [hk]))
      case h_3 hk =>
        refine handles_advance_bind (handles_bind (handles_feed (signFits_of_kind (by simp [hk]))) ?_)
        rintro _ y₁ r₁ hrun ⟨rfl, h₁⟩
        -- the parenthesis is on top of the stack, so that the expression inside it may begin with a sign
        have hb : Blocks 0 y₁.stack := by
          obtain ⟨hp, -⟩ := Grammar.run_feed_eq_done.1 hrun
          rw [process_lparen hk] at hp
          cases hp
          exact blocks_paren 0 _
        refine handles_bind (ihe y₁ endLine r₁ hb) ?_
        rintro _ y₂ r₂ - ⟨rfl, h₂⟩
        have hd : y₂.depth - 1 = y.depth := by
          rw [h₂, h₁, Request.depthAfter, hk]
          rfl
        exact hd ▸ handles_closing
      case h_4 => exact handles_refuse

/-- The tree is asked for where no parenthesis is open. -/
theorem handles_finish (h : y.depth = 0) : Handles y (finish y) endLine ts fun _ _ => True :=
  ⟨_, .cons rfl ⟨trivial, fun _ => h⟩ (.cons rfl ⟨trivial, nofun⟩ (.nil _)), fun _ _ _ => trivial⟩

theorem handles_tree : Handles .initial (tree n) endLine ts fun _ _ => True := by
  refine handles_bind ((handles_expression_rules n).1 .initial endLine ts (blocks_nil 0)) ?_
  rintro _ y rest - ⟨rfl, hd⟩
  exact handles_finish hd

theorem handles_loneTree : Handles .initial (loneTree n) endLine ts fun _ _ => True := by
  refine handles_bind ((handles_expression_rules n).1 .initial endLine ts (blocks_nil 0)) ?_
  rintro _ y rest - ⟨rfl, hd⟩
  have hfinish : ∀ {y : Yard} {ts : List Token}, y.depth = 0 →
      Handles y (quiet (expect .eof) >>= fun _ => finish y) endLine ts fun _ _ => True :=
    fun hd => handles_quiet_bind fun _ _ _ => handles_finish hd
  refine handles_accept?_bind (fun hk => ?_) (hfinish hd)
  refine handles_bind (handles_feed (signFits_of_kind (by simp [hk]))) ?_
  rintro _ y₁ rest - ⟨rfl, h₁⟩
  refine hfinish ?_
  rw [h₁, Request.depthAfter, hk, hd]
  rfl

/-- **At every moment** while an expression is read, inside a program or alone and from any words: the next call is made on
the yard that the calls before it left; the operators on its stack are in order between two parentheses, and stay so while
the stack is taken off from the top; and the parentheses there are those that were handed over and taken, less those that
were closed. -/
theorem inOrder_of_calls (n endLine : Nat) (ts : List Token) :
    (tree n).parser = Grammar.tree n ∧ (loneTree n).parser = Grammar.loneTree n ∧
      ∀ calls ∈ [(tree n).calls endLine ts, (loneTree n).calls endLine ts],
        ∀ before after, calls = before ++ after →
          let requests := before.map Call.request
          let y := initial.afterAll requests
          (∀ call ∈ after.head?, call.yard = y) ∧ (∀ y' : Yard, y'.stack <:+ y.stack → y'.InOrder) ∧
            y.depth + closings (initial.taken requests) = openings (initial.taken requests) := by
  refine ⟨parser_tree n, parser_loneTree n, fun calls hcalls before after hsplit => ?_⟩
  obtain ⟨y', hdriven⟩ : ∃ y', Driven initial calls y' := by
    rcases List.mem_pair.1 hcalls with rfl | rfl
    · obtain ⟨y', h, -⟩ := @handles_tree endLine n ts
      exact ⟨y', h⟩
    · obtain ⟨y', h, -⟩ := @handles_loneTree endLine n ts
      exact ⟨y', h⟩
  obtain ⟨y, hbefore, hafter⟩ := (hsplit ▸ hdriven).split
  obtain rfl := hbefore.afterAll_eq
  have hranked := hbefore.ranked ranked_initial
  have hdepth := hbefore.depth
  refine ⟨hafter.head_yard, fun y' hs => (hranked.of_suffix hs).inOrder, ?_⟩
  rwa [show initial.depth = 0 from rfl, Nat.zero_add] at hdepth

/-- `- x * ( y + 2 * z )` -/
def signed : List Token :=
  [.plain .minus "-" 1, .plain .ident "x" 1, .plain .multiply "*" 1, .plain .lparen "(" 1, .plain .ident "y" 1,
   .plain .plus "+" 1, ⟨.number, "2", some 2, 1⟩, .plain .multiply "*" 1, .plain .ident "z" 1, .plain .rparen ")" 1]

/-- When `z` is handed over, two operators wait inside the parenthesis and two outside, a sign the lowest of these. -/
theorem inOrder_of_calls_signed :
    ∃ call, (((tree 40).calls 1 signed).drop 8).head? = some call ∧ call.request = .process (.plain .ident "z" 1) ∧
      call.yard.stack = [.operator .multiply, .operator .plus, .paren, .operator .multiply, .operator .unaryMinus] ∧
      call.yard.InOrder := by
  obtain ⟨call, hcall, hrequest, hstack⟩ : ∃ call, (((tree 40).calls 1 signed).drop 8).head? = some call ∧
      call.request = .process (.plain .ident "z" 1) ∧
      call.yard.stack = [.operator .multiply, .operator .plus, .paren, .operator .multiply, .operator .unaryMinus] :=
    ⟨_, rfl, rfl, rfl⟩
  obtain ⟨-, -, hmoments⟩ := inOrder_of_calls 40 1 signed
  obtain ⟨hnext, horder, -⟩ := hmoments _ List.mem_cons_self _ _ (List.take_append_drop 8 _).symm
  exact ⟨call, hcall, hrequest, hstack, hnext call hcall ▸ horder _ List.suffix_rfl⟩

end Watched

end PL0
