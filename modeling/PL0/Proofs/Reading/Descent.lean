/-
How the rules of the grammar descend. Each rule is given here as the words that it reads itself and the rules
that it calls, the going round of its loops among them. A call is made at a later place of the words, or by a
rule to one below it: `Rule.read` goes on by such calls alone, so that it ends without any bound, and it reads
what the bounded parsers read. Main statement: `Rule.reading_ends`.
-/
import PL0.Grammar.Bound

namespace PL0

namespace Outcome

variable {α : Type}

/-- The first outcome is the second, unless it was cut short by a bound. -/
def Below (o o' : Outcome α) : Prop := o = .exhausted ∨ o = o'

theorem Below.refl (o : Outcome α) : o.Below o := .inr rfl

theorem Below.eq_of_leaves {o o' : Outcome α} {ts : List Token} {n : Nat} (h : o.Below o')
    (hl : o.Leaves ts n) : o = o' :=
  h.resolve_left hl.ne_exhausted

theorem Below.antisymm {o o' : Outcome α} (h : o.Below o') (h' : o'.Below o) : o = o' := by
  rcases h with rfl | rfl
  · exact h'.elim Eq.symm Eq.symm
  · rfl

end Outcome

/-- The words `us` end the words `ts`, and at least `n` words were taken before them. -/
def Ahead (ts : List Token) (n : Nat) (us : List Token) : Prop :=
  us <:+ ts ∧ us.length + n ≤ ts.length

instance (ts : List Token) (n : Nat) (us : List Token) : Decidable (Ahead ts n us) :=
  inferInstanceAs (Decidable (_ ∧ _))

namespace Ahead

variable {ts us vs : List Token} {m n : Nat}

theorem refl (ts : List Token) : Ahead ts 0 ts := ⟨List.suffix_rfl, Nat.le_refl _⟩

theorem trans (h : Ahead ts m us) (h' : Ahead us n vs) : Ahead ts (m + n) vs :=
  ⟨h'.1.trans h.1, by have := h.2; have := h'.2; omega⟩

/-- Words that are taken later leave a place that is as late. -/
theorem after (h : Ahead ts m us) (h' : Ahead us n vs) : Ahead ts m vs :=
  ⟨h'.1.trans h.1, by have := h.2; have := h'.2; omega⟩

/-- A word that is not the end of the input is there to be taken. -/
theorem tail (h : (frontOf ts).kind ≠ .eof) : Ahead ts 1 ts.tail :=
  ⟨List.tail_suffix _, Parser.length_tail_lt h⟩

end Ahead

namespace Parser

open Outcome

variable {α β γ : Type} {endLine : Nat} {ts : List Token}

theorem bind_bind (p : Parser α) (f : α → Parser β) (g : β → Parser γ) :
    (p >>= f) >>= g = p >>= fun a => f a >>= g := by
  refine congrArg Parser.mk (funext fun endLine => funext fun ts => ?_)
  show ((p.run endLine ts).andThen _).andThen _ = (p.run endLine ts).andThen _
  cases p.run endLine ts <;> rfl

/-- Two phrases whose parts are below one another. The second of the first parts is the one that says how
far the others start. -/
theorem below_bind {p p' : Parser α} {f f' : α → Parser β} {n : Nat}
    (hp : (p.run endLine ts).Below (p'.run endLine ts) ∧ (p'.run endLine ts).Leaves ts n)
    (hf : ∀ a us, Ahead ts n us → ((f a).run endLine us).Below ((f' a).run endLine us)) :
    ((p >>= f).run endLine ts).Below ((p' >>= f').run endLine ts) := by
  rw [run_bind, run_bind]
  obtain ⟨h | h, hl⟩ := hp
  · rw [h]; exact .inl rfl
  · rw [h]
    cases ho : p'.run endLine ts with
    | done a us => rw [ho] at hl; exact hf a us hl
    | failed fault us => exact .refl _
    | exhausted => exact .refl _

theorem below_expect_bind {kind : TokenKind} (hk : kind ≠ .eof) {f f' : Token → Parser β}
    (hf : ∀ t us, Ahead ts 1 us → ((f t).run endLine us).Below ((f' t).run endLine us)) :
    ((expect kind >>= f).run endLine ts).Below ((expect kind >>= f').run endLine ts) :=
  below_bind ⟨.refl _, leaves_expect hk⟩ hf

theorem below_advance_bind (hk : (frontOf ts).kind ≠ .eof) {f f' : Token → Parser β}
    (hf : Ahead ts 1 ts.tail → ((f (frontOf ts)).run endLine ts.tail).Below
      ((f' (frontOf ts)).run endLine ts.tail)) :
    ((advance >>= f).run endLine ts).Below ((advance >>= f').run endLine ts) :=
  hf (.tail hk)

theorem below_accept?_bind {kind : TokenKind} (hk : kind ≠ .eof) {f f' : Option Token → Parser β}
    (hsome : Ahead ts 1 ts.tail → ((f (some (frontOf ts))).run endLine ts.tail).Below
      ((f' (some (frontOf ts))).run endLine ts.tail))
    (hnone : ((f none).run endLine ts).Below ((f' none).run endLine ts)) :
    ((accept? kind >>= f).run endLine ts).Below ((accept? kind >>= f').run endLine ts) := by
  rw [run_accept?_bind, run_accept?_bind]
  split
  · rename_i h
    exact hsome (.tail (by rw [h]; exact hk))
  · exact hnone

end Parser

namespace Grammar

open PL0.Parser Outcome

/-! ## The rules and their calls -/

/-- The rules that call one another or themselves, with what is handed to them and what they read. The
lists of declarations, and all rules named `more`, are loops: to go round is to call the rule again. -/
inductive Rule : Type → Type where
  | block : Rule Block
  | constantList (d : Declarations) : Rule Declarations
  | variableList (d : Declarations) : Rule Declarations
  | procedures : Rule (List Procedure)
  | statement : Rule Statement
  | moreStatements : Rule (List Statement)
  | condition : Rule Condition
  | tree : Rule Expr
  | expression (y : Yard) : Rule Yard
  | moreTerms (y : Yard) : Rule Yard
  | term (y : Yard) : Rule Yard
  | moreFactors (y : Yard) : Rule Yard
  | factor (y : Yard) : Rule Yard

namespace Rule

variable {α β : Type}

/-- How high a rule stands in the grammar. -/
def level : Rule α → Nat
  | factor _ => 0
  | moreFactors _ => 1
  | term _ => 2
  | moreTerms _ => 3
  | expression _ => 4
  | tree => 5
  | condition => 6
  | moreStatements => 7
  | statement => 8
  | procedures => 9
  | constantList _ => 9
  | variableList _ => 9
  | block => 10

/-- How many words the rule reads at least. Only the loops that start before a separator may read none. -/
def least : Rule α → Nat
  | procedures | moreStatements | moreTerms _ | moreFactors _ => 0
  | _ => 1

/-- The parser of the rule under a bound on the depth of its recursion. -/
def parser (n : Nat) : Rule α → Parser α
  | block => Grammar.block n
  | constantList d => Grammar.constantList n d
  | variableList d => Grammar.variableList n d
  | procedures => Grammar.procedures n
  | statement => Grammar.statement n
  | moreStatements => Grammar.moreStatements n
  | condition => Grammar.condition n
  | tree => Grammar.tree n
  | expression y => Grammar.expression n y
  | moreTerms y => Grammar.moreTerms n y
  | term y => Grammar.term n y
  | moreFactors y => Grammar.moreFactors n y
  | factor y => Grammar.factor n y

/-- What the rule does itself. Whatever it leaves to a rule, itself included, it asks of `call`. -/
def body (call : ∀ {β : Type}, Rule β → Parser β) : Rule α → Parser α
  | block => do
    let d ← optionalPart .constKw (fun d => call (constantList d)) .empty
    let symbols ← optionalPart .varKw (fun d => call (variableList d)) d
    let procedures ← call procedures
    let statement ← call statement
    return ⟨symbols, procedures, statement⟩
  | constantList d => do
    let name ← expect .ident
    let _ ← expect .equal
    let value ← literal
    let d := d.insert ⟨name.text, .constant value, name.line⟩
    match ← accept? .comma with
    | some _ => call (constantList d)
    | none => do
      let _ ← expect .semicolon
      return d
  | variableList d => do
    let name ← expect .ident
    let d := d.insert ⟨name.text, .variable, name.line⟩
    match ← accept? .comma with
    | some _ => call (variableList d)
    | none => do
      let _ ← expect .semicolon
      return d
  | procedures => do
    match ← accept? .procedureKw with
    | some _ => do
      let name ← expect .ident
      let _ ← expect .semicolon
      let body ← call block
      let _ ← expect .semicolon
      let others ← call procedures
      return ⟨name.text, body⟩ :: others
    | none => return []
  | statement => do
    match (← peek).kind with
    | .ident => do
      let name ← advance
      let _ ← expect .assign
      let value ← call tree
      return .assign name.text value
    | .callKw => do
      let _ ← advance
      let name ← expect .ident
      return .call name.text
    | .write => do
      let _ ← advance
      let value ← call tree
      return .write value
    | .beginKw => do
      let _ ← advance
      let first ← call statement
      let others ← call moreStatements
      let _ ← expect .endKw
      return .compound (first :: others)
    | .ifKw => do
      let _ ← advance
      let cond ← call condition
      let _ ← expect .thenKw
      let body ← call statement
      return .ifThen cond body
    | .whileKw => do
      let _ ← advance
      let cond ← call condition
      let _ ← expect .doKw
      let body ← call statement
      return .whileDo cond body
    | _ => unexpected "statement"
  | moreStatements => do
    match ← accept? .semicolon with
    | some _ => do
      let first ← call statement
      let others ← call moreStatements
      return first :: others
    | none => return []
  | condition => do
    match ← accept? .oddKw with
    | some _ => return .odd (← call tree)
    | none => do
      let left ← call tree
      match Relation.ofKind? (← peek).kind with
      | some rel => do
        let _ ← advance
        let right ← call tree
        return .compare rel left right
      | none => refuse .notARelation
  | tree => do
    let y ← call (expression .initial)
    ofExcept y.finish
  | expression y => do
    let y ← leadingSign y
    let y ← call (term y)
    call (moreTerms y)
  | moreTerms y => do
    match (← peek).kind with
    | .plus | .minus => do
      let y ← feed y (← advance)
      let y ← call (term y)
      call (moreTerms y)
    | _ => return y
  | term y => do
    let y ← call (factor y)
    call (moreFactors y)
  | moreFactors y => do
    match (← peek).kind with
    | .multiply | .divide => do
      let y ← feed y (← advance)
      let y ← call (factor y)
      call (moreFactors y)
    | _ => return y
  | factor y => do
    match (← peek).kind with
    | .ident | .number => feed y (← advance)
    | .lparen => do
      let y ← feed y (← advance)
      let y ← call (expression y)
      match ← accept? .rparen with
      | some close => feed y close
      | none => refuse .unclosedAt
    | _ => unexpected "factor"

/-- Under a bound the parser stops at once, or does what the rule does, with calls under a bound. -/
theorem parser_eq (r : Rule α) (n : Nat) :
    r.parser n = Parser.exhausted ∨ ∃ m, r.parser n = r.body fun r' => r'.parser m := by
  cases r with
  | condition | tree => exact .inr ⟨n, rfl⟩
  | block =>
    cases n with
    | zero => exact .inl rfl
    | succ n => exact .inr ⟨n, bind_bind _ _ _⟩
  | constantList d | variableList d | procedures | statement | moreStatements =>
    cases n with
    | zero => exact .inl rfl
    | succ n => exact .inr ⟨n, rfl⟩
  | expression y | moreTerms y | term y | moreFactors y | factor y =>
    cases n with
    | zero => exact .inl rfl
    | succ n => exact .inr ⟨n, rfl⟩

theorem leaves_bounded (r : Rule α) {n endLine : Nat} {ts : List Token} (h : 3 * ts.length + 4 ≤ n) :
    ((r.parser n).run endLine ts).Leaves ts r.least := by
  obtain ⟨hexpression, hmoreTerms, hterm, hmoreFactors, hfactor⟩ := leaves_expression_rules n
  cases r with
  | block => exact (leaves_block_rules n).1 endLine ts h
  | constantList d => exact leaves_constantList n d endLine ts (by omega)
  | variableList d => exact leaves_variableList n d endLine ts (by omega)
  | procedures => exact (leaves_block_rules n).2 endLine ts (by omega)
  | statement => exact (leaves_statement_rules n).1 endLine ts (by omega)
  | moreStatements => exact (leaves_statement_rules n).2 endLine ts (by omega)
  | condition => exact leaves_condition (by omega)
  | tree => exact leaves_tree (by omega)
  | expression y => exact hexpression y endLine ts (by omega)
  | moreTerms y => exact hmoreTerms y endLine ts (by omega)
  | term y => exact hterm y endLine ts (by omega)
  | moreFactors y => exact hmoreFactors y endLine ts (by omega)
  | factor y => exact hfactor y endLine ts (by omega)

/-! ## Reading without a bound -/

/-- The rule `r`, started before `ts`, may call `r'` before `us`: at a later place, or also at its own place
if `r'` stands lower. -/
def MayCall (r : Rule α) (ts : List Token) (r' : Rule β) (us : List Token) : Prop :=
  Ahead ts 1 us ∨ Ahead ts 0 us ∧ r'.level < r.level

instance (r : Rule α) (ts : List Token) (r' : Rule β) (us : List Token) :
    Decidable (r.MayCall ts r' us) :=
  inferInstanceAs (Decidable (_ ∨ _))

/-- Reads by the rule, without a bound. A call is answered where the rule may make it, and nowhere else. -/
def read {α : Type} (r : Rule α) (endLine : Nat) (ts : List Token) : Outcome α :=
  (r.body fun r' => ⟨fun endLine us =>
    if _h : r.MayCall ts r' us then r'.read endLine us else .exhausted⟩).run endLine ts
termination_by (ts.length, r.level)
decreasing_by
  obtain hus | ⟨hus, hlevel⟩ := _h
  · exact .left _ _ (by have := hus.2; omega)
  · obtain hlt | heq := Nat.lt_or_eq_of_le hus.2
    · exact .left _ _ hlt
    · rw [Nat.add_zero] at heq
      exact heq ▸ .right _ hlevel

/-- The calls under `call` are below those under `call'`, where the rule may make them before `ts`; the
latter leave what their rules leave. -/
def CallsBelow (r : Rule α) (endLine : Nat) (ts : List Token)
    (call call' : ∀ {β : Type}, Rule β → Parser β) : Prop :=
  ∀ {β : Type} (r' : Rule β) (us : List Token), r.MayCall ts r' us →
    ((call r').run endLine us).Below ((call' r').run endLine us) ∧
      ((call' r').run endLine us).Leaves us r'.least

variable {call call' : ∀ {β : Type}, Rule β → Parser β} {endLine : Nat} {ts : List Token}

theorem below_optionalPart {keyword : TokenKind} (hk : keyword ≠ .eof)
    {list list' : Declarations → Parser Declarations} {d : Declarations}
    (h : Ahead ts 1 ts.tail → ((list d).run endLine ts.tail).Below ((list' d).run endLine ts.tail) ∧
      ((list' d).run endLine ts.tail).Leaves ts.tail 1) :
    ((optionalPart keyword list d).run endLine ts).Below
        ((optionalPart keyword list' d).run endLine ts) ∧
      ((optionalPart keyword list' d).run endLine ts).Leaves ts 0 :=
  ⟨below_accept?_bind hk (fun hus => (h hus).1) (.refl _),
    leaves_optionalPart hk fun hlt => (h ⟨List.tail_suffix _, hlt⟩).2⟩

/-- **A rule makes no other calls**: what it reads depends on the answers to those it may make. -/
theorem below_body (r : Rule α) (h : r.CallsBelow endLine ts call call') :
    ((r.body call).run endLine ts).Below ((r.body call').run endLine ts) := by
  -- there are two ways to be allowed: a word was taken before the call, or the rule that is called stands lower
  have later {β : Type} (r' : Rule β) {us : List Token} (hus : Ahead ts 1 us) :=
    h r' us (.inl hus)
  have lower {β : Type} (r' : Rule β) {us : List Token} (hus : Ahead ts 0 us)
      (hlevel : r'.level < r.level) := h r' us (.inr ⟨hus, hlevel⟩)
  cases r with
  | block =>
    refine below_bind (below_optionalPart (by decide) fun hus => later (constantList _) hus)
      fun d us hus => ?_
    refine below_bind (below_optionalPart (by decide) fun hvs => later (variableList d) (hus.trans hvs))
      fun _ vs hvs => ?_
    have h2 := hus.trans hvs
    refine below_bind (lower procedures h2 (by decide)) fun _ ws hws => ?_
    exact below_bind (lower statement (h2.trans hws) (by decide)) fun _ _ _ => .refl _
  | constantList d =>
    refine below_expect_bind (by decide) fun _ us hus => ?_
    refine below_expect_bind (by decide) fun _ vs hvs => ?_
    refine below_bind ⟨.refl _, leaves_literal⟩ fun _ ws hws => ?_
    refine below_accept?_bind (by decide) (fun hxs => ?_) (.refl _)
    exact (later (constantList _) (((hus.after hvs).after hws).after hxs)).1
  | variableList d =>
    refine below_expect_bind (by decide) fun _ us hus => ?_
    refine below_accept?_bind (by decide) (fun hvs => ?_) (.refl _)
    exact (later (variableList _) (hus.after hvs)).1
  | procedures =>
    refine below_accept?_bind (by decide) (fun hus => ?_) (.refl _)
    refine below_expect_bind (by decide) fun _ _ hvs => ?_
    refine below_expect_bind (by decide) fun _ _ hws => ?_
    have h3 := (hus.after hvs).after hws
    refine below_bind (later block h3) fun _ _ hxs => ?_
    refine below_expect_bind (by decide) fun _ _ hys => ?_
    have h5 := (h3.after hxs).after hys
    exact below_bind (later procedures h5) fun _ _ _ => .refl _
  | statement =>
    simp only [body, run_peek_bind]
    split
    case h_1 hk =>
      refine below_advance_bind (by simp [hk]) fun hus => ?_
      refine below_expect_bind (by decide) fun _ _ hvs => ?_
      exact below_bind (later tree (hus.after hvs)) fun _ _ _ => .refl _
    case h_3 hk =>
      refine below_advance_bind (by simp [hk]) fun hus => ?_
      exact below_bind (later tree hus) fun _ _ _ => .refl _
    case h_4 hk =>
      refine below_advance_bind (by simp [hk]) fun hus => ?_
      refine below_bind (later statement hus) fun _ _ hvs => ?_
      exact below_bind (later moreStatements (hus.after hvs)) fun _ _ _ => .refl _
    case h_5 hk | h_6 hk =>
      refine below_advance_bind (by simp [hk]) fun hus => ?_
      refine below_bind (later condition hus) fun _ _ hvs => ?_
      refine below_expect_bind (by decide) fun _ _ hws => ?_
      exact below_bind (later statement ((hus.after hvs).after hws)) fun _ _ _ => .refl _
    case h_2 | h_7 => exact .refl _
  | moreStatements =>
    refine below_accept?_bind (by decide) (fun hus => ?_) (.refl _)
    refine below_bind (later statement hus) fun _ _ hvs => ?_
    exact below_bind (later moreStatements (hus.after hvs)) fun _ _ _ => .refl _
  | condition =>
    refine below_accept?_bind (by decide) (fun hus => ?_) ?_
    · exact below_bind (later tree hus) fun _ _ _ => .refl _
    · refine below_bind (lower tree (.refl ts) (by decide)) fun _ us hus => ?_
      simp only [run_peek_bind]
      split
      · rename_i rel hrel
        have hk : (frontOf us).kind ≠ .eof := fun hk => by simp [hk, Relation.ofKind?] at hrel
        refine below_advance_bind hk fun hvs => ?_
        exact below_bind (later tree (hus.after hvs)) fun _ _ _ => .refl _
      · exact .refl _
  | tree => exact below_bind (lower (expression .initial) (.refl ts) (by decide)) fun _ _ _ => .refl _
  | expression y =>
    refine below_bind ⟨.refl _, leaves_leadingSign y⟩ fun y us hus => ?_
    refine below_bind (lower (term y) hus (by simp [level])) fun y vs hvs => ?_
    exact (later (moreTerms y) (hus.trans hvs)).1
  | term y =>
    refine below_bind (lower (factor y) (.refl ts) (by simp [level])) fun y us hus => ?_
    exact (later (moreFactors y) hus).1
  | moreTerms y | moreFactors y =>
    simp only [body, run_peek_bind]
    split
    case h_1 hk | h_2 hk =>
      refine below_advance_bind (by simp [hk]) fun hus => ?_
      refine below_bind ⟨.refl _, leaves_feed y _⟩ fun y us hvs => ?_
      refine below_bind (later _ (hus.after hvs)) fun y vs hws => ?_
      exact (later _ ((hus.after hvs).after hws)).1
    case h_3 => exact .refl _
  | factor y =>
    simp only [body, run_peek_bind]
    split
    case h_3 hk =>
      refine below_advance_bind (by simp [hk]) fun hus => ?_
      refine below_bind ⟨.refl _, leaves_feed y _⟩ fun y us hvs => ?_
      exact below_bind (later (expression y) (hus.after hvs)) fun _ _ _ => .refl _
    case h_1 | h_2 | h_4 => exact .refl _

/-- The bounded parsers are below the reading without a bound, and it leaves what they leave. -/
theorem parser_below_read (r : Rule α) (endLine : Nat) (ts : List Token) :
    (∀ n, ((r.parser n).run endLine ts).Below (r.read endLine ts)) ∧
      (r.read endLine ts).Leaves ts r.least := by
  -- along the recursion of `read` no bound is counted: a parser that was not cut short reads what `read` does, and by
  -- the lemmas on bounds there is one that was not
  induction α, r, endLine, ts using read.induct with
  | case1 α r endLine ts ih =>
    have hbelow : ∀ n, ((r.parser n).run endLine ts).Below (r.read endLine ts) := by
      intro n
      obtain h | ⟨m, h⟩ := r.parser_eq n
      · rw [h]
        exact .inl rfl
      · rw [h, read]
        refine r.below_body fun r' us hcall => ?_
        simp only [hcall, dif_pos]
        exact ⟨(ih r' endLine us hcall).1 m, (ih r' endLine us hcall).2⟩
    have hl : ((r.parser (3 * ts.length + 4)).run endLine ts).Leaves ts r.least := r.leaves_bounded (Nat.le_refl _)
    exact ⟨hbelow, (hbelow _).eq_of_leaves hl ▸ hl⟩

theorem leaves_read (r : Rule α) (endLine : Nat) (ts : List Token) :
    (r.read endLine ts).Leaves ts r.least :=
  (r.parser_below_read endLine ts).2

theorem run_bounded (r : Rule α) (endLine : Nat) {ts : List Token} {n : Nat}
    (h : 3 * ts.length + 4 ≤ n) : (r.parser n).run endLine ts = r.read endLine ts :=
  ((r.parser_below_read endLine ts).1 n).eq_of_leaves (r.leaves_bounded h)

/-- What the rule reads if others answer its calls: it is what it reads by itself, if they answer those that
it may make in its own way. -/
theorem run_body (r : Rule α) (endLine : Nat) (ts : List Token) (call : ∀ {β : Type}, Rule β → Parser β)
    (h : ∀ {β : Type} (r' : Rule β) (us : List Token), r.MayCall ts r' us →
      (call r').run endLine us = r'.read endLine us) :
    (r.body call).run endLine ts = r.read endLine ts := by
  rw [read]
  refine Below.antisymm (r.below_body fun r' us hcall => ?_) (r.below_body fun r' us hcall => ?_)
  · simp only [hcall, dif_pos]
    exact ⟨.inr (h r' us hcall), r'.leaves_read endLine us⟩
  · simp only [hcall, dif_pos]
    exact ⟨.inr (h r' us hcall).symm, h r' us hcall ▸ r'.leaves_read endLine us⟩

/-- **Every rule ends, before any words.** It leaves a tail of them, also when it refuses, and one that is
shorter by `least` where it succeeds. The calls it makes are those that it may make: any other could be
answered in any way, by `exhausted` too, which no reading outlives. A bound of three for each word and four
more is never met. -/
theorem reading_ends (r : Rule α) (endLine : Nat) (ts : List Token) :
    (r.read endLine ts).Leaves ts r.least ∧
      (∀ call : ∀ {β : Type}, Rule β → Parser β,
        (∀ {β : Type} (r' : Rule β) (us : List Token), r.MayCall ts r' us →
          (call r').run endLine us = r'.read endLine us) →
        (r.body call).run endLine ts = r.read endLine ts) ∧
      ∀ n, 3 * ts.length + 4 ≤ n → (r.parser n).run endLine ts = r.read endLine ts :=
  ⟨r.leaves_read endLine ts, fun call h => r.run_body endLine ts call h, fun _ => r.run_bounded endLine⟩

/-- `begin !`, where the words end. -/
def truncated : List Token := [.plain .beginKw "begin" 1, .plain .write "!" 2]

/-- Every rule calls the next one, and the last of them finds nothing to read. -/
theorem reading_ends_truncated :
    (statement.parser 10).run 2 truncated = .failed (.unexpected "factor" "end of input" 2) [] ∧
      (statement.body fun r => ⟨r.read⟩).run 2 truncated = .failed (.unexpected "factor" "end of input" 2) [] := by
  have hrun : (statement.parser 10).run 2 truncated = .failed (.unexpected "factor" "end of input" 2) [] := by rfl
  obtain ⟨-, hcalls, hparser⟩ := statement.reading_ends 2 truncated
  have hread := (hparser 10 (by decide)).symm.trans hrun
  exact ⟨hrun, (hcalls (fun r => ⟨r.read⟩) fun _ _ _ => rfl).trans hread⟩

end Rule

end Grammar

end PL0
