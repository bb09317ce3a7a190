/-
Two texts read side by side. Two words are alike if they mean the same: they are of one kind, identifiers have one
text and numbers have one value. Nothing else of a word decides what is read, neither its line nor the spelling of a
keyword, a sign or a number. A parser run on words that are alike ends in the same way with results that are alike
(`Parser.Alike`), and every way of putting parsers together keeps that. Main statement: `parseProgram_alike`.
-/
import Mathlib
import PL0.Proofs.Lineless
import PL0.Translate

namespace PL0

/-- Two words mean the same. -/
structure Token.Alike (t u : Token) : Prop where
  kind : t.kind = u.kind
  text : t.kind = .ident → t.text = u.text
  value : t.kind = .number → t.value = u.value

instance (t u : Token) : Decidable (t.Alike u) :=
  decidable_of_iff
    (t.kind = u.kind ∧ (t.kind = .ident → t.text = u.text) ∧ (t.kind = .number → t.value = u.value))
    ⟨fun ⟨hk, ht, hv⟩ => ⟨hk, ht, hv⟩, fun ⟨hk, ht, hv⟩ => ⟨hk, ht, hv⟩⟩

/-- Two words mean the same and are of the kind. -/
def Token.AlikeAs (kind : TokenKind) (t u : Token) : Prop := t.kind = kind ∧ t.Alike u

/-- A sign read as a leading sign means the same. -/
theorem Token.Alike.toUnary? {t u : Token} (h : t.Alike u) : Option.Rel Token.Alike t.toUnary? u.toUnary? := by
  unfold Token.toUnary?
  rw [h.kind]
  cases u.kind with
  | plus | minus => exact .some ⟨rfl, nofun, nofun⟩
  | _ => exact .none

/-- Two results are related by `R`, or are faults of one cause. -/
inductive SameEnd {α β : Type} (R : α → β → Prop) : Except Fault α → Except Fault β → Prop where
  | ok {a b} (value : R a b) : SameEnd R (.ok a) (.ok b)
  | error {fault fault'} (kind : fault.kind = fault'.kind) : SameEnd R (.error fault) (.error fault')

/-! ## Parsers -/

/-- Two outcomes are of one shape: related values with words ahead that are alike, or faults of one cause. -/
inductive Outcome.Alike {α β : Type} (R : α → β → Prop) : Outcome α → Outcome β → Prop where
  | done {a b ts us} (value : R a b) (ahead : List.Forall₂ Token.Alike ts us) : Alike R (.done a ts) (.done b us)
  | failed {fault fault' ts us} (kind : fault.kind = fault'.kind) :
    Alike R (.failed fault ts) (.failed fault' us)
  | exhausted : Alike R .exhausted .exhausted

namespace Parser

variable {α β γ δ : Type} {R : α → β → Prop} {S : γ → δ → Prop}

/-- On words that are alike the two parsers end alike, whatever line stands for the end of the words. -/
def Alike (R : α → β → Prop) (p : Parser α) (q : Parser β) : Prop :=
  ∀ ts us : List Token, List.Forall₂ Token.Alike ts us → ∀ endLine endLine',
    Outcome.Alike R (p.run endLine ts) (q.run endLine' us)

theorem frontOf_alike {ts us : List Token} (h : List.Forall₂ Token.Alike ts us) : (frontOf ts).Alike (frontOf us) := by
  cases h with
  | nil => exact ⟨rfl, fun _ => rfl, fun _ => rfl⟩
  | cons ht _ => exact ht

theorem tail_alike {ts us : List Token} (h : List.Forall₂ Token.Alike ts us) :
    List.Forall₂ Token.Alike ts.tail us.tail := by
  cases h with
  | nil => exact .nil
  | cons _ h => exact h

theorem alike_pure {a : α} {b : β} (h : R a b) : Alike R (pure a) (pure b) :=
  fun _ _ hts _ _ => .done h hts

theorem alike_fail {fault fault' : Fault} (h : fault.kind = fault'.kind) : Alike R (fail fault) (fail fault') :=
  fun _ _ _ _ _ => .failed h

theorem alike_exhausted : Alike R (exhausted : Parser α) exhausted := fun _ _ _ _ _ => .exhausted

theorem alike_ofExcept {r : Except Fault α} {r' : Except Fault β} (h : SameEnd R r r') :
    Alike R (ofExcept r) (ofExcept r') := by
  cases h with
  | ok h => exact alike_pure h
  | error h => exact alike_fail h

theorem alike_peek : Alike Token.Alike peek peek := fun _ _ h _ _ => .done (frontOf_alike h) h

theorem alike_advance : Alike Token.Alike advance advance :=
  fun _ _ h _ _ => .done (frontOf_alike h) (tail_alike h)

theorem alike_accept? (kind : TokenKind) :
    Alike (Option.Rel (Token.AlikeAs kind)) (accept? kind) (accept? kind) := by
  intro ts us h endLine endLine'
  have hf := frontOf_alike h
  by_cases hk : (frontOf ts).kind = kind
  · have hk' : (frontOf us).kind = kind := hf.kind ▸ hk
    simp only [accept?, if_pos hk, if_pos hk']
    exact .done (.some ⟨hk, hf⟩) (tail_alike h)
  · have hk' : (frontOf us).kind ≠ kind := hf.kind ▸ hk
    simp only [accept?, if_neg hk, if_neg hk']
    exact .done .none h

/-- A reason is of one cause, whatever word it quotes and whatever line it names. -/
theorem alike_refuse {reason : String → Nat → Fault} (h : ∀ found line found' line',
    (reason found line).kind = (reason found' line').kind) : Alike R (refuse reason : Parser α) (refuse reason) :=
  fun _ _ _ _ _ => .failed (h _ _ _ _)

theorem alike_unexpected (expected : String) : Alike R (unexpected expected : Parser α) (unexpected expected) :=
  alike_refuse fun _ _ _ _ => rfl

/-- One parser after another. -/
theorem alike_bind {p : Parser α} {q : Parser β} {f : α → Parser γ} {g : β → Parser δ} (hp : Alike R p q)
    (hf : ∀ a b, R a b → Alike S (f a) (g b)) : Alike S (p >>= f) (q >>= g) := by
  intro ts us h endLine endLine'
  rw [run_bind, run_bind]
  have hpq := hp ts us h endLine endLine'
  generalize p.run endLine ts = o, q.run endLine' us = o' at hpq
  cases hpq with
  | done value ahead => exact hf _ _ value _ _ ahead endLine endLine'
  | failed kind => exact .failed kind
  | exhausted => exact .exhausted

theorem alike_expect (kind : TokenKind) : Alike (Token.AlikeAs kind) (expect kind) (expect kind) := by
  refine alike_bind (alike_accept? kind) fun found found' h => ?_
  cases h with
  | some h => exact alike_pure h
  | none => exact alike_unexpected _

end Parser

/-! ## Yards -/

namespace Yard

variable {y z : Yard} {t u : Token}

/-- The yards differ in their lines at most. -/
def Alike (y z : Yard) : Prop := ∃ line, z = { y with line }

theorem Alike.refl (y : Yard) : y.Alike y := ⟨y.line, rfl⟩

theorem emit_alike (h : y.Alike z) (leaf : Operand) : (y.emit leaf).Alike (z.emit leaf) := by
  obtain ⟨line, rfl⟩ := h
  exact ⟨line, rfl⟩

theorem pushOperator_alike (h : y.Alike z) (op : Operator) : (y.pushOperator op).Alike (z.pushOperator op) := by
  obtain ⟨line, rfl⟩ := h
  refine ⟨line, ?_⟩
  unfold pushOperator
  split <;> rfl

theorem closeParen_alike (h : y.Alike z) :
    SameEnd Eq y.closeParen.1 z.closeParen.1 ∧ y.closeParen.2.Alike z.closeParen.2 := by
  obtain ⟨line, rfl⟩ := h
  unfold closeParen
  rcases unwind y.output y.stack with ⟨output, _ | stack⟩
  · exact ⟨.error rfl, line, rfl⟩
  · exact ⟨.ok rfl, line, rfl⟩

theorem complete_alike (h : y.Alike z) :
    SameEnd Eq y.complete.1 z.complete.1 ∧ y.complete.2.Alike z.complete.2 := by
  obtain ⟨line, rfl⟩ := h
  unfold complete
  rcases unwind y.output y.stack with ⟨output, _ | stack⟩
  · exact ⟨.ok rfl, line, rfl⟩
  · exact ⟨.error rfl, line, rfl⟩

theorem tree_alike (h : y.Alike z) : SameEnd Eq y.tree z.tree := by
  obtain ⟨line, rfl⟩ := h
  unfold tree
  split
  · show SameEnd Eq ((RpnItem.tree? y.rpn).mapError _) ((RpnItem.tree? y.rpn).mapError _)
    cases RpnItem.tree? y.rpn with
    | ok e => exact .ok rfl
    | error fault => exact .error (by rw [kind_treeFault, kind_treeFault])
  · exact .error rfl

theorem finish_alike (h : y.Alike z) : SameEnd Eq y.finish z.finish := by
  obtain ⟨hend, hyard⟩ := complete_alike h
  unfold finish
  generalize y.complete = c, z.complete = c' at hend hyard
  obtain ⟨r, y'⟩ := c
  obtain ⟨r', z'⟩ := c'
  cases hend with
  | ok _ => exact tree_alike hyard
  | error kind => exact .error kind

/-- A word does the same to both yards. -/
theorem process_alike (h : y.Alike z) (ht : t.Alike u) :
    SameEnd Eq (y.process t).1 (z.process u).1 ∧ (y.process t).2.Alike (z.process u).2 := by
  have hl : ({ y with line := t.line } : Yard).Alike { z with line := u.line } := by
    obtain ⟨line, rfl⟩ := h
    exact ⟨u.line, rfl⟩
  cases hop : Operator.ofKind? t.kind with
  | some op =>
    rw [process_operator hop, process_operator (ht.kind ▸ hop)]
    exact ⟨.ok rfl, pushOperator_alike hl op⟩
  | none =>
    unfold process
    rw [← ht.kind]
    cases hk : t.kind with
    | ident => exact ⟨.ok rfl, ht.text hk ▸ emit_alike hl _⟩
    | number =>
      rw [← ht.value hk]
      cases t.value with
      | some value => exact ⟨.ok rfl, emit_alike hl _⟩
      | none => exact ⟨.error rfl, hl⟩
    | lparen =>
      obtain ⟨line, hz⟩ := hl
      exact ⟨.ok rfl, line, congrArg (fun y : Yard => { y with stack := .paren :: y.stack }) hz⟩
    | rparen => exact closeParen_alike hl
    | unaryPlus | unaryMinus | plus | minus | multiply | divide => rw [hk] at hop; cases hop
    | _ => exact ⟨.error rfl, hl⟩

end Yard

namespace Grammar

open PL0.Parser

variable {y z : Yard}

/-! ## Expressions -/

theorem alike_feed {t u : Token} (h : y.Alike z) (ht : t.Alike u) : Alike Yard.Alike (feed y t) (feed z u) := by
  obtain ⟨hend, hyard⟩ := Yard.process_alike h ht
  unfold feed
  generalize y.process t = c, z.process u = c' at hend hyard
  obtain ⟨r, y'⟩ := c
  obtain ⟨r', z'⟩ := c'
  cases hend with
  | ok _ => exact alike_pure hyard
  | error kind => exact alike_fail kind

theorem alike_leadingSign (h : y.Alike z) : Alike Yard.Alike (leadingSign y) (leadingSign z) := by
  refine alike_bind alike_peek fun t u ht => ?_
  have hs := ht.toUnary?
  generalize t.toUnary? = s, u.toUnary? = s' at hs
  cases hs with
  | some hs => exact alike_bind alike_advance fun _ _ _ => alike_feed h hs
  | none => exact alike_pure h

/-- **The rules of an expression** see of a word only what it means. -/
theorem alike_expression_rules (n : Nat) :
    (∀ y z, y.Alike z → Alike Yard.Alike (expression n y) (expression n z)) ∧
    (∀ y z, y.Alike z → Alike Yard.Alike (moreTerms n y) (moreTerms n z)) ∧
    (∀ y z, y.Alike z → Alike Yard.Alike (term n y) (term n z)) ∧
    (∀ y z, y.Alike z → Alike Yard.Alike (moreFactors n y) (moreFactors n z)) ∧
    (∀ y z, y.Alike z → Alike Yard.Alike (factor n y) (factor n z)) := by
  induction n with
  | zero => refine ⟨?_, ?_, ?_, ?_, ?_⟩ <;> intro y z _ <;> exact alike_exhausted
  | succ n ih =>
    obtain ⟨ihe, ihmt, iht, ihmf, ihf⟩ := ih
    refine ⟨fun y z h => ?_, fun y z h => ?_, fun y z h => ?_, fun y z h => ?_, fun y z h => ?_⟩
    · exact alike_bind (alike_leadingSign h) fun y z h => alike_bind (iht y z h) ihmt
    · refine alike_bind alike_peek fun t u ht => ?_
      rw [ht.kind]
      cases u.kind with
      | plus | minus =>
        exact alike_bind alike_advance fun _ _ ht => alike_bind (alike_feed h ht) fun y z h =>
          alike_bind (iht y z h) ihmt
      | _ => exact alike_pure h
    · exact alike_bind (ihf y z h) ihmf
    · refine alike_bind alike_peek fun t u ht => ?_
      rw [ht.kind]
      cases u.kind with
      | multiply | divide =>
        exact alike_bind alike_advance fun _ _ ht => alike_bind (alike_feed h ht) fun y z h =>
          alike_bind (ihf y z h) ihmf
      | _ => exact alike_pure h
    · refine alike_bind alike_peek fun t u ht => ?_
      rw [ht.kind]
      cases u.kind with
      | ident | number => exact alike_bind alike_advance fun _ _ ht => alike_feed h ht
      | lparen =>
        refine alike_bind alike_advance fun _ _ ht => alike_bind (alike_feed h ht) fun y z h =>
          alike_bind (ihe y z h) fun y z h => alike_bind (alike_accept? .rparen) fun found found' hc => ?_
        cases hc with
        | some hc => exact alike_feed h hc.2
        | none => exact alike_refuse fun _ _ _ _ => rfl
      | _ => exact alike_unexpected _

theorem alike_tree (n : Nat) : Alike Eq (tree n) (tree n) :=
  alike_bind ((alike_expression_rules n).1 _ _ (.refl _)) fun _ _ h => alike_ofExcept (Yard.finish_alike h)

/-! ## Conditions and statements -/

theorem alike_condition (n : Nat) : Alike Eq (condition n) (condition n) := by
  refine alike_bind (alike_accept? .oddKw) fun found found' h => ?_
  cases h with
  | some _ => exact alike_bind (alike_tree n) fun _ _ he => alike_pure (congrArg Condition.odd he)
  | none =>
    refine alike_bind (alike_tree n) fun left left' hl => alike_bind alike_peek fun t u ht => ?_
    rw [ht.kind]
    cases Relation.ofKind? u.kind with
    | some rel =>
      exact alike_bind alike_advance fun _ _ _ => alike_bind (alike_tree n) fun _ _ hr =>
        alike_pure (congr (congrArg (Condition.compare rel) hl) hr)
    | none => exact alike_refuse fun _ _ _ _ => rfl

/-- **The rules of a statement** see of a word only what it means. -/
theorem alike_statement_rules (n : Nat) :
    Alike Eq (statement n) (statement n) ∧ Alike Eq (moreStatements n) (moreStatements n) := by
  induction n with
  | zero => exact ⟨alike_exhausted, alike_exhausted⟩
  | succ n ih =>
    obtain ⟨ihs, ihms⟩ := ih
    constructor
    · intro ts us h endLine endLine'
      rw [statement, run_peek_bind, run_peek_bind]
      have hf := frontOf_alike h
      rw [hf.kind]
      cases hk : (frontOf us).kind with
      | ident =>
        -- the name is the word that was looked at, so that its kind is known
        have ht : (frontOf ts).text = (frontOf us).text := hf.text (hf.kind.trans hk)
        rw [run_advance_bind, run_advance_bind]
        refine alike_bind (alike_expect .assign) (fun _ _ _ => alike_bind (alike_tree n) fun _ _ he =>
          alike_pure ?_) _ _ (tail_alike h) endLine endLine'
        rw [ht, he]
      | callKw =>
        exact alike_bind alike_advance (fun _ _ _ => alike_bind (alike_expect .ident) fun _ _ hn =>
          alike_pure (congrArg Statement.call (hn.2.text hn.1))) _ _ h endLine endLine'
      | write =>
        exact alike_bind alike_advance (fun _ _ _ => alike_bind (alike_tree n) fun _ _ he =>
          alike_pure (congrArg Statement.write he)) _ _ h endLine endLine'
      | beginKw =>
        exact alike_bind alike_advance (fun _ _ _ => alike_bind ihs fun _ _ hs => alike_bind ihms fun _ _ hss =>
          alike_bind (alike_expect .endKw) fun _ _ _ =>
            alike_pure (congrArg Statement.compound (congr (congrArg List.cons hs) hss))) _ _ h endLine endLine'
      | ifKw =>
        exact alike_bind alike_advance (fun _ _ _ => alike_bind (alike_condition n) fun _ _ hc =>
          alike_bind (alike_expect .thenKw) fun _ _ _ => alike_bind ihs fun _ _ hb =>
            alike_pure (congr (congrArg Statement.ifThen hc) hb)) _ _ h endLine endLine'
      | whileKw =>
        exact alike_bind alike_advance (fun _ _ _ => alike_bind (alike_condition n) fun _ _ hc =>
          alike_bind (alike_expect .doKw) fun _ _ _ => alike_bind ihs fun _ _ hb =>
            alike_pure (congr (congrArg Statement.whileDo hc) hb)) _ _ h endLine endLine'
      | _ => exact alike_unexpected _ _ _ h endLine endLine'
    · refine alike_bind (alike_accept? .semicolon) fun found found' h => ?_
      cases h with
      | some _ =>
        exact alike_bind ihs fun _ _ hs => alike_bind ihms fun _ _ hss =>
          alike_pure (congr (congrArg List.cons hs) hss)
      | none => exact alike_pure rfl

/-! ## Blocks -/

/-- Declarations that differ in their lines at most. -/
def SameDeclarations (d d' : Declarations) : Prop := d.eraseLines = d'.eraseLines

theorem sameDeclarations_insert {d d' : Declarations} (hd : SameDeclarations d d') {t u : Token}
    (h : t.AlikeAs .ident u) (role : Role) :
    SameDeclarations (d.insert ⟨t.text, role, t.line⟩) (d'.insert ⟨u.text, role, u.line⟩) := by
  have hs : (⟨t.text, role, t.line⟩ : Symbol).eraseLine = (⟨u.text, role, u.line⟩ : Symbol).eraseLine := by
    rw [h.2.text h.1]
    rfl
  unfold SameDeclarations at hd ⊢
  rw [Declarations.eraseLines_insert, Declarations.eraseLines_insert, hd, hs]

theorem alike_literal : Alike Eq literal literal := by
  refine alike_bind (alike_expect .number) fun t u h => ?_
  rw [h.2.value h.1]
  cases u.value with
  | some value => exact alike_pure rfl
  | none => exact alike_fail rfl

theorem alike_constantList (n : Nat) : ∀ d d', SameDeclarations d d' →
    Alike SameDeclarations (constantList n d) (constantList n d') := by
  induction n with
  | zero => exact fun _ _ _ => alike_exhausted
  | succ n ih =>
    intro d d' hd
    refine alike_bind (alike_expect .ident) fun name name' hn => alike_bind (alike_expect .equal) fun _ _ _ =>
      alike_bind alike_literal fun value value' hv => ?_
    subst hv
    have hd := sameDeclarations_insert hd hn (.constant value)
    refine alike_bind (alike_accept? .comma) fun found found' h => ?_
    cases h with
    | some _ => exact ih _ _ hd
    | none => exact alike_bind (alike_expect .semicolon) fun _ _ _ => alike_pure hd

theorem alike_variableList (n : Nat) : ∀ d d', SameDeclarations d d' →
    Alike SameDeclarations (variableList n d) (variableList n d') := by
  induction n with
  | zero => exact fun _ _ _ => alike_exhausted
  | succ n ih =>
    intro d d' hd
    refine alike_bind (alike_expect .ident) fun name name' hn => ?_
    have hd := sameDeclarations_insert hd hn .variable
    refine alike_bind (alike_accept? .comma) fun found found' h => ?_
    cases h with
    | some _ => exact ih _ _ hd
    | none => exact alike_bind (alike_expect .semicolon) fun _ _ _ => alike_pure hd

theorem alike_optionalPart (keyword : TokenKind) {list : Declarations → Parser Declarations}
    (h : ∀ d d', SameDeclarations d d' → Alike SameDeclarations (list d) (list d')) {d d' : Declarations}
    (hd : SameDeclarations d d') :
    Alike SameDeclarations (optionalPart keyword list d) (optionalPart keyword list d') := by
  refine alike_bind (alike_accept? keyword) fun found found' hf => ?_
  cases hf with
  | some _ => exact h d d' hd
  | none => exact alike_pure hd

theorem alike_declarations (n : Nat) : Alike SameDeclarations (declarations n) (declarations n) :=
  alike_bind (alike_optionalPart .constKw (alike_constantList n) rfl) fun _ _ hd =>
    alike_optionalPart .varKw (alike_variableList n) hd

/-- **The rules of a block** see of a word only what it means. -/
theorem alike_block_rules (n : Nat) :
    Alike (fun b b' : Block => b.eraseLines = b'.eraseLines) (block n) (block n) ∧
    Alike (fun ps ps' : List Procedure => Procedure.eraseAllLines ps = Procedure.eraseAllLines ps')
      (procedures n) (procedures n) := by
  induction n with
  | zero => exact ⟨alike_exhausted, alike_exhausted⟩
  | succ n ih =>
    obtain ⟨ihb, ihp⟩ := ih
    constructor
    · refine alike_bind (alike_declarations n) fun d d' hd => alike_bind ihp fun ps ps' hp =>
        alike_bind (alike_statement_rules n).1 fun s s' hs => alike_pure ?_
      unfold SameDeclarations at hd
      rw [Block.eraseLines, Block.eraseLines, hd, hp, hs]
    · refine alike_bind (alike_accept? .procedureKw) fun found found' hf => ?_
      cases hf with
      | some _ =>
        refine alike_bind (alike_expect .ident) fun name name' hn => alike_bind (alike_expect .semicolon) fun _ _ _ =>
          alike_bind ihb fun b b' hb => alike_bind (alike_expect .semicolon) fun _ _ _ =>
            alike_bind ihp fun ps ps' hp => alike_pure ?_
        rw [Procedure.eraseAllLines, Procedure.eraseAllLines, Procedure.eraseLines, Procedure.eraseLines, hb, hp,
          hn.2.text hn.1]
      | none => exact alike_pure rfl

theorem alike_program (n : Nat) :
    Alike (fun p p' : Program => p.eraseLines = p'.eraseLines) (program n) (program n) := by
  refine alike_bind (alike_block_rules n).1 fun b b' hb => alike_bind (alike_expect .dot) fun _ _ _ =>
    alike_bind (alike_expect .eof) fun _ _ _ => alike_pure ?_
  rw [Program.eraseLines, Program.eraseLines, hb]

end Grammar

/-! ## Whole programs -/

theorem Outcome.Alike.settle {α β : Type} {R : α → β → Prop} {o : Outcome α} {o' : Outcome β} (h : Outcome.Alike R o o')
    (ho : o ≠ .exhausted) (ho' : o' ≠ .exhausted) : SameEnd R (o.settle ho).1 (o'.settle ho').1 := by
  cases h with
  | done value _ => exact .ok value
  | failed kind => exact .error kind
  | exhausted => exact absurd rfl ho

/-- Words that are alike are as many, so that one bound serves to read both. -/
theorem bound_ofTokens_eq {ts us : List Token} (h : List.Forall₂ Token.Alike ts us) :
    (Cursor.ofTokens ts).bound = (Cursor.ofTokens us).bound := by
  have hl : ts.length = us.length := h.length_eq
  simp only [Cursor.bound, Cursor.ofTokens, hl]

theorem Cursor.settle_program {c : Cursor} {n : Nat} (hn : n = c.bound)
    (h : (Grammar.program n).run c.endLine c.ahead ≠ .exhausted) :
    (Outcome.settle _ h).1 = c.readProgram.1 := by
  subst hn
  rfl

theorem sameEnd_parseProgram {ts us : List Token} (h : List.Forall₂ Token.Alike ts us) :
    SameEnd (fun p p' : Program => p.eraseLines = p'.eraseLines) (parseProgram ts) (parseProgram us) := by
  have hn := bound_ofTokens_eq h
  have ho := Grammar.alike_program (Cursor.ofTokens ts).bound (Cursor.ofTokens ts).ahead
    (Cursor.ofTokens us).ahead h (Cursor.ofTokens ts).endLine (Cursor.ofTokens us).endLine
  have hne := (Cursor.ofTokens us).program_ne_exhausted
  rw [← hn] at hne
  have hs := ho.settle (Cursor.ofTokens ts).program_ne_exhausted hne
  rwa [Cursor.settle_program hn hne] at hs

/-- **Programs mean what their words mean.** Of two texts whose words are alike, either both are read, to programs
that differ in the lines of their symbols at most and are written alike, outlined alike and counted alike; or both
are refused for the same cause. -/
theorem parseProgram_alike {ts us : List Token} (h : List.Forall₂ Token.Alike ts us) :
    (∃ p p', parseProgram ts = .ok p ∧ parseProgram us = .ok p' ∧ p.eraseLines = p'.eraseLines ∧
      (∀ config, JavaScript.emit config p = JavaScript.emit config p') ∧ p.outline = p'.outline ∧
      p.nodeCount = p'.nodeCount) ∨
    ∃ fault fault', parseProgram ts = .error fault ∧ parseProgram us = .error fault' ∧ fault.kind = fault'.kind := by
  have hend := sameEnd_parseProgram h
  generalize parseProgram ts = r, parseProgram us = r' at hend ⊢
  cases hend with
  | @ok p p' hp =>
    refine .inl ⟨p, p', rfl, rfl, hp, fun config => ?_, ?_, ?_⟩
    · rw [← p.emit_eraseLines, hp, p'.emit_eraseLines]
    · rw [← p.outline_eraseLines, hp, p'.outline_eraseLines]
    · rw [← p.nodeCount_eraseLines, hp, p'.nodeCount_eraseLines]
  | @error fault fault' hk => exact .inr ⟨fault, fault', rfl, rfl, hk⟩

/-- `VAR x; IF x <> 07 THEN ! x.` on one line. -/
def shouted : List Token :=
  [.plain .varKw "VAR" 1, .plain .ident "x" 1, .plain .semicolon ";" 1, .plain .ifKw "IF" 1, .plain .ident "x" 1,
    .plain .hash "<>" 1, ⟨.number, "07", some 7, 1⟩, .plain .thenKw "THEN" 1, .plain .write "!" 1,
    .plain .ident "x" 1, .plain .dot "." 1, .eof 1]

/-- `var x;` and `if x # 7 then ! x.` on the line after it. -/
def spoken : List Token :=
  [.plain .varKw "var" 1, .plain .ident "x" 1, .plain .semicolon ";" 1, .plain .ifKw "if" 2, .plain .ident "x" 2,
    .plain .hash "#" 2, ⟨.number, "7", some 7, 2⟩, .plain .thenKw "then" 2, .plain .write "!" 2,
    .plain .ident "x" 2, .plain .dot "." 2, .eof 2]

/-- One program in two spellings. -/
theorem parseProgram_alike_spellings :
    List.Forall₂ Token.Alike shouted spoken ∧
      ∃ p p', parseProgram shouted = .ok p ∧ parseProgram spoken = .ok p' ∧ p.eraseLines = p'.eraseLines ∧
        (∀ config, JavaScript.emit config p = JavaScript.emit config p') ∧ p.outline = p'.outline ∧
        p.nodeCount = p'.nodeCount := by
  have h : List.Forall₂ Token.Alike shouted spoken := by decide
  refine ⟨h, ?_⟩
  obtain hread | ⟨fault, fault', hrefused, -⟩ := parseProgram_alike h
  · exact hread
  · have hread : (parseProgram shouted).isOk = true := by cbv
    rw [hrefused] at hread
    cases hread

end PL0
