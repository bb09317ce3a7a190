/-
Plain programs: every operator has its operands, every name is one that can be scanned and no number is
negative. A program that is read from a text is plain, because its tree holds the texts and the values of
scanned tokens. Main statement: `plain_of_readSource`.
-/
import PL0.Proofs.Reading.Program
import PL0.Proofs.Scan.Token
import PL0.Translate

namespace PL0

/-! ## Trees -/

def Expr.Plain : Expr → Prop
  | .operand (.number value) => 0 ≤ value
  | .operand (.ident name) => IsName name
  | .unary op inner => op.isUnary = true ∧ inner.Plain
  | .binary op left right => op.isUnary = false ∧ left.Plain ∧ right.Plain

theorem Expr.Plain.wellFormed {e : Expr} (h : e.Plain) : e.WellFormed := by
  induction e with
  | operand leaf => trivial
  | unary op inner ih => exact ⟨h.1, ih h.2⟩
  | binary op left right ihl ihr => exact ⟨h.1, ihl h.2.1, ihr h.2.2⟩

def Condition.Plain : Condition → Prop
  | .odd inner => inner.Plain
  | .compare _ left right => left.Plain ∧ right.Plain

mutual

def Statement.Plain : Statement → Prop
  | .compound body => Statement.AllPlain body
  | .assign name value => IsName name ∧ value.Plain
  | .call name => IsName name
  | .write value => value.Plain
  | .ifThen cond body | .whileDo cond body => cond.Plain ∧ Statement.Plain body

def Statement.AllPlain : List Statement → Prop
  | [] => True
  | s :: ss => Statement.Plain s ∧ Statement.AllPlain ss

end

def Role.Plain : Role → Prop
  | .constant value => 0 ≤ value
  | .variable => True

def Symbol.Plain (s : Symbol) : Prop := IsName s.name ∧ s.role.Plain

mutual

def Block.Plain : Block → Prop
  | ⟨symbols, procedures, statement⟩ =>
    (∀ s ∈ symbols.toList, s.Plain) ∧ Procedure.AllPlain procedures ∧ statement.Plain

def Procedure.Plain : Procedure → Prop
  | ⟨name, block⟩ => IsName name ∧ Block.Plain block

def Procedure.AllPlain : List Procedure → Prop
  | [] => True
  | p :: ps => Procedure.Plain p ∧ Procedure.AllPlain ps

end

def Program.Plain (p : Program) : Prop := p.block.Plain

/-! ## Phrases of proper words -/

namespace Phrase

/-- All words are proper. -/
def Proper (ts : List Token) : Prop := ∀ t ∈ ts, t.Proper

theorem proper_cons {t : Token} {ts : List Token} : Proper (t :: ts) ↔ t.Proper ∧ Proper ts :=
  List.forall_mem_cons

theorem proper_append {ts us : List Token} : Proper (ts ++ us) ↔ Proper ts ∧ Proper us :=
  List.forall_mem_append

theorem Word.isName {w : Word .ident} (h : w.token.Proper) : IsName w.token.text := h.isName w.kind_eq

theorem Numeral.nonneg {n : Numeral} (h : n.token.Proper) : 0 ≤ n.value := h.value_nonneg _ n.value_eq

mutual

theorem Expression.plain : ∀ (d : Expression), Proper d.words → d.tree.Plain
  | .mk none first others, h => by
    obtain ⟨hf, ho⟩ := proper_append.1 h
    exact others.plain_fold ho (first.plain hf)
  | .mk (some sign) first others, h => by
    obtain ⟨-, h⟩ := proper_cons.1 h
    obtain ⟨hf, ho⟩ := proper_append.1 h
    exact others.plain_fold ho ⟨sign.isUnary_unary, first.plain hf⟩

theorem Terms.plain_fold : ∀ (d : Terms) {left : Expr}, Proper d.words → left.Plain → (d.fold left).Plain
  | .nil, _, _, hl => hl
  | .cons sign term others, _, h, hl => by
    obtain ⟨-, h⟩ := proper_cons.1 h
    obtain ⟨ht, ho⟩ := proper_append.1 h
    exact others.plain_fold ho ⟨sign.isUnary_binary, hl, term.plain ht⟩

theorem Term.plain : ∀ (d : Term), Proper d.words → d.tree.Plain
  | .mk first others, h => by
    obtain ⟨hf, ho⟩ := proper_append.1 h
    exact others.plain_fold ho (first.plain hf)

theorem Factors.plain_fold : ∀ (d : Factors) {left : Expr}, Proper d.words → left.Plain → (d.fold left).Plain
  | .nil, _, _, hl => hl
  | .cons times factor others, _, h, hl => by
    obtain ⟨-, h⟩ := proper_cons.1 h
    obtain ⟨hf, ho⟩ := proper_append.1 h
    exact others.plain_fold ho ⟨times.isUnary_operator, hl, factor.plain hf⟩

theorem Factor.plain : ∀ (d : Factor), Proper d.words → d.tree.Plain
  | .ident _, h => Word.isName (proper_cons.1 h).1
  | .number _, h => Numeral.nonneg (proper_cons.1 h).1
  | .paren _ inner _, h => by
    obtain ⟨-, h⟩ := proper_cons.1 h
    exact inner.plain (proper_append.1 h).1

end

theorem Condition.plain (d : Condition) (h : Proper d.words) : d.tree.Plain := by
  cases d with
  | odd keyword inner => exact inner.plain (proper_cons.1 h).2
  | compare left comparator right =>
    obtain ⟨hl, h⟩ := proper_append.1 h
    exact ⟨left.plain hl, right.plain (proper_cons.1 h).2⟩

mutual

theorem Statement.plain : ∀ (d : Statement), Proper d.words → d.tree.Plain
  | .assign _ _ value, h => by
    obtain ⟨hn, h⟩ := proper_cons.1 h
    exact ⟨Word.isName hn, value.plain (proper_cons.1 h).2⟩
  | .call _ _, h => by
    obtain ⟨-, h⟩ := proper_cons.1 h
    exact Word.isName (proper_cons.1 h).1
  | .write _ value, h => value.plain (proper_cons.1 h).2
  | .compound _ first others _, h => by
    obtain ⟨-, h⟩ := proper_cons.1 h
    obtain ⟨hf, h⟩ := proper_append.1 h
    exact ⟨first.plain hf, others.plain (proper_append.1 h).1⟩
  | .ifThen _ cond _ body, h | .whileDo _ cond _ body, h => by
    obtain ⟨-, h⟩ := proper_cons.1 h
    obtain ⟨hc, h⟩ := proper_append.1 h
    exact ⟨cond.plain hc, body.plain (proper_cons.1 h).2⟩

theorem Statements.plain : ∀ (d : Statements), Proper d.words → Statement.AllPlain d.trees
  | .nil, _ => trivial
  | .cons _ first others, h => by
    obtain ⟨-, h⟩ := proper_cons.1 h
    obtain ⟨hf, ho⟩ := proper_append.1 h
    exact ⟨first.plain hf, others.plain ho⟩

end

/-! ### Declarations and blocks -/

theorem Items.proper_of_mem {α : Type} {f : α → List Token} {d : Items α} (h : Proper (d.words f)) :
    ∀ a ∈ d.toList, Proper (f a) := by
  induction d with
  | last item semicolon =>
    intro a ha
    rw [List.mem_singleton.1 ha]
    exact (proper_append.1 h).1
  | more item comma others ih =>
    obtain ⟨hi, h⟩ := proper_append.1 h
    intro a ha
    rcases List.mem_cons.1 ha with rfl | ha
    · exact hi
    · exact ih (proper_cons.1 h).2 a ha

theorem proper_of_mem_partItems {α : Type} {kind : TokenKind} {f : α → List Token}
    {d : Option (Word kind × Items α)} (h : Proper (partWords f d)) : ∀ a ∈ partItems d, Proper (f a) := by
  cases d with
  | none => intro a ha; cases ha
  | some d => exact Items.proper_of_mem (proper_cons.1 h).2

theorem Declared.plain (d : Declared) (h : Proper d.words) : ∀ s ∈ d.symbols, s.Plain := by
  obtain ⟨hc, hv⟩ := proper_append.1 h
  intro s hs
  rcases List.mem_append.1 hs with hs | hs
  · obtain ⟨c, hm, rfl⟩ := List.mem_map.1 hs
    obtain ⟨hn, h⟩ := proper_cons.1 (proper_of_mem_partItems hc c hm)
    obtain ⟨-, h⟩ := proper_cons.1 h
    exact ⟨Word.isName hn, Numeral.nonneg (proper_cons.1 h).1⟩
  · obtain ⟨w, hm, rfl⟩ := List.mem_map.1 hs
    exact ⟨Word.isName (proper_cons.1 (proper_of_mem_partItems hv w hm)).1, trivial⟩

mutual

theorem Block.plain : ∀ (d : Block), Proper d.words → d.tree.Plain
  | .mk declared procedures statement, h => by
    obtain ⟨hd, h⟩ := proper_append.1 h
    obtain ⟨hp, hs⟩ := proper_append.1 h
    refine ⟨fun s hm => declared.plain hd s ?_, procedures.plain hp, statement.plain hs⟩
    exact Declarations.mem_of_mem_settled hm

theorem Procedures.plain : ∀ (d : Procedures), Proper d.words → Procedure.AllPlain d.trees
  | .nil, _ => trivial
  | .cons _ _ _ body _ others, h => by
    obtain ⟨-, h⟩ := proper_cons.1 h
    obtain ⟨hn, h⟩ := proper_cons.1 h
    obtain ⟨-, h⟩ := proper_cons.1 h
    obtain ⟨hb, h⟩ := proper_append.1 h
    exact ⟨⟨Word.isName hn, body.plain hb⟩, others.plain (proper_cons.1 h).2⟩

end

theorem Program.plain (d : Program) (h : Proper d.words) : d.tree.Plain :=
  d.block.plain (proper_append.1 h).1

end Phrase

/-- A program that is read from a text is plain. -/
theorem plain_of_readSource {source : String} {p : Program} (h : readSource source = .ok p) : p.Plain := by
  cases hs : scan source with
  | error fault => rw [readSource, hs] at h; cases h
  | ok ts =>
    rw [readSource, hs] at h
    obtain ⟨d, hw, rfl⟩ := phrase_of_parseProgram h
    refine d.plain fun t ht => scan_proper hs t ?_
    rw [hw] at ht
    exact List.takeWhile_subset _ ht

end PL0
