/-
Brackets in the text of a row. Parentheses and braces are nested where each is closed by one of its own kind before any
that was opened earlier. A row that opens no brace holds nested parentheses alone; one that opens a brace ends with it,
and is nested together with what stands inside and with the row that closes it. Main statements: `Row.nested_chars` and
`Row.encloses_of_opens`.
-/
import PL0.Proofs.JavaScript.Braces
import PL0.Proofs.JavaScript.RowText

namespace PL0

namespace JavaScript

/-- An opening bracket and the one that closes it. -/
structure Bracket where
  opening : Char
  closing : Char

namespace Bracket

def round : Bracket := ⟨'(', ')'⟩

def curly : Bracket := ⟨'{', '}'⟩

/-- Parentheses and braces. -/
def all : List Bracket := [round, curly]

end Bracket

def isBracket (c : Char) : Bool := ['(', ')', '{', '}'].contains c

/-- Brackets of some kinds that are closed by their own kind and in their turn, and no others. -/
inductive Nested (kinds : List Bracket) : List Char → Prop
  | nil : Nested kinds []
  | cons {c : Char} {cs : List Char} (hc : isBracket c = false) (rest : Nested kinds cs) : Nested kinds (c :: cs)
  | pair {b : Bracket} {inner cs : List Char} (hb : b ∈ kinds) (inside : Nested kinds inner) (rest : Nested kinds cs) :
      Nested kinds (b.opening :: (inner ++ b.closing :: cs))

section

variable {kinds kinds' : List Bracket} {cs ds : List Char}

namespace Nested

theorem append (h : Nested kinds cs) (h' : Nested kinds ds) : Nested kinds (cs ++ ds) := by
  induction h with
  | nil => exact h'
  | cons hc _ ih => exact .cons hc ih
  | pair hb inside _ _ ih =>
    rw [List.cons_append, List.append_assoc]
    exact .pair hb inside ih

theorem of_forall (h : ∀ c ∈ cs, isBracket c = false) : Nested kinds cs := by
  induction cs with
  | nil => exact .nil
  | cons c cs ih =>
    obtain ⟨hc, hcs⟩ := List.forall_mem_cons.1 h
    exact .cons hc (ih hcs)

theorem of_all (h : cs.all (fun c => !isBracket c) = true) : Nested kinds cs :=
  .of_forall fun c hc => by simpa using List.all_eq_true.1 h c hc

theorem mono (h : Nested kinds cs) (hk : ∀ b ∈ kinds, b ∈ kinds') : Nested kinds' cs := by
  induction h with
  | nil => exact .nil
  | cons hc _ ih => exact .cons hc ih
  | pair hb _ _ ihi ihr => exact .pair (hk _ hb) ihi ihr

theorem parens (h : Nested [.round] cs) : Nested [.round] ('(' :: (cs ++ [')'])) := .pair (b := .round) (by simp) h .nil

theorem all (h : Nested [.round] cs) : Nested Bracket.all cs := h.mono (by simp [Bracket.all])

/-- Among nested parentheses there is no brace. -/
theorem ne_brace (h : Nested [.round] cs) : ∀ c ∈ cs, c ≠ '{' ∧ c ≠ '}' := by
  induction h with
  | nil => simp
  | cons hc _ ih =>
    refine List.forall_mem_cons.2 ⟨⟨?_, ?_⟩, ih⟩ <;>
    · rintro rfl
      cases hc
  | pair hb _ _ ihi ihr =>
    obtain rfl := List.mem_singleton.1 hb
    exact List.forall_mem_cons.2 ⟨by decide, List.forall_mem_append.2 ⟨ihi, List.forall_mem_cons.2 ⟨by decide, ihr⟩⟩⟩

end Nested

theorem isBracket_of_isNamePart {c : Char} (h : isNamePart c = true) : isBracket c = false := by
  have hall : (['(', ')', '{', '}'].all fun d => !isNamePart d) = true := by decide
  rw [isBracket, ← Bool.not_eq_true, List.contains_iff_mem]
  intro hm
  simpa [h] using List.all_eq_true.1 hall c hm

theorem nested_word (h : ∀ c ∈ cs, isNamePart c = true) : Nested kinds cs :=
  .of_forall fun c hc => isBracket_of_isNamePart (h c hc)

end

end JavaScript

open JavaScript

/-! ## Expressions and conditions -/

section

variable (config : Config)

theorem Operator.nested_symbol (op : Operator) : Nested [.round] op.symbol.toList :=
  .of_all (by cases op <;> decide)

theorem Relation.nested_relation (rel : Relation) : Nested [.round] (relation rel).toList :=
  .of_all (by cases rel <;> decide)

theorem Expr.nested_chars {e : Expr} (h : e.Plain) : Nested [.round] (e.chars config) := by
  induction e with
  | operand leaf =>
    cases leaf with
    | number v =>
      rw [chars_operand_number, literal_of_nonneg h]
      exact nested_word (isNamePart_toString h)
    | ident name =>
      rw [chars_operand_ident]
      exact nested_word (isNamePart_rename h)
  | unary op inner ih =>
    rw [chars_unary h.1 h.2.wellFormed, ← List.append_assoc]
    exact (op.nested_symbol.append (ih h.2)).parens
  | binary op left right ihl ihr =>
    have hwhole : Nested [.round] ('(' :: (left.chars config ++ (op.symbol.toList ++ right.chars config) ++ [')'])) :=
      ((ihl h.2.1).append (op.nested_symbol.append (ihr h.2.2))).parens
    by_cases ht : config.truncateDivision ∧ op = .divide
    · obtain ⟨ht, rfl⟩ := ht
      have hcall : Nested [.round] "Math.trunc".toList := .of_all (by decide)
      rw [chars_truncated h.2.1.wellFormed h.2.2.wellFormed ht]
      simpa [Operator.symbol] using hcall.append hwhole.parens
    · rw [chars_binary h.1 h.2.1.wellFormed h.2.2.wellFormed ht]
      simpa using hwhole

theorem Condition.nested_chars {c : Condition} (h : c.Plain) : Nested [.round] (c.chars config) := by
  cases c with
  | odd inner =>
    have hrest : Nested [.round] " % 2".toList := .of_all (by decide)
    have hodd : Nested [.round] " === 1".toList := .of_all (by decide)
    rw [chars_odd h.wellFormed]
    simpa using (((inner.nested_chars config h).append hrest).parens.append hodd).parens
  | compare rel left right =>
    have hblank : Nested [.round] [' '] := .of_all (by decide)
    have hwhole := ((left.nested_chars config h.1).append
      (hblank.append (rel.nested_relation.append (hblank.append (right.nested_chars config h.2))))).parens
    rw [chars_compare h.1.wellFormed h.2.wellFormed]
    simpa using hwhole

end

/-! ## Rows -/

namespace Row

/-- The row that closes the brace that a row opens. -/
def closer : Row → Row
  | prologue => .epilogue
  | _ => .closing

variable {config : Config} {row : Row}

/-- A row that neither opens nor closes a brace. -/
theorem nested_chars (hp : config.printFunction = Config.standard.printFunction) (h : row.Plain)
    (flat : ∀ n, row.nestingAfter n = n) : Nested [.round] (row.chars config) := by
  have hsemi : Nested [.round] [';'] := .of_all (by decide)
  have hequals : Nested [.round] " = ".toList := .of_all (by decide)
  have hblank : Nested [.round] [' '] := .of_all (by decide)
  have hlead : Nested [.round] row.lead.chars := nested_word (Lead.isNamePart_chars (plain_lead h))
  rw [chars_eq hp h]
  refine hlead.append ?_
  cases row with
  | prologue | epilogue | opening | closing | function name => exact absurd (flat 1) (by simp [nestingAfter])
  | declare name role =>
    cases role with
    | constant value =>
      simpa [tail] using hblank.append ((nested_word (isNamePart_rename h.1)).append
        (hequals.append ((nested_word (isNamePart_toString h.2)).append hsemi)))
    | «variable» => simpa [tail] using hblank.append ((nested_word (isNamePart_rename h.1)).append hsemi)
  | assign name value => simpa [tail] using hequals.append ((value.nested_chars config h.2).append hsemi)
  | call name => simpa [tail] using Nested.nil.parens.append hsemi
  | write value =>
    have hlog : Nested [.round] ".log".toList := .of_all (by decide)
    simpa [tail] using hlog.append ((value.nested_chars config h).parens.append hsemi)
  | ifThen cond braced | whileDo cond braced =>
    cases braced with
    | true => exact absurd (flat 1) (by simp [nestingAfter])
    | false => simpa [tail, brace, Fragment.text] using hblank.append (cond.nested_chars config h).parens

/-- What a row that opens a brace and the row that closes it hold beside the brace. -/
structure Encloses (config : Config) (row : Row) (front back : List Char) : Prop where
  chars_eq : row.chars config = front ++ ['{']
  chars_closer : row.closer.chars config = '}' :: back
  ne_brace : ∀ c ∈ front ++ back, c ≠ '{' ∧ c ≠ '}'
  nested : ∀ inner, Nested Bracket.all inner → Nested Bracket.all (front ++ (inner ++ back))

theorem encloses_of_nested {front : List Char} (hc : row.closer = .closing) (hf : row.chars config = front ++ ['{'])
    (hn : Nested [.round] front) : Encloses config row front [] where
  chars_eq := hf
  chars_closer := by simp [hc, chars, fragment, Fragment.text]
  ne_brace := by simpa using hn.ne_brace
  nested inner h := by simpa using hn.all.append h

theorem encloses_of_opens (hp : config.printFunction = Config.standard.printFunction) (h : row.Plain)
    (opens : ∀ n, row.nestingAfter n = n + 1) : ∃ front back, Encloses config row front back := by
  have hchars := chars_eq hp h
  have hlead : Nested [.round] row.lead.chars := nested_word (Lead.isNamePart_chars (plain_lead h))
  have hblank : Nested [.round] [' '] := .of_all (by decide)
  cases row with
  | epilogue | closing | declare name role | assign name value | call name | write value =>
    exact absurd (opens 0) (by simp [nestingAfter])
  | opening => exact ⟨_, _, encloses_of_nested rfl (hchars : _ = [] ++ ['{']) .nil⟩
  | prologue =>
    refine ⟨";(function () ".toList, "());".toList, by simp [hchars, lead, Lead.chars, tail, JavaScript.prologue],
      by simp [closer, chars, fragment, Fragment.text, JavaScript.epilogue], by simp, fun inner hi => ?_⟩
    have hword : Nested Bracket.all "function ".toList := .of_all (by decide)
    have hpair : Nested Bracket.all "()".toList := Nested.nil.parens.all
    have hinside := (hword.append (hpair.append (Nested.cons (c := ' ') (by decide) hi))).append hpair
    have hsemi : Nested Bracket.all [';'] := .of_all (by decide)
    have hcall : Nested Bracket.all ('(' :: (_ ++ ')' :: [';'])) :=
      .pair (b := .round) (by simp [Bracket.all]) hinside hsemi
    simpa using hsemi.append hcall
  | function name =>
    have hname : Nested [.round] (rename name).toList := nested_word (isNamePart_rename h)
    have hfront := hlead.append (hblank.append (hname.append (Nested.nil.parens.append hblank)))
    exact ⟨_, _, encloses_of_nested rfl (by rw [hchars]; simp [lead, Lead.chars, tail]) hfront⟩
  | ifThen cond braced | whileDo cond braced =>
    cases braced with
    | false => exact absurd (opens 0) (by simp [nestingAfter])
    | true =>
      have hfront := hlead.append (hblank.append ((cond.nested_chars config h).parens.append hblank))
      exact ⟨_, _, encloses_of_nested rfl (by rw [hchars]; simp [tail, brace, Fragment.text]) hfront⟩

end Row

end PL0
