/-
The text of a row. The word that a row begins with tells which row it is, and what stands after it is read
with the texts of names, numbers, expressions and conditions; so the text of a plain row is that of no other
plain row. Main statement: `Row.chars_inj`.
-/
import PL0.Proofs.JavaScript.Expression
import PL0.Proofs.JavaScript.Rows

namespace PL0

open JavaScript

/-! ## Plain rows -/

def Row.Plain : Row → Prop
  | prologue | epilogue | opening | closing => True
  | declare name role => IsName name ∧ role.Plain
  | function name | call name => IsName name
  | assign name value => IsName name ∧ value.Plain
  | write value => value.Plain
  | ifThen cond _ | whileDo cond _ => cond.Plain

/-- All rows are plain. -/
def PlainRows (rows : List Row) : Prop := ∀ row ∈ rows, row.Plain

theorem plainRows_cons {row : Row} {rows : List Row} : PlainRows (row :: rows) ↔ row.Plain ∧ PlainRows rows :=
  List.forall_mem_cons

theorem plainRows_append {rows rows' : List Row} :
    PlainRows (rows ++ rows') ↔ PlainRows rows ∧ PlainRows rows' := List.forall_mem_append

theorem plainRows_nil : PlainRows [] := by simp [PlainRows]

theorem plainRows_singleton {row : Row} (h : row.Plain) : PlainRows [row] := plainRows_cons.2 ⟨h, plainRows_nil⟩

namespace Statement

theorem plainRows_bodyRows {s : Statement} (h : PlainRows s.rows) : PlainRows (bodyRows s s.rows) := by
  unfold bodyRows
  split
  · exact fun row hm => h row (List.mem_of_mem_tail hm)
  · exact h

mutual

theorem plainRows : ∀ {s : Statement}, s.Plain → PlainRows s.rows
  | compound _, h => plainRows_append.2
      ⟨plainRows_cons.2 ⟨trivial, plainRows_allRows h⟩, plainRows_singleton trivial⟩
  | assign _ _, h => plainRows_singleton h
  | call _, h => plainRows_singleton h
  | write _, h => plainRows_singleton h
  | ifThen _ _, h => plainRows_cons.2 ⟨h.1, plainRows_bodyRows (plainRows h.2)⟩
  | whileDo _ _, h => plainRows_cons.2 ⟨h.1, plainRows_bodyRows (plainRows h.2)⟩

theorem plainRows_allRows : ∀ {ss : List Statement}, AllPlain ss → PlainRows (allRows ss)
  | [], _ => plainRows_nil
  | _ :: _, h => plainRows_append.2 ⟨plainRows h.1, plainRows_allRows h.2⟩

end

end Statement

mutual

theorem Block.plainRows : ∀ {b : Block}, b.Plain → PlainRows b.rows
  | ⟨symbols, _, _⟩, h => by
    refine plainRows_append.2 ⟨fun row hm => ?_,
      plainRows_append.2 ⟨Procedure.plainRows_allRows h.2.1, Statement.plainRows h.2.2⟩⟩
    obtain ⟨s, hs, rfl⟩ := List.mem_map.1 hm
    exact h.1 s hs

theorem Procedure.plainRows : ∀ {p : Procedure}, p.Plain → PlainRows p.rows
  | ⟨_, _⟩, h => plainRows_append.2
      ⟨plainRows_cons.2 ⟨h.1, Block.plainRows h.2⟩, plainRows_singleton trivial⟩

theorem Procedure.plainRows_allRows : ∀ {ps : List Procedure}, Procedure.AllPlain ps →
    PlainRows (Procedure.allRows ps)
  | [], _ => plainRows_nil
  | _ :: _, h => plainRows_append.2 ⟨Procedure.plainRows h.1, Procedure.plainRows_allRows h.2⟩

end

theorem Program.plainRows {p : Program} (h : p.Plain) : PlainRows p.rows :=
  plainRows_append.2 ⟨plainRows_cons.2 ⟨trivial, Block.plainRows h⟩, plainRows_singleton trivial⟩

/-! ## How a row begins -/

/-- What a row begins with: a mark, a word of JavaScript or a name. -/
inductive Lead where
  | mark
  | keyword (word : String)
  | named (name : String)

namespace Lead

def chars : Lead → List Char
  | mark => []
  | keyword word => word.toList
  | named name => (rename name).toList

def Plain : Lead → Prop
  | mark => True
  | keyword word => word ∈ reservedWords
  | named name => IsName name

theorem isNamePart_chars {l : Lead} (h : l.Plain) : ∀ c ∈ l.chars, isNamePart c = true := by
  cases l with
  | mark => simp [chars]
  | keyword word => exact isNamePart_of_mem_reservedWords h
  | named name => exact isNamePart_rename h

theorem rename_ne_nil {name : String} (h : IsName name) : (rename name).toList ≠ [] := by
  obtain ⟨⟨c, cs, hn, -⟩, -⟩ := h
  rw [toList_rename, hn]
  split <;> simp

theorem chars_inj {l l' : Lead} (h : l.Plain) (h' : l'.Plain) (he : l.chars = l'.chars) : l = l' := by
  have hnil : ∀ word ∈ reservedWords, word.toList ≠ [] := by decide
  cases l with
  | mark =>
    cases l' with
    | mark => rfl
    | keyword word => exact absurd he.symm (hnil word h')
    | named name => exact absurd he.symm (rename_ne_nil h')
  | keyword word =>
    cases l' with
    | mark => exact absurd he (hnil word h)
    | keyword word' => rw [String.toList_injective he]
    | named name => exact absurd he.symm (rename_ne h)
  | named name =>
    cases l' with
    | mark => exact absurd he (rename_ne_nil h)
    | keyword word => exact absurd he (rename_ne h')
    | named name' =>
      rw [rename_inj h h' (String.toList_injective he)]

end Lead

namespace Row

def lead : Row → Lead
  | prologue | epilogue | opening | closing => .mark
  | declare _ (.constant _) => .keyword "const"
  | declare _ .variable => .keyword "let"
  | function _ => .keyword "function"
  | assign name _ | call name => .named name
  | write _ => .keyword "console"
  | ifThen _ _ => .keyword "if"
  | whileDo _ _ => .keyword "while"

theorem plain_lead {row : Row} (h : row.Plain) : row.lead.Plain := by
  cases row with
  | declare name role =>
    cases role with
    | constant value => exact (by decide : "const" ∈ reservedWords)
    | _ => exact (by decide : "let" ∈ reservedWords)
  | function _ => exact (by decide : "function" ∈ reservedWords)
  | write _ => exact (by decide : "console" ∈ reservedWords)
  | ifThen _ _ => exact (by decide : "if" ∈ reservedWords)
  | whileDo _ _ => exact (by decide : "while" ∈ reservedWords)
  | assign name value => exact h.1
  | call name => exact h
  | _ => trivial

/-- What stands after the lead of a row. -/
def tail (config : Config) : Row → List Char
  | prologue => JavaScript.prologue.toList
  | epilogue => JavaScript.epilogue.toList
  | opening => ['{']
  | closing => ['}']
  | declare name (.constant value) =>
    ' ' :: ((rename name).toList ++ (" = ".toList ++ ((toString value).toList ++ [';'])))
  | declare name .variable => ' ' :: ((rename name).toList ++ [';'])
  | function name => ' ' :: ((rename name).toList ++ "() \x7b".toList)
  | assign _ value => " = ".toList ++ (value.chars config ++ [';'])
  | call _ => "();".toList
  | write value => ".log(".toList ++ (value.chars config ++ ");".toList)
  | ifThen cond braced | whileDo cond braced =>
    " (".toList ++ (cond.chars config ++ ')' :: (brace braced).text.toList)

/-- The characters of a row. -/
def chars (config : Config) (row : Row) : List Char := (row.fragment config).text.toList

variable {config : Config}

theorem chars_eq {row : Row} (hp : config.printFunction = Config.standard.printFunction) (h : row.Plain) :
    row.chars config = row.lead.chars ++ row.tail config := by
  cases row with
  | declare name role => cases role <;> simp [chars, fragment, Symbol.code, Fragment.text, lead, Lead.chars, tail]
  | assign name value =>
    simp [chars, fragment, Fragment.text, Fragment.text_append, Expr.fault?_code config h.2.wellFormed,
      lead, Lead.chars, tail, Expr.chars]
  | write value =>
    simp [chars, fragment, Fragment.text, Fragment.text_append, hp, Config.standard,
      Expr.fault?_code config h.wellFormed, lead, Lead.chars, tail, Expr.chars]
  | ifThen cond braced =>
    simp [chars, fragment, Statement.head, Fragment.text, Fragment.text_append,
      Condition.fault?_code config (Condition.Plain.wellFormed_operands h), lead, Lead.chars, tail, Condition.chars]
  | whileDo cond braced =>
    simp [chars, fragment, Statement.head, Fragment.text, Fragment.text_append,
      Condition.fault?_code config (Condition.Plain.wellFormed_operands h), lead, Lead.chars, tail, Condition.chars]
  | _ => simp [chars, fragment, Fragment.text, lead, Lead.chars, tail]

theorem apart_tail (row : Row) : Apart (row.tail config) := by
  cases row with
  | declare name role => cases role <;> exact apart_cons (by decide) _
  | _ => exact apart_cons (by decide) _

/-! ## The text of a row is that of no other row -/

theorem lead_tail_of_chars {row row' : Row} (hp : config.printFunction = Config.standard.printFunction)
    (h : row.Plain) (h' : row'.Plain) (he : row.chars config = row'.chars config) :
    row.lead = row'.lead ∧ row.tail config = row'.tail config := by
  rw [chars_eq hp h, chars_eq hp h'] at he
  obtain ⟨hl, ht⟩ := append_inj_of_front (Lead.isNamePart_chars (plain_lead h))
    (Lead.isNamePart_chars (plain_lead h')) row.apart_tail row'.apart_tail he
  exact ⟨Lead.chars_inj (plain_lead h) (plain_lead h') hl, ht⟩

theorem name_inj {name name' : String} (h : IsName name) (h' : IsName name') {rest rest' : List Char}
    (hr : Apart rest) (hr' : Apart rest') (he : (rename name).toList ++ rest = (rename name').toList ++ rest') :
    name = name' ∧ rest = rest' := by
  obtain ⟨hn, ht⟩ := append_inj_of_front (isNamePart_rename h) (isNamePart_rename h') hr hr' he
  exact ⟨rename_inj h h' (String.toList_injective hn), ht⟩

theorem brace_inj {braced braced' : Bool} (h : (brace braced).text.toList = (brace braced').text.toList) :
    braced = braced' := by
  cases braced <;> cases braced' <;> simp_all [brace, Fragment.text]

theorem guard_inj {cond cond' : Condition} {braced braced' : Bool} (h : cond.Plain) (h' : cond'.Plain)
    (he : cond.chars config ++ ')' :: (brace braced).text.toList =
      cond'.chars config ++ ')' :: (brace braced').text.toList) : cond = cond' ∧ braced = braced' := by
  obtain ⟨hc, ht⟩ := Condition.chars_append_inj h h' he
  exact ⟨hc, brace_inj (List.cons.inj ht).2⟩

theorem declare_inj {name name' : String} {role role' : Role} (h : (declare name role).Plain)
    (h' : (declare name' role').Plain) (hl : (declare name role).lead = (declare name' role').lead)
    (ht : (declare name role).tail config = (declare name' role').tail config) :
    name = name' ∧ role = role' := by
  have heq : ∀ rest, Apart (" = ".toList ++ rest) := fun _ => apart_cons (by decide) _
  have hsemi : Apart [';'] := apart_cons (by decide) _
  cases role with
  | constant value =>
    cases role' with
    | constant value' =>
      simp only [tail, List.cons.injEq, true_and] at ht
      obtain ⟨hn, hv⟩ := name_inj h.1 h'.1 (heq _) (heq _) ht
      have hv' := List.append_cancel_right (List.append_cancel_left hv)
      exact ⟨hn, by rw [toString_inj h.2 h'.2 hv']⟩
    | _ => simp [lead] at hl
  | _ =>
    cases role' with
    | constant value' => simp [lead] at hl
    | _ =>
      simp only [tail, List.cons.injEq, true_and] at ht
      exact ⟨(name_inj h.1 h'.1 hsemi hsemi ht).1, rfl⟩

/-- The text of a plain row is that of no other plain row. -/
theorem chars_inj {row row' : Row} (hp : config.printFunction = Config.standard.printFunction)
    (h : row.Plain) (h' : row'.Plain) (he : row.chars config = row'.chars config) : row = row' := by
  obtain ⟨hl, ht⟩ := lead_tail_of_chars hp h h' he
  have hsemi : Apart [';'] := apart_cons (by decide) _
  cases row with
  | declare name role =>
    cases row' with
    | declare name' role' =>
      obtain ⟨rfl, rfl⟩ := declare_inj h h' hl ht
      rfl
    | _ => cases role <;> simp [lead] at hl
  | function name =>
    cases row' with
    | function name' =>
      simp only [tail, List.cons.injEq, true_and] at ht
      rw [(name_inj h h' (apart_cons (by decide) _) (apart_cons (by decide) _) ht).1]
    | declare name' role' => cases role' <;> simp [lead] at hl
    | _ => simp [lead] at hl
  | assign name value =>
    cases row' with
    | assign name' value' =>
      obtain rfl := Lead.named.inj hl
      have hv := List.append_cancel_left ht
      rw [(Expr.chars_append_inj h.2 h'.2 hsemi hsemi hv).1]
    | call name' => simp [tail] at ht
    | declare name' role' => cases role' <;> simp [lead] at hl
    | _ => simp [lead] at hl
  | call name =>
    cases row' with
    | call name' => rw [Lead.named.inj hl]
    | assign name' value' => simp [tail] at ht
    | declare name' role' => cases role' <;> simp [lead] at hl
    | _ => simp [lead] at hl
  | write value =>
    cases row' with
    | write value' =>
      have hv := List.append_cancel_left ht
      rw [(Expr.chars_append_inj h h' (apart_cons (by decide) _) (apart_cons (by decide) _) hv).1]
    | declare name' role' => cases role' <;> simp [lead] at hl
    | _ => simp [lead] at hl
  | ifThen cond braced =>
    cases row' with
    | ifThen cond' braced' =>
      obtain ⟨rfl, rfl⟩ := guard_inj h h' (List.append_cancel_left ht)
      rfl
    | declare name' role' => cases role' <;> simp [lead] at hl
    | _ => simp [lead] at hl
  | whileDo cond braced =>
    cases row' with
    | whileDo cond' braced' =>
      obtain ⟨rfl, rfl⟩ := guard_inj h h' (List.append_cancel_left ht)
      rfl
    | declare name' role' => cases role' <;> simp [lead] at hl
    | _ => simp [lead] at hl
  | _ =>
    cases row' with
    | declare name' role' => cases role' <;> simp [lead] at hl
    | prologue | epilogue | opening | closing => first | rfl | simp [tail, JavaScript.prologue, JavaScript.epilogue] at ht
    | _ => simp [lead] at hl

end Row

end PL0
