/-
Emission loses nothing of a program but the lines of its symbols. What is written falls apart into lines, the
lines tell the rows, and the rows tell the program. Main statement: `eraseLines_eq_of_emit_eq`.
-/
import PL0.Proofs.JavaScript.Layout
import PL0.Proofs.JavaScript.RowText

namespace PL0

open JavaScript

namespace Row

variable {config : Config}

theorem fault?_fragment (config : Config) {row : Row} (h : row.Plain) : (row.fragment config).fault? = none := by
  cases row with
  | assign name value =>
    simp [fragment, Fragment.fault?, Fragment.fault?_append, Expr.fault?_code config h.2.wellFormed]
  | write value =>
    simp [fragment, Fragment.fault?, Fragment.fault?_append, Expr.fault?_code config h.wellFormed]
  | ifThen cond braced | whileDo cond braced =>
    cases braced <;>
      simp [fragment, Statement.head, brace, Fragment.fault?, Fragment.fault?_append,
        Condition.fault?_code config (Condition.Plain.wellFormed_operands h)]
  | _ => rfl

theorem newline_not_mem_tail {row : Row} (h : row.Plain) : '\n' ∉ row.tail config := by
  have hname : ∀ {name : String}, IsName name → '\n' ∉ (rename name).toList := by
    intro name hn hm
    exact absurd (isNamePart_rename hn _ hm) (by decide)
  cases row with
  | declare name role =>
    cases role with
    | constant value =>
      have hv : '\n' ∉ (toString value).toList := fun hm =>
        absurd (isNamePart_toString h.2 _ hm) (by decide)
      simp [tail, hname h.1, hv]
    | _ => simp [tail, hname h.1]
  | function name => simp [tail, hname h]
  | assign name value => simp [tail, Expr.newline_not_mem_chars h.2]
  | write value => simp [tail, Expr.newline_not_mem_chars h]
  | ifThen cond braced | whileDo cond braced =>
    cases braced <;> simp [tail, Condition.newline_not_mem_chars h, brace, Fragment.text]
  | _ => simp [tail, JavaScript.prologue, JavaScript.epilogue]

theorem clean_fragment {row : Row} (hp : config.printFunction = Config.standard.printFunction)
    (h : row.Plain) : Clean (row.fragment config) := by
  have hw := Lead.isNamePart_chars (plain_lead h)
  have he : (row.fragment config).text.toList = row.lead.chars ++ row.tail config := chars_eq hp h
  rw [Clean, he]
  refine ⟨fun hm => ?_, fun c hc => ?_⟩
  · rcases List.mem_append.1 hm with hm | hm
    · exact absurd (hw _ hm) (by decide)
    · exact newline_not_mem_tail h hm
  · rintro rfl
    cases hl : row.lead.chars with
    | cons c cs =>
      rw [hl] at hc hw
      cases hc
      exact absurd (hw ' ' List.mem_cons_self) (by decide)
    | nil =>
      have hm : row.lead = .mark := Lead.chars_inj (plain_lead h) trivial hl
      rw [hl] at hc
      cases row with
      | declare name role => cases role <;> cases hm
      | prologue | epilogue | opening | closing => simp [tail, JavaScript.prologue, JavaScript.epilogue] at hc
      | _ => cases hm

end Row

/-! ## Whole programs -/

variable {config : Config} {p p' : Program}

theorem mem_rows_of_mem_code {l : Text.Line Fragment} (h : l ∈ p.code config 0) :
    ∃ row ∈ p.rows, row.fragment config = l.content := by
  have hm : l.content ∈ p.rows.map (Row.fragment config) := by
    rw [← p.contents_code 0]
    exact List.mem_map_of_mem h
  exact List.mem_map.1 hm

/-- A plain program is written whole. -/
theorem emit_of_plain (h : p.Plain) :
    emit config p = .ok (String.ofList (written config.indentWidth (p.code config 0))) := by
  have hf : ∀ l ∈ p.code config 0, l.content.fault? = none := by
    intro l hl
    obtain ⟨row, hm, he⟩ := mem_rows_of_mem_code hl
    rw [← he]
    exact Row.fault?_fragment config (Program.plainRows h row hm)
  rw [emit, Node.emission, ofLines_of_fault?_eq_none hf]
  rfl

theorem clean_code (hp : config.printFunction = Config.standard.printFunction) (h : p.Plain) :
    ∀ l ∈ p.code config 0, Clean l.content := by
  intro l hl
  obtain ⟨row, hm, he⟩ := mem_rows_of_mem_code hl
  rw [← he]
  exact Row.clean_fragment hp (Program.plainRows h row hm)

theorem map_chars_rows (p : Program) :
    (p.code config 0).map (·.content.text.toList) = p.rows.map (Row.chars config) := by
  have h := congrArg (List.map (·.text.toList)) (@Program.contents_code config p 0)
  rwa [contents, List.map_map, List.map_map] at h

theorem rows_eq_of_chars (hp : config.printFunction = Config.standard.printFunction) : ∀ {rows rows' : List Row},
    PlainRows rows → PlainRows rows' → rows.map (Row.chars config) = rows'.map (Row.chars config) → rows = rows'
  | [], [], _, _, _ => rfl
  | row :: rows, row' :: rows', h, h', he => by
    obtain ⟨hr, hrs⟩ := plainRows_cons.1 h
    obtain ⟨hr', hrs'⟩ := plainRows_cons.1 h'
    obtain ⟨hc, he⟩ := List.cons.inj he
    rw [Row.chars_inj hp hr hr' hc, rows_eq_of_chars hp hrs hrs' he]

theorem eraseLines_eq_of_emit (hp : config.printFunction = Config.standard.printFunction) (h : p.Plain)
    (h' : p'.Plain) (he : emit config p = emit config p') : p.eraseLines = p'.eraseLines := by
  rw [emit_of_plain h, emit_of_plain h'] at he
  have hw := String.ofList_injective (Except.ok.inj he)
  have ht := texts_eq_of_written_eq (clean_code hp h) (clean_code hp h') hw
  rw [map_chars_rows, map_chars_rows] at ht
  exact Program.eraseLines_eq_of_rows
    (rows_eq_of_chars hp (Program.plainRows h) (Program.plainRows h') ht)

/-- **Emission loses no structure.** Two programs that are read from texts and are written alike differ in
nothing but the lines of their symbols. -/
theorem eraseLines_eq_of_emit_eq (width : Nat) (truncate : Bool) {source source' : String}
    (h : readSource source = .ok p) (h' : readSource source' = .ok p')
    (he : emit ⟨width, Config.standard.printFunction, truncate⟩ p =
      emit ⟨width, Config.standard.printFunction, truncate⟩ p') : p.eraseLines = p'.eraseLines := by
  have hp : (Config.mk width Config.standard.printFunction truncate).printFunction =
      Config.standard.printFunction := rfl
  exact eraseLines_eq_of_emit hp (plain_of_readSource h) (plain_of_readSource h') he

/-- Halves `x` while it is above one, with `x` declared on the line. -/
def halving (line : Nat) : Program :=
  ⟨⟨.ofList [⟨"x", .variable, line⟩], [],
    .whileDo (.compare .gt (.operand (.ident "x")) (.operand (.number 1)))
      (.assign "x" (.binary .divide (.operand (.ident "x")) (.operand (.number 2))))⟩⟩

/-- Two layouts of one program, without indents and with quotients cut. -/
theorem eraseLines_eq_of_emit_eq_halving :
    readSource "var x; while x > 1 do x := x / 2." = .ok (halving 1) ∧
      readSource "var \x7bthe value\x7d\nx; while (x) > 1 do x := x / 02." = .ok (halving 2) ∧
      (halving 1).eraseLines = (halving 2).eraseLines := by
  have h : readSource "var x; while x > 1 do x := x / 2." = .ok (halving 1) := by cbv
  have h' : readSource "var \x7bthe value\x7d\nx; while (x) > 1 do x := x / 02." = .ok (halving 2) := by cbv
  exact ⟨h, h', eraseLines_eq_of_emit_eq 0 true h h' rfl⟩

end PL0
