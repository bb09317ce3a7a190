/-
Rows: the lines of a program in JavaScript as data, without their depths. Every line that is written is that
of one row, and no two programs have the same rows unless they differ in the lines of their symbols alone.
Main statements: `Program.contents_code` and `Program.eraseLines_eq_of_rows`.
-/
import PL0.JavaScript.Code
import PL0.Proofs.Front
import PL0.Proofs.Lines

namespace PL0

open JavaScript

/-- A line of a program in JavaScript. -/
inductive Row where
  | prologue | epilogue | opening | closing
  | declare (name : String) (role : Role)
  | function (name : String)
  | assign (name : String) (value : Expr)
  | call (name : String)
  | write (value : Expr)
  /-- An `if`; it is braced if its body stands in braces that open on its line. -/
  | ifThen (cond : Condition) (braced : Bool)
  /-- A `while`, in the same manner. -/
  | whileDo (cond : Condition) (braced : Bool)

/-- The brace at the end of an `if` or a `while`. -/
def brace : Bool → Fragment
  | true => [.text " \x7b"]
  | false => []

/-- What a row is written as. -/
def Row.fragment (config : Config) : Row → Fragment
  | prologue => [.text JavaScript.prologue]
  | epilogue => [.text JavaScript.epilogue]
  | opening => [.text "\x7b"]
  | closing => [.text "\x7d"]
  | declare name role => [.text (Symbol.code ⟨name, role, 0⟩)]
  | function name => [.text ("function " ++ rename name ++ "() \x7b")]
  | assign name value => .text (rename name ++ " = ") :: value.code config ++ [.text ";"]
  | call name => [.text (rename name ++ "();")]
  | write value => .text (config.printFunction ++ "(") :: value.code config ++ [.text ");"]
  | ifThen cond braced => Statement.head config "if" cond ++ brace braced
  | whileDo cond braced => Statement.head config "while" cond ++ brace braced

/-! ## The rows of a program -/

namespace Statement

def isCompound : Statement → Bool
  | compound _ => true
  | _ => false

/-- The rows of the body of an `if` or a `while`: the brace of a compound is opened before them. -/
def bodyRows (body : Statement) (rows : List Row) : List Row := if body.isCompound then rows.tail else rows

mutual

def rows : Statement → List Row
  | compound body => .opening :: allRows body ++ [.closing]
  | assign name value => [.assign name value]
  | call name => [.call name]
  | write value => [.write value]
  | ifThen cond body => .ifThen cond body.isCompound :: bodyRows body (rows body)
  | whileDo cond body => .whileDo cond body.isCompound :: bodyRows body (rows body)

def allRows : List Statement → List Row
  | [] => []
  | s :: ss => rows s ++ allRows ss

end

theorem rows_of_isCompound {s : Statement} (h : s.isCompound = true) : s.rows = .opening :: s.rows.tail := by
  cases s with
  | compound body => rfl
  | _ => cases h

end Statement

def Symbol.row (s : Symbol) : Row := .declare s.name s.role

mutual

def Block.rows : Block → List Row
  | ⟨symbols, procedures, statement⟩ =>
    symbols.toList.map Symbol.row ++ (Procedure.allRows procedures ++ statement.rows)

def Procedure.rows : Procedure → List Row
  | ⟨name, block⟩ => .function name :: Block.rows block ++ [.closing]

def Procedure.allRows : List Procedure → List Row
  | [] => []
  | p :: ps => Procedure.rows p ++ Procedure.allRows ps

end

def Program.rows (p : Program) : List Row := .prologue :: p.block.rows ++ [.epilogue]

/-! ## The lines that are written are those of the rows -/

section

variable {config : Config}

/-- What the lines hold, whatever their depths. -/
def contents (lines : List (Text.Line Fragment)) : List Fragment := lines.map (·.content)

theorem contents_append (a b : List (Text.Line Fragment)) : contents (a ++ b) = contents a ++ contents b :=
  List.map_append

theorem contents_cons (l : Text.Line Fragment) (ls : List (Text.Line Fragment)) :
    contents (l :: ls) = l.content :: contents ls := rfl

theorem contents_tail (ls : List (Text.Line Fragment)) : contents ls.tail = (contents ls).tail :=
  List.map_tail

namespace Statement

theorem code_ifThen (depth : Nat) (cond : Condition) (body : Statement) :
    (ifThen cond body).code config depth =
      ⟨depth, head config "if" cond ++ brace body.isCompound⟩ ::
        if body.isCompound then (body.code config depth).tail else body.code config (depth + 1) := by
  cases body <;> simp [code, isCompound, brace]

theorem code_whileDo (depth : Nat) (cond : Condition) (body : Statement) :
    (whileDo cond body).code config depth =
      ⟨depth, head config "while" cond ++ brace body.isCompound⟩ ::
        if body.isCompound then (body.code config depth).tail else body.code config (depth + 1) := by
  cases body <;> simp [code, isCompound, brace]

theorem contents_body {depth : Nat} {body : Statement}
    (ih : ∀ depth, contents (body.code config depth) = body.rows.map (Row.fragment config)) :
    contents (if body.isCompound then (body.code config depth).tail else body.code config (depth + 1)) =
      (bodyRows body body.rows).map (Row.fragment config) := by
  unfold bodyRows
  split
  · rw [contents_tail, ih, List.map_tail]
  · exact ih _

mutual

theorem contents_code : ∀ (s : Statement) (depth : Nat),
    contents (s.code config depth) = s.rows.map (Row.fragment config)
  | compound body, depth => by
    rw [code, contents_append, contents_cons, contents_codeAll body]
    simp [rows, contents, Row.fragment, textLine]
  | assign name value, depth => by simp [code, rows, contents, Row.fragment]
  | call name, depth => by simp [code, rows, contents, Row.fragment, textLine]
  | write value, depth => by simp [code, rows, contents, Row.fragment]
  | ifThen cond body, depth => by
    rw [code_ifThen, contents_cons, contents_body (contents_code body)]
    rfl
  | whileDo cond body, depth => by
    rw [code_whileDo, contents_cons, contents_body (contents_code body)]
    rfl

theorem contents_codeAll : ∀ (ss : List Statement) (depth : Nat),
    contents (codeAll config depth ss) = (allRows ss).map (Row.fragment config)
  | [], _ => rfl
  | s :: ss, depth => by
    rw [codeAll, contents_append, contents_code s, contents_codeAll ss, allRows, List.map_append]

end

end Statement

theorem Symbol.fragment_row (s : Symbol) : s.row.fragment config = [.text s.code] := by
  obtain ⟨name, role, line⟩ := s
  cases role <;> rfl

theorem contents_symbols (depth : Nat) (ss : List Symbol) :
    contents (ss.map fun s => textLine depth s.code) = (ss.map Symbol.row).map (Row.fragment config) := by
  simp [contents, textLine, Symbol.fragment_row]

mutual

theorem Block.contents_code : ∀ (b : Block) (depth : Nat),
    contents (b.code config depth) = b.rows.map (Row.fragment config)
  | ⟨symbols, procedures, statement⟩, depth => by
    rw [Block.code, contents_append, contents_append, contents_symbols,
      Procedure.contents_codeAll procedures, statement.contents_code, Block.rows, List.map_append,
      List.map_append, List.append_assoc]

theorem Procedure.contents_code : ∀ (p : Procedure) (depth : Nat),
    contents (p.code config depth) = p.rows.map (Row.fragment config)
  | ⟨name, block⟩, depth => by
    rw [Procedure.code, contents_append, contents_cons, Block.contents_code block]
    simp [Procedure.rows, contents, Row.fragment, textLine]

theorem Procedure.contents_codeAll : ∀ (ps : List Procedure) (depth : Nat),
    contents (Procedure.codeAll config depth ps) = (Procedure.allRows ps).map (Row.fragment config)
  | [], _ => rfl
  | p :: ps, depth => by
    rw [Procedure.codeAll, contents_append, Procedure.contents_code p, Procedure.contents_codeAll ps,
      Procedure.allRows, List.map_append]

end

theorem Program.contents_code (p : Program) (depth : Nat) :
    contents (p.code config depth) = p.rows.map (Row.fragment config) := by
  rw [Program.code, contents_append, contents_cons, p.block.contents_code]
  simp [Program.rows, contents, Row.fragment, textLine]

end

/-! ## The rows determine the program -/

/-- The parts of a block. -/
inductive Part where
  | symbol | procedure | statement
deriving DecidableEq

/-- The part of a block that a row begins, if it begins one. -/
def Row.part? : Row → Option Part
  | declare _ _ => some .symbol
  | function _ => some .procedure
  | opening | assign _ _ | call _ | write _ | ifThen _ _ | whileDo _ _ => some .statement
  | prologue | epilogue | closing => none

namespace Statement

theorem exists_rows_cons (s : Statement) : ∃ row rest, s.rows = row :: rest ∧ row.part? = some .statement := by
  cases s <;> exact ⟨_, _, rfl, rfl⟩

theorem rows_append_of_bodyRows {s s' : Statement} {r r' : List Row} (hk : s.isCompound = s'.isCompound)
    (h : bodyRows s s.rows ++ r = bodyRows s' s'.rows ++ r') : s.rows ++ r = s'.rows ++ r' := by
  rw [bodyRows, bodyRows, ← hk] at h
  split at h
  · rename_i hs
    rw [rows_of_isCompound hs, rows_of_isCompound (hk.symm.trans hs), List.cons_append, List.cons_append, h]
  · exact h

mutual

theorem rows_append_inj : ∀ {s s' : Statement} {r r' : List Row},
    s.rows ++ r = s'.rows ++ r' → s = s' ∧ r = r'
  | compound body, s', r, r', h => by
    cases s' with
    | compound body' =>
      simp only [rows, List.cons_append, List.append_assoc, List.nil_append, List.cons.injEq, true_and] at h
      obtain ⟨hb, hr⟩ := allRows_append_inj h
      exact ⟨by rw [hb], hr⟩
    | _ => simp [rows] at h
  | assign name value, s', r, r', h => by
    cases s' with
    | assign name' value' => simpa [rows] using h
    | _ => simp [rows] at h
  | call name, s', r, r', h => by
    cases s' with
    | call name' => simpa [rows] using h
    | _ => simp [rows] at h
  | write value, s', r, r', h => by
    cases s' with
    | write value' => simpa [rows] using h
    | _ => simp [rows] at h
  | ifThen cond body, s', r, r', h => by
    cases s' with
    | ifThen cond' body' =>
      simp only [rows, List.cons_append, List.cons.injEq, Row.ifThen.injEq] at h
      obtain ⟨⟨rfl, hk⟩, h⟩ := h
      obtain ⟨hb, hr⟩ := rows_append_inj (rows_append_of_bodyRows hk h)
      exact ⟨by rw [hb], hr⟩
    | _ => simp [rows] at h
  | whileDo cond body, s', r, r', h => by
    cases s' with
    | whileDo cond' body' =>
      simp only [rows, List.cons_append, List.cons.injEq, Row.whileDo.injEq] at h
      obtain ⟨⟨rfl, hk⟩, h⟩ := h
      obtain ⟨hb, hr⟩ := rows_append_inj (rows_append_of_bodyRows hk h)
      exact ⟨by rw [hb], hr⟩
    | _ => simp [rows] at h

/-- Statements end where a row closes them. -/
theorem allRows_append_inj : ∀ {ss ss' : List Statement} {r r' : List Row},
    allRows ss ++ .closing :: r = allRows ss' ++ .closing :: r' → ss = ss' ∧ r = r'
  | [], ss', r, r', h => by
    cases ss' with
    | nil => simpa [allRows] using h
    | cons s' ss' =>
      obtain ⟨row, rest, hs, hp⟩ := exists_rows_cons s'
      simp only [allRows, hs, List.nil_append, List.cons_append, List.cons.injEq] at h
      rw [← h.1] at hp
      cases hp
  | s :: ss, ss', r, r', h => by
    cases ss' with
    | nil =>
      obtain ⟨row, rest, hs, hp⟩ := exists_rows_cons s
      simp only [allRows, hs, List.nil_append, List.cons_append, List.cons.injEq] at h
      rw [h.1] at hp
      cases hp
    | cons s' ss' =>
      simp only [allRows, List.append_assoc] at h
      obtain ⟨hs, h⟩ := rows_append_inj h
      obtain ⟨hss, hr⟩ := allRows_append_inj h
      exact ⟨by rw [hs, hss], hr⟩

end

end Statement

theorem Symbol.eraseLine_eq_of_row {s s' : Symbol} (h : s.row = s'.row) : s.eraseLine = s'.eraseLine := by
  obtain ⟨hn, hr⟩ := Row.declare.inj h
  rw [eraseLine, eraseLine, hn, hr]

theorem map_eraseLine_eq_of_rows : ∀ {ss ss' : List Symbol},
    ss.map Symbol.row = ss'.map Symbol.row → ss.map Symbol.eraseLine = ss'.map Symbol.eraseLine
  | [], [], _ => rfl
  | s :: ss, s' :: ss', h => by
    obtain ⟨hs, h⟩ := List.cons.inj h
    rw [List.map_cons, List.map_cons, Symbol.eraseLine_eq_of_row hs, map_eraseLine_eq_of_rows h]

/-- After its symbols a block goes on with a procedure or with its statement. -/
theorem part?_after_symbols (ps : List Procedure) (s : Statement) (r : List Row) :
    ∀ row ∈ (Procedure.allRows ps ++ (s.rows ++ r)).head?, decide (row.part? = some .symbol) = false := by
  intro row hm
  cases ps with
  | nil =>
    obtain ⟨row', rest, hs, hp⟩ := s.exists_rows_cons
    rw [hs] at hm
    cases hm
    simp [hp]
  | cons p ps =>
    obtain ⟨name, block⟩ := p
    cases hm
    rfl

mutual

/-- The rows of a block are those of no other block, whatever follows them. -/
theorem Block.rows_append_inj : ∀ {b b' : Block} {r r' : List Row},
    b.rows ++ r = b'.rows ++ r' → b.eraseLines = b'.eraseLines ∧ r = r'
  | ⟨symbols, procedures, statement⟩, ⟨symbols', procedures', statement'⟩, r, r', h => by
    simp only [Block.rows, List.append_assoc] at h
    have hsym : ∀ ss : List Symbol, ∀ row ∈ ss.map Symbol.row, decide (row.part? = some .symbol) = true := by
      intro ss row hm
      obtain ⟨s, -, rfl⟩ := List.mem_map.1 hm
      rfl
    obtain ⟨hs, h⟩ := append_inj_of_front (hsym _) (hsym _) (part?_after_symbols _ _ _)
      (part?_after_symbols _ _ _) h
    obtain ⟨hp, h⟩ := Procedure.allRows_append_inj h
    obtain ⟨hst, hr⟩ := Statement.rows_append_inj h
    have he : symbols.eraseLines = symbols'.eraseLines :=
      Declarations.ext_toList (map_eraseLine_eq_of_rows hs)
    exact ⟨by rw [Block.eraseLines, Block.eraseLines, he, hp, hst], hr⟩

/-- Procedures end where a statement begins. -/
theorem Procedure.allRows_append_inj : ∀ {ps ps' : List Procedure} {s s' : Statement} {r r' : List Row},
    Procedure.allRows ps ++ (s.rows ++ r) = Procedure.allRows ps' ++ (s'.rows ++ r') →
    Procedure.eraseAllLines ps = Procedure.eraseAllLines ps' ∧ s.rows ++ r = s'.rows ++ r'
  | [], [], _, _, _, _, h => ⟨rfl, h⟩
  | [], ⟨name', block'⟩ :: ps', s, s', r, r', h => by
    obtain ⟨row, rest, hs, hp⟩ := s.exists_rows_cons
    simp only [Procedure.allRows, Procedure.rows, hs, List.nil_append, List.cons_append, List.cons.injEq] at h
    rw [h.1] at hp
    cases hp
  | ⟨name, block⟩ :: ps, [], s, s', r, r', h => by
    obtain ⟨row, rest, hs, hp⟩ := s'.exists_rows_cons
    simp only [Procedure.allRows, Procedure.rows, hs, List.nil_append, List.cons_append, List.cons.injEq] at h
    rw [← h.1] at hp
    cases hp
  | ⟨name, block⟩ :: ps, ⟨name', block'⟩ :: ps', s, s', r, r', h => by
    simp only [Procedure.allRows, Procedure.rows, List.cons_append, List.append_assoc, List.nil_append,
      List.cons.injEq, Row.function.injEq] at h
    obtain ⟨rfl, h⟩ := h
    obtain ⟨hb, h⟩ := Block.rows_append_inj h
    obtain ⟨hps, h⟩ := Procedure.allRows_append_inj (List.cons.inj h).2
    exact ⟨by rw [Procedure.eraseAllLines, Procedure.eraseAllLines, Procedure.eraseLines,
      Procedure.eraseLines, hb, hps], h⟩

end

/-- Programs with the same rows differ in nothing but the lines of their symbols. -/
theorem Program.eraseLines_eq_of_rows {p p' : Program} (h : p.rows = p'.rows) : p.eraseLines = p'.eraseLines := by
  obtain ⟨hb, -⟩ := Block.rows_append_inj (List.cons.inj h).2
  rw [Program.eraseLines, Program.eraseLines, hb]

end PL0
