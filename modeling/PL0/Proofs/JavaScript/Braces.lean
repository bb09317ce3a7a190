/-
The braces of rows. A row opens a brace, closes one or does neither, and the rows of a statement or of a block close
every brace that they open (`Block.balanced_rows`). So the rows inside a brace can be told from those that follow it
(`Balanced.insideAt_closing`), and what stands outside all braces of a function body is what its symbols and the heads
of its procedures say (`Block.gatherAt_rows`).
-/
import PL0.Proofs.JavaScript.Rows

namespace PL0

open JavaScript

namespace Row

/-- How deep in braces the next row stands. -/
def nestingAfter (n : Nat) : Row → Nat
  | prologue | opening | function _ | ifThen _ true | whileDo _ true => n + 1
  | epilogue | closing => n - 1
  | declare _ _ | assign _ _ | call _ | write _ | ifThen _ false | whileDo _ false => n

/-- The row closes a brace. -/
def closes : Row → Bool
  | epilogue | closing => true
  | _ => false

theorem closes_eq_false {row : Row} (h : row.nestingAfter 1 ≠ 0) : row.closes = false := by
  cases row with
  | epilogue | closing => exact absurd rfl h
  | _ => rfl

/-- The name that a row declares. -/
def declared? : Row → Option String
  | declare name _ | function name => some (rename name)
  | _ => none

end Row

/-! ## Balanced rows -/

/-- Rows that close all braces which they open, and no other. -/
inductive Balanced : List Row → Prop
  | nil : Balanced []
  | cons {row : Row} {rows : List Row} (flat : ∀ n, row.nestingAfter n = n) (rest : Balanced rows) :
      Balanced (row :: rows)
  | braces {row : Row} {inner rows : List Row} (opens : ∀ n, row.nestingAfter n = n + 1) (inside : Balanced inner)
      (rest : Balanced rows) : Balanced (row :: (inner ++ .closing :: rows))

namespace Balanced

theorem append {a b : List Row} (ha : Balanced a) (hb : Balanced b) : Balanced (a ++ b) := by
  induction ha with
  | nil => exact hb
  | cons flat _ ih => exact .cons flat ih
  | braces opens inside _ _ ih =>
    rw [List.cons_append, List.append_assoc]
    exact .braces opens inside ih

theorem single {row : Row} (flat : ∀ n, row.nestingAfter n = n) : Balanced [row] := .cons flat .nil

theorem braced {row : Row} {inner : List Row} (opens : ∀ n, row.nestingAfter n = n + 1) (inside : Balanced inner) :
    Balanced (row :: inner ++ [.closing]) := .braces opens inside .nil

end Balanced

namespace Statement

mutual

theorem balanced_rows : ∀ s : Statement, Balanced s.rows
  | compound body => .braced (fun _ => rfl) (balanced_allRows body)
  | assign _ _ => .single fun _ => rfl
  | call _ => .single fun _ => rfl
  | write _ => .single fun _ => rfl
  | ifThen _ body => balanced_guarded body (fun _ => rfl) fun _ => rfl
  | whileDo _ body => balanced_guarded body (fun _ => rfl) fun _ => rfl

/-- The brace around the body of an `if` or a `while` opens on its row. -/
theorem balanced_guarded : ∀ (body : Statement) {head : Bool → Row},
    (∀ n, (head true).nestingAfter n = n + 1) → (∀ n, (head false).nestingAfter n = n) →
    Balanced (head body.isCompound :: bodyRows body body.rows)
  | compound body, _, opens, _ => .braced opens (balanced_allRows body)
  | assign name value, _, _, flat => .cons flat (balanced_rows (assign name value))
  | call name, _, _, flat => .cons flat (balanced_rows (call name))
  | write value, _, _, flat => .cons flat (balanced_rows (write value))
  | ifThen cond body, _, _, flat => .cons flat (balanced_rows (ifThen cond body))
  | whileDo cond body, _, _, flat => .cons flat (balanced_rows (whileDo cond body))

theorem balanced_allRows : ∀ ss : List Statement, Balanced (allRows ss)
  | [] => .nil
  | s :: ss => (balanced_rows s).append (balanced_allRows ss)

end

end Statement

theorem balanced_symbols (ss : List Symbol) : Balanced (ss.map Symbol.row) := by
  induction ss with
  | nil => exact .nil
  | cons s ss ih => exact .cons (fun _ => rfl) ih

mutual

theorem Block.balanced_rows : ∀ b : Block, Balanced b.rows
  | ⟨_, procedures, statement⟩ =>
    (balanced_symbols _).append ((Procedure.balanced_allRows procedures).append statement.balanced_rows)

theorem Procedure.balanced_rows : ∀ p : Procedure, Balanced p.rows
  | ⟨_, block⟩ => .braced (fun _ => rfl) block.balanced_rows

theorem Procedure.balanced_allRows : ∀ ps : List Procedure, Balanced (Procedure.allRows ps)
  | [] => .nil
  | p :: ps => (Procedure.balanced_rows p).append (Procedure.balanced_allRows ps)

end

/-! ## Inside and outside braces -/

/-- The rows in front of the one that closes the brace around them, of rows that begin at a depth inside it. -/
def insideAt (n : Nat) : List Row → List Row
  | [] => []
  | row :: rows => if row.closes = true ∧ n = 0 then [] else row :: insideAt (row.nestingAfter n) rows

/-- What is read off the rows that stand in no braces, of rows that begin at a depth in them. A row is read with those
that follow it. -/
def gatherAt {α : Type} (f : Row → List Row → List α) (n : Nat) : List Row → List α
  | [] => []
  | row :: rows => (if n = 0 then f row rows else []) ++ gatherAt f (row.nestingAfter n) rows

namespace Balanced

variable {rows : List Row}

theorem insideAt_append (h : Balanced rows) (n : Nat) (rest : List Row) :
    insideAt n (rows ++ rest) = rows ++ insideAt n rest := by
  induction h generalizing n rest with
  | nil => rfl
  | @cons row rows flat _ ih =>
    have hrow : row.closes = false := Row.closes_eq_false (by rw [flat]; decide)
    rw [List.cons_append, insideAt, if_neg (by simp [hrow]), flat, ih]
    rfl
  | @braces row inner rows opens _ _ ihi ihr =>
    have hrow : row.closes = false := Row.closes_eq_false (by rw [opens]; decide)
    rw [List.cons_append, insideAt, if_neg (by simp [hrow]), opens, List.append_assoc, ihi, List.cons_append, insideAt,
      if_neg (by simp), Row.nestingAfter, Nat.add_sub_cancel, ihr]
    simp

/-- The body of a function is what stands in front of the brace that closes it. -/
theorem insideAt_closing (h : Balanced rows) (rest : List Row) : insideAt 0 (rows ++ .closing :: rest) = rows := by
  rw [h.insideAt_append, insideAt, if_pos ⟨rfl, rfl⟩, List.append_nil]

variable {α : Type} {f : Row → List Row → List α}

theorem gatherAt_append (h : Balanced rows) (n : Nat) (rest : List Row)
    (hf : n = 0 → ∀ row ∈ rows, ∀ tail, f row tail = []) : gatherAt f n (rows ++ rest) = gatherAt f n rest := by
  induction h generalizing n rest with
  | nil => rfl
  | @cons row rows flat _ ih =>
    have hrow : (if n = 0 then f row (rows ++ rest) else []) = [] :=
      ite_eq_right_iff.2 fun hn => hf hn row List.mem_cons_self _
    rw [List.cons_append, gatherAt, hrow, flat, ih n rest fun hn r hr => hf hn r (List.mem_cons_of_mem _ hr)]
    rfl
  | @braces row inner rows opens _ _ ihi ihr =>
    have hrow : ∀ tail, (if n = 0 then f row tail else []) = [] := fun tail =>
      ite_eq_right_iff.2 fun hn => hf hn row List.mem_cons_self _
    have hclosing : ∀ tail, (if n + 1 = 0 then f .closing tail else []) = [] := fun _ => if_neg n.succ_ne_zero
    rw [List.cons_append, gatherAt, hrow, opens, List.append_assoc, ihi (n + 1) _ (fun hn => absurd hn n.succ_ne_zero),
      List.cons_append, gatherAt, hclosing, Row.nestingAfter, Nat.add_sub_cancel,
      ihr n rest fun hn r hr => hf hn r (by simp [hr])]
    rfl

/-- Nothing is read inside the braces of a function. -/
theorem gatherAt_braces (h : Balanced rows) {row : Row} (opens : ∀ n, row.nestingAfter n = n + 1) (rest : List Row) :
    gatherAt f 0 (row :: rows ++ .closing :: rest) = f row (rows ++ .closing :: rest) ++ gatherAt f 0 rest := by
  rw [List.cons_append, gatherAt, if_pos rfl, opens, h.gatherAt_append 1 _ (fun hn => absurd hn (by decide)), gatherAt,
    if_neg (by decide)]
  rfl

end Balanced

namespace Statement

mutual

theorem declared?_rows : ∀ (s : Statement), ∀ row ∈ s.rows, row.declared? = none
  | compound body => by
    rw [rows, List.cons_append]
    exact List.forall_mem_cons.2 ⟨rfl, List.forall_mem_append.2 ⟨declared?_allRows body, by simp [Row.declared?]⟩⟩
  | assign _ _ | call _ | write _ => by simp [rows, Row.declared?]
  | ifThen _ body | whileDo _ body => by
    have hbody : ∀ row ∈ bodyRows body body.rows, row.declared? = none := by
      intro row hrow
      rw [bodyRows] at hrow
      split at hrow
      · exact declared?_rows body row (List.mem_of_mem_tail hrow)
      · exact declared?_rows body row hrow
    rw [rows]
    exact List.forall_mem_cons.2 ⟨rfl, hbody⟩

theorem declared?_allRows : ∀ (ss : List Statement), ∀ row ∈ allRows ss, row.declared? = none
  | [] => List.forall_mem_nil _
  | s :: ss => List.forall_mem_append.2 ⟨declared?_rows s, declared?_allRows ss⟩

end

end Statement

/-- What is read off the rows of a symbol and of a procedure where nothing else is read. -/
structure Gathers {α : Type} (f : Row → List Row → List α) (symbol : Symbol → List α)
    (procedure : Procedure → List α) : Prop where
  symbol : ∀ s tail, f s.row tail = symbol s
  procedure : ∀ q tail, f (.function q.name) (q.block.rows ++ .closing :: tail) = procedure q
  other : ∀ row tail, row.declared? = none → f row tail = []

section

variable {α : Type} {f : Row → List Row → List α} {g : Symbol → List α} {h : Procedure → List α}

theorem Gathers.symbols (hf : Gathers f g h) (ss : List Symbol) (rest : List Row) :
    gatherAt f 0 (ss.map Symbol.row ++ rest) = ss.flatMap g ++ gatherAt f 0 rest := by
  induction ss with
  | nil => rfl
  | cons s ss ih =>
    have hrow : s.row.nestingAfter 0 = 0 := rfl
    rw [List.map_cons, List.cons_append, gatherAt, if_pos rfl, hf.symbol, hrow, ih, List.flatMap_cons,
      List.append_assoc]

theorem Gathers.procedures (hf : Gathers f g h) (ps : List Procedure) (rest : List Row) :
    gatherAt f 0 (Procedure.allRows ps ++ rest) = ps.flatMap h ++ gatherAt f 0 rest := by
  induction ps with
  | nil => rfl
  | cons p ps ih =>
    obtain ⟨name, block⟩ := p
    have hopens : ∀ n, (Row.function name).nestingAfter n = n + 1 := fun _ => rfl
    have hp := hf.procedure ⟨name, block⟩ (Procedure.allRows ps ++ rest)
    rw [Procedure.allRows, Procedure.rows, List.flatMap_cons, List.append_assoc, List.append_assoc, List.append_assoc,
      ← ih, ← hp]
    exact block.balanced_rows.gatherAt_braces hopens (Procedure.allRows ps ++ rest)

/-- Outside all braces a body holds the symbols of its block and the heads of its procedures. -/
theorem Block.gatherAt_rows (hf : Gathers f g h) (b : Block) :
    gatherAt f 0 b.rows = b.symbols.toList.flatMap g ++ b.procedures.flatMap h := by
  obtain ⟨symbols, procedures, statement⟩ := b
  have hstatement : gatherAt f 0 (statement.rows ++ []) = [] :=
    statement.balanced_rows.gatherAt_append 0 [] fun _ row hrow tail =>
      hf.other row tail (statement.declared?_rows row hrow)
  rw [List.append_nil] at hstatement
  rw [Block.rows, hf.symbols, hf.procedures, hstatement, List.append_nil]

end

end PL0
