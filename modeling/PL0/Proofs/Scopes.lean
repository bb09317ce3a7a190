/-
The scopes of a program: that of its block and, inside each of them, those of the blocks of its procedures. Main
statements: the blocks of a plain program are plain (`Program.HasScope.plain`), and each block is written as the body
of a function (`Program.HasScope.hasBody`).
-/
import PL0.Proofs.JavaScript.Rows
import PL0.Proofs.Plain
import PL0.Scope

namespace PL0

/-- The scope is one of the program. -/
inductive Program.HasScope (p : Program) : Scope → Prop
  | root : p.HasScope (.root p.block)
  | child {s : Scope} {q : Procedure} (outer : p.HasScope s) (inside : q ∈ s.block.procedures) :
    p.HasScope (s.child q.block)

theorem Procedure.plain_of_mem {ps : List Procedure} (h : AllPlain ps) : ∀ q ∈ ps, q.Plain := by
  induction ps with
  | nil => nofun
  | cons p ps ih => exact List.forall_mem_cons.2 ⟨h.1, ih h.2⟩

theorem Block.plain_of_mem {b : Block} (h : b.Plain) : ∀ q ∈ b.procedures, IsName q.name ∧ q.block.Plain := by
  obtain ⟨symbols, procedures, statement⟩ := b
  intro q hq
  obtain ⟨name, block⟩ := q
  exact Procedure.plain_of_mem h.2.1 _ hq

theorem Program.HasScope.plain {p : Program} {s : Scope} (hp : p.Plain) (h : p.HasScope s) : s.block.Plain := by
  induction h with
  | root => exact hp
  | @child s q outer inside ih => exact (Block.plain_of_mem ih q inside).2

/-! ## The rows of a block inside the program -/

theorem Procedure.exists_allRows_of_mem {ps : List Procedure} {q : Procedure} (h : q ∈ ps) :
    ∃ above below, allRows ps = above ++ (q.rows ++ below) := by
  induction ps with
  | nil => cases h
  | cons p ps ih =>
    rcases List.mem_cons.1 h with rfl | h
    · exact ⟨[], allRows ps, by rw [allRows]; rfl⟩
    · obtain ⟨above, below, he⟩ := ih h
      exact ⟨p.rows ++ above, below, by rw [allRows, he, List.append_assoc]⟩

theorem Block.exists_rows_of_mem {b : Block} {q : Procedure} (h : q ∈ b.procedures) :
    ∃ above below, b.rows = above ++ (q.rows ++ below) := by
  obtain ⟨symbols, procedures, statement⟩ := b
  obtain ⟨above, below, he⟩ := Procedure.exists_allRows_of_mem h
  exact ⟨symbols.toList.map Symbol.row ++ above, below ++ statement.rows, by simp [rows, he]⟩

/-- What opens and what closes the body of a function. -/
inductive Enclose : Row → Row → Prop
  | program : Enclose .prologue .epilogue
  | function (name : String) : Enclose (.function name) .closing

theorem Program.HasScope.exists_rows {p : Program} {s : Scope} (h : p.HasScope s) :
    ∃ above head foot below, Enclose head foot ∧ p.rows = above ++ head :: (s.block.rows ++ foot :: below) := by
  induction h with
  | root => exact ⟨[], .prologue, .epilogue, [], .program, rfl⟩
  | @child s q outer inside ih =>
    obtain ⟨above, head, foot, below, -, he⟩ := ih
    obtain ⟨before, after, hq⟩ := Block.exists_rows_of_mem inside
    obtain ⟨name, block⟩ := q
    refine ⟨above ++ head :: before, .function name, .closing, after ++ foot :: below, .function name, ?_⟩
    rw [he, hq, Procedure.rows]
    simp [Scope.child]

/-- The rows are written as the body of one of the functions of a program. -/
def Program.HasBody (p : Program) (body : List Row) : Prop :=
  ∃ above head foot below, Enclose head foot ∧ ∀ config depth,
    contents (p.code config depth) = (above ++ head :: (body ++ foot :: below)).map (Row.fragment config)

theorem Program.HasScope.hasBody {p : Program} {s : Scope} (h : p.HasScope s) : p.HasBody s.block.rows := by
  obtain ⟨above, head, foot, below, hf, he⟩ := h.exists_rows
  exact ⟨above, head, foot, below, hf, fun config depth => by rw [p.contents_code, he]⟩

end PL0
