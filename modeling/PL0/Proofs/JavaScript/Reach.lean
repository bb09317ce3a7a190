/-
The function that a call reaches. A function replaces those of its name that are declared before it in the same body,
and a name belongs to the innermost body around that declares it: a call reaches the last function of its name there
(`Reaches`). A name of the program refers to the first procedure of its name in the same block, so its call reaches
that procedure exactly where no other one of the name follows. Main statement: `reaches_resolved_iff`.
-/
import Mathlib.Order.SuccPred.Archimedean
import PL0.Proofs.JavaScript.Declared
import PL0.Proofs.Nesting

namespace PL0

open JavaScript

/-! ## The functions of a body -/

/-- A function of a script, with the rows of its body. -/
structure Routine where
  name : String
  body : List Row

/-- The function that a row begins; its body ends with the rows that follow. -/
def Row.routine? : Row → List Row → Option Routine
  | function name, rows => some ⟨rename name, insideAt 0 rows⟩
  | _, _ => none

/-- The functions that a body declares. -/
def routines (body : List Row) : List Routine := gatherAt (fun row rows => (row.routine? rows).toList) 0 body

/-- What a procedure is written as. -/
def Procedure.routine (q : Procedure) : Routine := ⟨rename q.name, q.block.rows⟩

theorem gathers_routines :
    Gathers (fun row rows => (row.routine? rows).toList) (fun _ => []) (fun q => [q.routine]) where
  symbol _ _ := rfl
  procedure q tail := by
    rw [Row.routine?, q.block.balanced_rows.insideAt_closing]
    rfl
  other row _ h := by
    cases row with
    | declare | function => cases h
    | _ => rfl

/-- The functions of a body are the procedures of its block in their order. -/
theorem Block.routines_rows (b : Block) : routines b.rows = b.procedures.map Procedure.routine := by
  rw [routines, gatherAt_rows gathers_routines, List.map_eq_flatMap, List.flatMap_eq_nil_iff.2 fun _ _ => rfl,
    List.nil_append]

/-- The bodies around a place of a program in JavaScript, from the inside outwards. -/
inductive Program.HasBodies (p : Program) : List (List Row) → Prop
  | script {body : List Row} (written : ∀ config depth,
      contents (p.code config depth) = (Row.prologue :: body ++ [Row.epilogue]).map (Row.fragment config)) :
    p.HasBodies [body]
  | function {f : Routine} {body : List Row} {outer : List (List Row)} (around : p.HasBodies (body :: outer))
      (inside : f ∈ routines body) : p.HasBodies (f.body :: body :: outer)

/-- The bodies of the blocks of a scope, from the inside outwards. -/
def Scope.bodies (s : Scope) : List (List Row) := s.blocks.map Block.rows

theorem Program.HasScope.hasBodies {p : Program} {s : Scope} (h : p.HasScope s) : p.HasBodies s.bodies := by
  induction h with
  | root => exact .script fun config depth => p.contents_code depth
  | @child s q outer inside ih =>
    have hq : q.routine ∈ routines s.block.rows := by
      rw [Block.routines_rows]
      exact List.mem_map_of_mem inside
    exact .function ih hq

/-! ## Calls -/

/-- The places of a name among the functions of a body. -/
def places (name : String) (body : List Row) : Set Nat := {i | ∃ f, (routines body)[i]? = some f ∧ f.name = name}

theorem bddAbove_places (name : String) (body : List Row) : BddAbove (places name body) :=
  ⟨(routines body).length, fun _ ⟨_, hf, _⟩ => (List.getElem?_eq_some_iff.1 hf).1.le⟩

/-- The function that the call of a name reaches: it is the last one of the name in the first body that declares the
name, of bodies from the inside outwards. It is told by the place of the body and its place there. -/
inductive Reaches (name : String) : List (List Row) → Nat → Nat → Prop
  | here {body : List Row} {outer : List (List Row)} {i : Nat} (last : IsGreatest (places name body) i) :
    Reaches name (body :: outer) 0 i
  | further {body : List Row} {outer : List (List Row)} {k i : Nat} (undeclared : name ∉ declared body)
      (reaches : Reaches name outer k i) : Reaches name (body :: outer) (k + 1) i

namespace Block

variable {b : Block} {name : String}

theorem isName_of_declares (hb : b.Plain) (h : b.Declares name) : IsName name :=
  isName_of_mem_names hb name (List.mem_append.2 h)

theorem mem_declared_rows_iff (hb : b.Plain) (hn : IsName name) :
    rename name ∈ declared b.rows ↔ b.Declares name := by
  rw [declared_rows, List.mem_map]
  constructor
  · rintro ⟨name', hm, he⟩
    rw [← rename_inj (isName_of_mem_names hb _ hm) hn he]
    exact List.mem_append.1 hm
  · intro h
    exact ⟨name, List.mem_append.2 h, rfl⟩

/-- A renamed name stands where the name stands among the procedures. -/
theorem mem_places_rows_iff (hb : b.Plain) (hn : IsName name) {i : Nat} :
    i ∈ places (rename name) b.rows ↔ ∃ q, b.procedures[i]? = some q ∧ q.name = name := by
  rw [places, routines_rows, Set.mem_ofPred_eq]
  constructor
  · rintro ⟨f, hf, he⟩
    rw [List.getElem?_map] at hf
    obtain ⟨q, hq, rfl⟩ := Option.map_eq_some_iff.1 hf
    have hqn : IsName q.name := (plain_of_mem hb q (List.mem_of_getElem? hq)).1
    exact ⟨q, hq, rename_inj hqn hn he⟩
  · rintro ⟨q, hq, rfl⟩
    exact ⟨q.routine, by rw [List.getElem?_map, hq, Option.map_some], rfl⟩

theorem declares_of_mem_places (hb : b.Plain) (hn : IsName name) {i : Nat}
    (h : i ∈ places (rename name) b.rows) : b.Declares name := by
  obtain ⟨q, hq, rfl⟩ := (mem_places_rows_iff hb hn).1 h
  exact .inr (List.mem_map_of_mem (List.mem_of_getElem? hq))

end Block

/-- A call passes the bodies of the blocks that do not declare the name, and stops at the next. -/
theorem reaches_iff_of_split {name : String} {inner outer : List Block} {b : Block} {i : Nat}
    (hplain : ∀ c ∈ inner ++ b :: outer, c.Plain) (hn : IsName name) (hno : ∀ c ∈ inner, ¬c.Declares name)
    (hi : IsGreatest (places (rename name) b.rows) i) (k j : Nat) :
    Reaches (rename name) ((inner ++ b :: outer).map Block.rows) k j ↔ k = inner.length ∧ j = i := by
  induction inner generalizing k with
  | nil =>
    have hb : b.Plain := hplain b (by simp)
    constructor
    · intro h
      cases h with
      | here last => exact ⟨rfl, last.unique hi⟩
      | further undeclared _ =>
        exact absurd ((Block.mem_declared_rows_iff hb hn).2 (Block.declares_of_mem_places hb hn hi.1)) undeclared
    · rintro ⟨rfl, rfl⟩
      exact .here hi
  | cons c inner ih =>
    obtain ⟨hc, hplain⟩ := List.forall_mem_cons.1 hplain
    obtain ⟨hcno, hno⟩ := List.forall_mem_cons.1 hno
    constructor
    · intro h
      cases h with
      | here last => exact absurd (Block.declares_of_mem_places hc hn last.1) hcno
      | further _ reaches =>
        obtain ⟨rfl, rfl⟩ := (ih hplain hno _).1 reaches
        exact ⟨rfl, rfl⟩
    · rintro ⟨rfl, rfl⟩
      exact .further (fun h => hcno ((Block.mem_declared_rows_iff hc hn).1 h)) ((ih hplain hno _).2 ⟨rfl, rfl⟩)

/-- The last place of a name is that of a procedure exactly where no other one of the name follows. -/
theorem eq_length_iff_of_isGreatest {ps before after : List Procedure} {q : Procedure} {i : Nat}
    (hps : ps = before ++ q :: after) (hi : IsGreatest {i | ∃ r, ps[i]? = some r ∧ r.name = q.name} i) :
    i = before.length ↔ q.name ∉ after.map (·.name) := by
  subst hps
  have hle : before.length ≤ i := hi.2 ⟨q, by simp, rfl⟩
  constructor
  · rintro rfl hm
    obtain ⟨r, hr, hrn⟩ := List.mem_map.1 hm
    obtain ⟨m, hm⟩ := List.mem_iff_getElem?.1 hr
    have hlater : (before ++ q :: after)[before.length + (m + 1)]? = some r := by
      rw [List.getElem?_append_right (by omega), Nat.add_sub_cancel_left, List.getElem?_cons_succ, hm]
    have : before.length + (m + 1) ≤ before.length := hi.2 ⟨r, hlater, hrn⟩
    omega
  · intro hno
    obtain ⟨r, hr, hrn⟩ := hi.1
    by_contra hne
    obtain ⟨m, rfl⟩ : ∃ m, i = before.length + (m + 1) := ⟨i - before.length - 1, by omega⟩
    rw [List.getElem?_append_right (by omega), Nat.add_sub_cancel_left, List.getElem?_cons_succ] at hr
    exact hno (List.mem_map.2 ⟨r, List.mem_of_getElem? hr, hrn⟩)

theorem Program.HasScope.plain_blocks {p : Program} {s : Scope} (hp : p.Plain) (h : p.HasScope s) :
    ∀ b ∈ s.blocks, b.Plain := by
  induction h with
  | root => exact List.forall_mem_singleton.2 hp
  | child outer inside ih => exact List.forall_mem_cons.2 ⟨(outer.child inside).plain hp, ih⟩

/-- **The call of a procedure.** Where a name refers to a procedure of a program that is read from a text, the call of
the renamed name reaches exactly one function. It is one of the functions that the procedures of the same block are
written as, in their order; and it is that of the procedure, the first of its name there, exactly where no other one
of the name follows. -/
theorem reaches_resolved_iff {source name : String} {p : Program} {s : Scope} {q : Procedure} {d : Nat}
    (h : readSource source = .ok p) (hs : p.HasScope s) (hres : s.resolve? name = some ⟨.procedure q, d⟩) :
    p.HasBodies s.bodies ∧ ∃ b before after i, s.blocks[d]? = some b ∧
      b.procedures = before ++ q :: after ∧ name ∉ before.map (·.name) ∧
      routines b.rows = b.procedures.map Procedure.routine ∧
      (∀ k j, Reaches (rename name) s.bodies k j ↔ k = d ∧ j = i) ∧
      (i = before.length ↔ name ∉ after.map (·.name)) := by
  obtain ⟨inner, b, outer, hsplit, rfl, hno, hb⟩ := Scope.split_of_find? hres
  have hplain := hs.plain_blocks (plain_of_readSource h)
  have hblocks : s.blocks = inner ++ b :: outer := hsplit
  rw [hblocks] at hplain
  have hbp : b.Plain := hplain b (by simp)
  have hn : IsName name := Block.isName_of_declares hbp hb.declares
  cases hb with
  | @procedure before after _ undeclared hps named first =>
    subst named
    have hplaces : places (rename q.name) b.rows = {i | ∃ r, b.procedures[i]? = some r ∧ r.name = q.name} :=
      Set.ext fun i => Block.mem_places_rows_iff hbp hn
    have hq : before.length ∈ places (rename q.name) b.rows := by
      rw [hplaces, hps]
      exact ⟨q, by simp, rfl⟩
    obtain ⟨i, hi⟩ := (bddAbove_places _ _).exists_isGreatest_of_nonempty ⟨_, hq⟩
    refine ⟨hs.hasBodies, b, before, after, i, by rw [hblocks]; simp, hps, first, b.routines_rows, fun k j => ?_, ?_⟩
    · rw [Scope.bodies, hblocks]
      exact reaches_iff_of_split hplain hn hno hi k j
    · rw [hplaces] at hi
      exact eq_length_iff_of_isGreatest hps hi

def one : Expr := .operand (.number 1)

/-- A procedure `p` that writes a value. -/
def writing (value : Expr) : Procedure := ⟨"p", ⟨.empty, [], .write value⟩⟩

theorem writing_injective : Function.Injective writing := fun _ _ h => by simpa [writing] using h

/-- A procedure `q` that calls `p`. -/
def calling : Procedure := ⟨"q", ⟨.empty, [], .call "p"⟩⟩

/-- The procedures `p` and `q`, the second of which calls the first. -/
def neighbours : Block := ⟨.empty, [writing one, calling], .call "q"⟩

/-- The call of `p` in `q` reaches the function of `p` one body out. -/
theorem reaches_resolved_iff_neighbours :
    readSource "procedure p; ! 1; procedure q; call p; call q." = .ok ⟨neighbours⟩ ∧
      Program.HasScope ⟨neighbours⟩ ((Scope.root neighbours).child calling.block) ∧
      ((Scope.root neighbours).child calling.block).resolve? "p" = some ⟨.procedure (writing one), 1⟩ ∧
      Reaches (rename "p") [calling.block.rows, neighbours.rows] 1 0 := by
  have hread : readSource "procedure p; ! 1; procedure q; call p; call q." = .ok ⟨neighbours⟩ := by cbv
  have hs : Program.HasScope ⟨neighbours⟩ ((Scope.root neighbours).child calling.block) :=
    .child .root (List.mem_cons_of_mem _ List.mem_cons_self)
  have hres : ((Scope.root neighbours).child calling.block).resolve? "p" = some ⟨.procedure (writing one), 1⟩ := by cbv
  refine ⟨hread, hs, hres, ?_⟩
  obtain ⟨-, b, before, after, i, hb, hps, -, -, hreach, hi⟩ := reaches_resolved_iff hread hs hres
  obtain rfl := Option.some.inj hb
  cases before with
  | nil =>
    obtain rfl : [calling] = after := (List.cons.inj hps).2
    exact (hreach 1 0).2 ⟨rfl, (hi.2 (by decide)).symm⟩
  | cons _ before =>
    -- `q` is not `p`, and there is no third procedure
    cases before with
    | nil => exact absurd (congrArg (List.map (·.name)) hps) (by simp [neighbours, writing, calling, Scope.root])
    | cons => exact absurd (congrArg List.length hps) (by simp [neighbours, Scope.root])

/-- Two procedures of one name. -/
def rivals : Block := ⟨.empty, [writing one, writing (.binary .plus one one)], .call "p"⟩

/-- The name `p` refers to the first of two procedures, and the call of `p` reaches the second. -/
theorem reaches_other_procedure :
    ¬∀ source p s name q d, readSource source = .ok p → p.HasScope s → s.resolve? name = some ⟨.procedure q, d⟩ →
      ∃ k b i, s.blocks[k]? = some b ∧ b.procedures[i]? = some q ∧ Reaches (rename name) s.bodies k i := by
  intro h
  have hread : readSource "procedure p; ! 1; procedure p; ! 1 + 1; call p." = .ok ⟨rivals⟩ := by cbv
  have hres : (Scope.root rivals).resolve? "p" = some ⟨.procedure (writing one), 0⟩ := by cbv
  have hsecond : 1 ∈ places (rename "p") rivals.rows :=
    ⟨(writing (.binary .plus one one)).routine, by rw [Block.routines_rows]; rfl, rfl⟩
  obtain ⟨k, b, i, hb, hi, hreach⟩ := h _ _ _ _ _ _ hread .root hres
  replace hb : [rivals][k]? = some b := hb
  replace hreach : Reaches (rename "p") [rivals.rows] k i := hreach
  cases hreach with
  | here last =>
    obtain rfl := Option.some.inj hb
    have hle : 1 ≤ i := last.2 hsecond
    rcases i with _ | _ | i
    · exact absurd hle (by decide)
    · exact absurd (writing_injective (Option.some.inj hi)) (by decide)
    · cases hi
  | further _ reaches => cases reaches

end PL0
