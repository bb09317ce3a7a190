/-
The names that a function body declares in JavaScript: one for each `const`, `let` and `function` that stands in no
braces inside the body. Reading them off the rows of a block gives its symbols and then its procedures
(`Block.declared_rows`). A symbol replaces the one of its name, and a procedure is added to those that there are; so
they are distinct exactly where no procedure has the name of another or of a symbol. Main statement:
`declared_nodup_iff`.
-/
import PL0.Proofs.JavaScript.Braces
import PL0.Proofs.JavaScript.Expression
import PL0.Proofs.Scopes

namespace PL0

open JavaScript

/-! ## Reading declarations off rows -/

/-- What is read at a depth in braces: nothing inside any. -/
def unbraced (n : Nat) (names : List String) : List String := if n = 0 then names else []

/-- The names that rows declare which begin at a depth in braces. -/
def declaredAt (n : Nat) : List Row → List String
  | [] => []
  | row :: rows => unbraced n row.declared?.toList ++ declaredAt (row.nestingAfter n) rows

/-- The names that rows declare outside all braces that open among them. -/
def declared (rows : List Row) : List String := declaredAt 0 rows

theorem declaredAt_eq_gatherAt (n : Nat) (rows : List Row) :
    declaredAt n rows = gatherAt (fun row _ => row.declared?.toList) n rows := by
  induction rows generalizing n with
  | nil => rfl
  | cons row rows ih => rw [declaredAt, gatherAt, ih, unbraced]

theorem gathers_declared :
    Gathers (fun row _ => row.declared?.toList) (fun s => [rename s.name]) (fun q => [rename q.name]) where
  symbol _ _ := rfl
  procedure _ _ := rfl
  other _ _ h := by rw [h, Option.toList_none]

/-- The names of a block: of its symbols, then of its procedures. -/
def Block.names (b : Block) : List String := b.symbols.names ++ b.procedures.map (·.name)

/-- A body declares the symbols of its block and then the procedures. -/
theorem Block.declared_rows (b : Block) : declared b.rows = b.names.map rename := by
  rw [declared, declaredAt_eq_gatherAt, gatherAt_rows gathers_declared, names, Declarations.names, List.map_append,
    List.map_map, List.map_map, List.map_eq_flatMap, List.map_eq_flatMap]
  rfl

/-! ## Distinct names -/

theorem Block.names_nodup_iff (b : Block) : b.names.Nodup ↔
    (b.procedures.map (·.name)).Nodup ∧ ∀ q ∈ b.procedures, q.name ∉ b.symbols.names := by
  rw [names, List.nodup_append']
  have hsym : b.symbols.names.Nodup := b.symbols.nodup
  simp [hsym, List.disjoint_right]

theorem Block.isName_of_mem_names {b : Block} (h : b.Plain) : ∀ name ∈ b.names, IsName name := by
  intro name hm
  rcases List.mem_append.1 hm with hm | hm
  · obtain ⟨symbols, procedures, statement⟩ := b
    obtain ⟨s, hs, rfl⟩ := List.mem_map.1 hm
    exact (h.1 s hs).1
  · obtain ⟨q, hq, rfl⟩ := List.mem_map.1 hm
    exact (Block.plain_of_mem h q hq).1

/-- **Distinct declarations.** Each block of a program that is read from a text is written as the body of a function,
and the body declares no name twice exactly where no procedure of the block has the name of another or of a symbol. -/
theorem declared_nodup_iff {source : String} {p : Program} {s : Scope} (h : readSource source = .ok p)
    (hs : p.HasScope s) : p.HasBody s.block.rows ∧ ((declared s.block.rows).Nodup ↔
      (s.block.procedures.map (·.name)).Nodup ∧ ∀ q ∈ s.block.procedures, q.name ∉ s.block.symbols.names) := by
  refine ⟨hs.hasBody, ?_⟩
  have hname := Block.isName_of_mem_names (hs.plain (plain_of_readSource h))
  rw [Block.declared_rows, ← Block.names_nodup_iff]
  refine ⟨List.Nodup.of_map rename, List.Nodup.map_on fun name hm name' hm' he => ?_⟩
  exact rename_injective (dollar_not_mem (hname name hm)) (dollar_not_mem (hname name' hm')) he

/-- `procedure p` with a variable and a procedure `q` inside. -/
def nested : Procedure :=
  ⟨"p", ⟨.ofList [⟨"a", .variable, 1⟩], [⟨"q", ⟨.empty, [], .write (.operand (.ident "a"))⟩⟩], .call "q"⟩⟩

/-- The body of `p` declares `a` and `q`. -/
theorem declared_nodup_iff_nested :
    readSource "const a = 1; procedure p; var a; procedure q; ! a; call q; call p." =
        .ok ⟨⟨.ofList [⟨"a", .constant 1, 1⟩], [nested], .call "p"⟩⟩ ∧
      Program.HasBody ⟨⟨.ofList [⟨"a", .constant 1, 1⟩], [nested], .call "p"⟩⟩ nested.block.rows ∧
      (declared nested.block.rows).Nodup := by
  have hread : readSource "const a = 1; procedure p; var a; procedure q; ! a; call q; call p." =
      .ok ⟨⟨.ofList [⟨"a", .constant 1, 1⟩], [nested], .call "p"⟩⟩ := by cbv
  have h := declared_nodup_iff hread (.child .root List.mem_cons_self)
  exact ⟨hread, h.1, h.2.2 ⟨by decide, by decide⟩⟩

/-- A variable and a procedure of one name. -/
def doubled : Block :=
  ⟨.ofList [⟨"x", .variable, 1⟩], [⟨"x", ⟨.empty, [], .write (.operand (.number 1))⟩⟩], .write (.operand (.number 2))⟩

/-- The body declares `x` with `let` and as a function. -/
theorem declared_twice :
    ¬∀ source p s, readSource source = .ok p → p.HasScope s → (declared s.block.rows).Nodup := by
  intro h
  have hread : readSource "var x; procedure x; ! 1; ! 2." = .ok ⟨doubled⟩ := by cbv
  have hdistinct := h _ _ _ hread .root
  rw [show (Scope.root doubled).block = doubled from rfl, Block.declared_rows] at hdistinct
  exact absurd (List.Nodup.of_map rename hdistinct) (by decide)

end PL0
