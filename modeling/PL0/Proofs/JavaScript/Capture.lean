/-
What the names of a script hide. A write calls the print function, and a quotient that is cut calls a function of
`Math`. Both are found at a place where no body around declares the name that the call begins with (`Unhidden`). Every
name that a script declares is that of a symbol or of a procedure, renamed (`mem_allDeclared_rows_iff`), and none is
renamed to a reserved one. So `Math` is found everywhere, and so is a print function that begins with a reserved name,
as the standard one does; any other is hidden by the names that are renamed to its first. Main statement:
`reaches_globals_iff`.
-/
import PL0.Proofs.JavaScript.Faithful
import PL0.Proofs.JavaScript.Reach

namespace PL0

open JavaScript

/-! ## The name that a call begins with -/

/-- A character of an identifier in JavaScript. Of the characters beyond ASCII it leaves out those that stand between
words: the blanks and the byte order mark. -/
def isIdentifierPart (c : Char) : Bool :=
  isNamePart c || (0x80 ≤ c.toNat && !Text.isBlank c && c ≠ '\uFEFF')

/-- The identifier or the number that a text begins with. -/
def leadingName (text : String) : String := String.ofList (text.toList.takeWhile isIdentifierPart)

/-- The identifier that the print function begins with. -/
def JavaScript.Config.printName (config : Config) : String := leadingName config.printFunction

/-! ## The names that a script declares -/

/-- The names that rows declare, inside braces and outside. -/
def allDeclared (rows : List Row) : List String := rows.filterMap Row.declared?

theorem allDeclared_append (a b : List Row) : allDeclared (a ++ b) = allDeclared a ++ allDeclared b :=
  List.filterMap_append

theorem allDeclared_cons (row : Row) (rows : List Row) :
    allDeclared (row :: rows) = row.declared?.toList ++ allDeclared rows := by
  rw [allDeclared, List.filterMap_cons]
  cases row.declared? <;> rfl

theorem declaredAt_subset (n : Nat) (rows : List Row) : declaredAt n rows ⊆ allDeclared rows := by
  induction rows generalizing n with
  | nil => exact List.Subset.refl _
  | cons row rows ih =>
    have hrow : unbraced n row.declared?.toList ⊆ row.declared?.toList := by
      unfold unbraced
      split
      · exact List.Subset.refl _
      · exact List.nil_subset _
    rw [declaredAt, allDeclared_cons]
    exact List.append_subset.2 ⟨List.subset_append_of_subset_left _ hrow, List.subset_append_of_subset_right _ (ih _)⟩

theorem Statement.allDeclared_rows (s : Statement) : allDeclared s.rows = [] :=
  List.filterMap_eq_nil_iff.2 s.declared?_rows

theorem allDeclared_symbols (ss : List Symbol) :
    allDeclared (ss.map Symbol.row) = ss.map fun s => rename s.name := by
  have hrow : Row.declared? ∘ Symbol.row = some ∘ fun s => rename s.name := rfl
  rw [allDeclared, List.filterMap_map, hrow, List.filterMap_eq_map]

variable {p : Program} {word : String}

/-- What a body declares, the script declares. -/
theorem Program.HasScope.mem_allDeclared {s : Scope} (hs : p.HasScope s) (h : word ∈ declared s.block.rows) :
    word ∈ allDeclared p.rows := by
  obtain ⟨above, head, foot, below, -, he⟩ := hs.exists_rows
  rw [he, allDeclared_append, allDeclared_cons, allDeclared_append]
  have hm : word ∈ allDeclared s.block.rows := declaredAt_subset 0 _ h
  simp [hm]

theorem Block.mem_declared_rows_of_symbol {b : Block} {s : Symbol} (h : s ∈ b.symbols.toList) :
    rename s.name ∈ declared b.rows := by
  rw [declared_rows]
  exact List.mem_map_of_mem (List.mem_append_left _ (List.mem_map_of_mem h))

theorem Block.mem_declared_rows_of_procedure {b : Block} {q : Procedure} (h : q ∈ b.procedures) :
    rename q.name ∈ declared b.rows := by
  rw [declared_rows]
  exact List.mem_map_of_mem (List.mem_append_right _ (List.mem_map_of_mem h))

mutual

/-- What is declared somewhere inside a block is declared by the body of the block or of one inside. -/
theorem Block.exists_scope_of_mem : ∀ {b : Block} {s : Scope}, p.HasScope s → s.block = b →
    word ∈ allDeclared b.rows → ∃ t, p.HasScope t ∧ word ∈ declared t.block.rows
  | ⟨symbols, procedures, statement⟩, s, hs, hb, h => by
    rw [Block.rows, allDeclared_append, allDeclared_append, statement.allDeclared_rows, List.append_nil,
      allDeclared_symbols] at h
    rcases List.mem_append.1 h with h | h
    · obtain ⟨x, hx, rfl⟩ := List.mem_map.1 h
      exact ⟨s, hs, Block.mem_declared_rows_of_symbol (by rwa [hb])⟩
    · exact Procedure.exists_scope_of_mem hs (fun q hq => by rwa [hb]) h

theorem Procedure.exists_scope_of_mem : ∀ {ps : List Procedure} {s : Scope}, p.HasScope s →
    (∀ q ∈ ps, q ∈ s.block.procedures) → word ∈ allDeclared (Procedure.allRows ps) →
    ∃ t, p.HasScope t ∧ word ∈ declared t.block.rows
  | [], _, _, _, h => absurd h List.not_mem_nil
  | ⟨name, block⟩ :: ps, s, hs, hps, h => by
    obtain ⟨hq, hps⟩ := List.forall_mem_cons.1 hps
    rw [Procedure.allRows, Procedure.rows, allDeclared_append, allDeclared_append, allDeclared_cons] at h
    rcases List.mem_append.1 h with h | h
    · rcases List.mem_append.1 h with h | h
      · rcases List.mem_append.1 h with h | h
        · obtain rfl : word = rename name := by simpa [Row.declared?] using h
          exact ⟨s, hs, Block.mem_declared_rows_of_procedure hq⟩
        · exact Block.exists_scope_of_mem (hs.child hq) rfl h
      · exact absurd h List.not_mem_nil
    · exact Procedure.exists_scope_of_mem hs hps h

end

/-- A script declares the names of its blocks, renamed. -/
theorem mem_allDeclared_rows_iff :
    word ∈ allDeclared p.rows ↔ ∃ s, p.HasScope s ∧ ∃ name ∈ s.block.names, rename name = word := by
  have hbody : ∀ s : Scope, word ∈ declared s.block.rows ↔ ∃ name ∈ s.block.names, rename name = word := by
    intro s
    rw [Block.declared_rows, List.mem_map]
  simp only [← hbody]
  constructor
  · intro h
    have hp : allDeclared p.rows = allDeclared p.block.rows := by
      rw [Program.rows, allDeclared_append, allDeclared_cons]
      simp [Row.declared?, allDeclared]
    rw [hp] at h
    exact Block.exists_scope_of_mem .root rfl h
  · rintro ⟨s, hs, h⟩
    exact hs.mem_allDeclared h

/-- A reserved name is not declared. -/
theorem not_mem_allDeclared_of_reserved (h : word ∈ reservedWords) : word ∉ allDeclared p.rows := by
  intro hm
  obtain ⟨-, -, name, -, he⟩ := mem_allDeclared_rows_iff.1 hm
  exact rename_not_mem_reservedWords name (he ▸ h)

/-! ## The names that are found -/

/-- None of the bodies around a place declares the name, so it is that of something outside the script. -/
def Unhidden (word : String) (bodies : List (List Row)) : Prop := ∀ body ∈ bodies, word ∉ declared body

theorem unhidden_bodies_iff {s : Scope} :
    Unhidden word s.bodies ↔ ∀ b ∈ s.blocks, ∀ name ∈ b.names, rename name ≠ word := by
  simp [Unhidden, Scope.bodies, Block.declared_rows]

theorem unhidden_of_reserved (h : word ∈ reservedWords) (s : Scope) : Unhidden word s.bodies :=
  unhidden_bodies_iff.2 fun _ _ name _ he => rename_not_mem_reservedWords name (he ▸ h)

/-- **The functions outside a script.** A program that is read from a text is written as a script, and a line of the
script that declares anything declares the name of a symbol or of a procedure, renamed. None declares `Math`, nor any
reserved name that the print function may begin with. None declares the name that the print function begins with
exactly where no name of the program is renamed to it; and in the body of a block that name is hidden exactly where a
name of the block or of a block around is renamed to it. -/
theorem reaches_globals_iff {source : String} (h : readSource source = .ok p) (config : Config) :
    emit config p = .ok (String.ofList (written config.indentWidth (p.code config 0))) ∧
      contents (p.code config 0) = p.rows.map (Row.fragment config) ∧
      "Math" ∉ allDeclared p.rows ∧
      (config.printName ∈ reservedWords → config.printName ∉ allDeclared p.rows) ∧
      (config.printName ∉ allDeclared p.rows ↔
        ∀ s, p.HasScope s → ∀ name ∈ s.block.names, rename name ≠ config.printName) ∧
      ∀ s, p.HasScope s → p.HasBodies s.bodies ∧ Unhidden "Math" s.bodies ∧
        (Unhidden config.printName s.bodies ↔ ∀ b ∈ s.blocks, ∀ name ∈ b.names, rename name ≠ config.printName) := by
  have hmath : "Math" ∈ reservedWords := by decide
  refine ⟨emit_of_plain (plain_of_readSource h), p.contents_code 0, not_mem_allDeclared_of_reserved hmath,
    not_mem_allDeclared_of_reserved, ?_, fun s hs => ⟨hs.hasBodies, unhidden_of_reserved hmath s, unhidden_bodies_iff⟩⟩
  rw [mem_allDeclared_rows_iff]
  simp

/-- Writes the half of a variable `Math` in a procedure. -/
def halver : Procedure :=
  ⟨"p", ⟨.ofList [⟨"Math", .variable, 1⟩], [],
    .write (.binary .divide (.operand (.ident "Math")) (.operand (.number 2)))⟩⟩

/-- A block with a variable `printed` around it. -/
def printing : Block := ⟨.ofList [⟨"printed", .variable, 1⟩], [halver], .call "p"⟩

/-- The print function `print.line` and `Math` are found in the procedure. -/
theorem reaches_globals_iff_printing :
    readSource "var printed; procedure p; var Math; ! Math / 2; call p." = .ok ⟨printing⟩ ∧
      Program.HasScope ⟨printing⟩ ((Scope.root printing).child halver.block) ∧
      Config.printName ⟨2, "print.line", true⟩ = "print" ∧
      "Math" ∉ allDeclared (Program.rows ⟨printing⟩) ∧
      Unhidden "Math" [halver.block.rows, printing.rows] ∧ Unhidden "print" [halver.block.rows, printing.rows] := by
  have hread : readSource "var printed; procedure p; var Math; ! Math / 2; call p." = .ok ⟨printing⟩ := by cbv
  have hs : Program.HasScope ⟨printing⟩ ((Scope.root printing).child halver.block) := .child .root List.mem_cons_self
  have hname : Config.printName ⟨2, "print.line", true⟩ = "print" := by decide
  obtain ⟨-, -, hmath, -, -, hfound⟩ := reaches_globals_iff hread ⟨2, "print.line", true⟩
  obtain ⟨-, hmath', hprint⟩ := hfound _ hs
  rw [hname] at hprint
  exact ⟨hread, hs, hname, hmath, hmath', hprint.2 (by decide)⟩

/-- A variable `print` beside a write. -/
def printless : Block := ⟨.ofList [⟨"print", .variable, 1⟩], [], .write (.operand (.number 1))⟩

/-- The variable hides the print function of its name. -/
theorem hides_print_function :
    ¬∀ source p config, readSource source = .ok p → Config.printName config ∉ allDeclared p.rows ∧
      (config.truncateDivision = true → "Math" ∉ allDeclared p.rows) := by
  intro h
  have hread : readSource "var print; ! 1." = .ok ⟨printless⟩ := by cbv
  have hprint : Config.printName ⟨2, "print", false⟩ ∉ allDeclared (Program.rows ⟨printless⟩) := (h _ _ _ hread).1
  exact absurd hprint (by decide)

end PL0
