/-
What is made of a program does not show the lines of its symbols: without them it is written the same, outlined the
same and has as many nodes. A name is looked up by its text alone, so it is found at the same distance and described
the same. Main statements: `Program.emit_eraseLines`, `Program.outline_eraseLines` and
`Program.nodeCount_eraseLines`.
-/
import PL0.JavaScript.Emitter
import PL0.Outline
import PL0.Proofs.Lines

namespace PL0

/-! ## Declarations -/

theorem Symbol.map_eraseLine_declare (s : Symbol) (ts : List Symbol) :
    (declare s ts).map eraseLine = declare s.eraseLine (ts.map eraseLine) := by
  induction ts with
  | nil => rfl
  | cons t ts ih =>
    by_cases h : t.name = s.name
    · simp [declare, eraseLine, h]
    · have h' : t.eraseLine.name ≠ s.eraseLine.name := h
      rw [declare, if_neg h, List.map_cons, ih, List.map_cons, declare, if_neg h']

theorem Declarations.eraseLines_insert (d : Declarations) (s : Symbol) :
    (d.insert s).eraseLines = d.eraseLines.insert s.eraseLine :=
  Declarations.ext_toList (s.map_eraseLine_declare d.toList)

theorem Declarations.get?_eraseLines (d : Declarations) (name : String) :
    d.eraseLines.get? name = (d.get? name).map Symbol.eraseLine :=
  List.find?_map

/-! ## Names and what they refer to -/

theorem Procedure.eraseAllLines_eq_map (ps : List Procedure) : eraseAllLines ps = ps.map eraseLines := by
  induction ps with
  | nil => rfl
  | cons p ps ih => rw [eraseAllLines, ih, List.map_cons]

def Binding.eraseLines : Binding → Binding
  | symbol s => .symbol s.eraseLine
  | procedure p => .procedure p.eraseLines

def Resolution.eraseLines (r : Resolution) : Resolution := { r with binding := r.binding.eraseLines }

theorem Resolution.describe_eraseLines (r : Resolution) : r.eraseLines.describe = r.describe := by
  obtain ⟨binding, distance⟩ := r
  cases binding with
  | symbol s => obtain ⟨name, role, line⟩ := s; cases role <;> rfl
  | procedure p => rfl

theorem Block.procedure?_eraseLines (b : Block) (name : String) :
    b.eraseLines.procedure? name = (b.procedure? name).map Procedure.eraseLines := by
  obtain ⟨symbols, procedures, statement⟩ := b
  rw [Block.eraseLines, Block.procedure?, Procedure.eraseAllLines_eq_map, List.find?_map]
  refine congrArg (Option.map _) (congrArg (List.find? · procedures) (funext fun p => ?_))
  obtain ⟨name', block⟩ := p
  rfl

theorem Block.binding?_eraseLines (b : Block) (name : String) :
    b.eraseLines.binding? name = (b.binding? name).map Binding.eraseLines := by
  have hs : b.eraseLines.symbols.get? name = (b.symbols.get? name).map Symbol.eraseLine := by
    obtain ⟨symbols, procedures, statement⟩ := b
    exact symbols.get?_eraseLines name
  rw [Block.binding?, Block.binding?, hs, b.procedure?_eraseLines]
  cases b.symbols.get? name with
  | some s => rfl
  | none => cases b.procedure? name <;> rfl

/-- Blocks without lines give the same answer without lines. -/
theorem Scope.find?_map_eraseLines (name : String) (bs : List Block) :
    find? name (bs.map Block.eraseLines) = (find? name bs).map Resolution.eraseLines := by
  induction bs with
  | nil => rfl
  | cons b outer ih =>
    rw [List.map_cons, find?, find?, b.binding?_eraseLines, ih]
    cases b.binding? name with
    | some binding => rfl
    | none => cases find? name outer <;> rfl

def Scope.eraseLines (s : Scope) : Scope := ⟨s.block.eraseLines, s.enclosing.map Block.eraseLines⟩

theorem Scope.annotate_eraseLines (s : Scope) : s.eraseLines.annotate = s.annotate := by
  funext name
  have h : s.eraseLines.resolve? name = (s.resolve? name).map Resolution.eraseLines :=
    find?_map_eraseLines name (s.block :: s.enclosing)
  rw [annotate, annotate, h, Option.map_map]
  exact congrArg (fun describe => name ++ " <" ++ ((s.resolve? name).map describe).getD "unresolved" ++ ">")
    (funext Resolution.describe_eraseLines)

/-! ## Outlines -/

section

variable {s s' : Scope}

/-- An outline sees of a scope only how it annotates names. -/
theorem Expr.outline_congr (h : s.annotate = s'.annotate) (e : Expr) : e.outline s = e.outline s' := by
  have hleaf : s.annotateOperand = s'.annotateOperand := by
    funext leaf
    cases leaf with
    | number value => rfl
    | ident name => exact congrFun h name
  rw [outline, outline, hleaf]

theorem Condition.outline_congr (h : s.annotate = s'.annotate) (c : Condition) (depth : Nat) :
    c.outline s depth = c.outline s' depth := by
  cases c with
  | odd inner => rw [outline, outline, inner.outline_congr h]
  | compare rel left right => rw [outline, outline, left.outline_congr h, right.outline_congr h]

mutual

theorem Statement.outline_congr (h : s.annotate = s'.annotate) : ∀ (stmt : Statement) (depth : Nat),
    stmt.outline s depth = stmt.outline s' depth
  | .compound body, depth => by
    rw [Statement.outline, Statement.outline, Statement.outlineAll_congr h body]
  | .assign name value, depth => by
    rw [Statement.outline, Statement.outline, h, value.outline_congr h]
  | .call name, depth => by rw [Statement.outline, Statement.outline, h]
  | .write value, depth => by rw [Statement.outline, Statement.outline, value.outline_congr h]
  | .ifThen cond body, depth | .whileDo cond body, depth => by
    rw [Statement.outline, Statement.outline, cond.outline_congr h, Statement.outline_congr h body]

theorem Statement.outlineAll_congr (h : s.annotate = s'.annotate) : ∀ (stmts : List Statement) (depth : Nat),
    Statement.outlineAll s depth stmts = Statement.outlineAll s' depth stmts
  | [], _ => rfl
  | first :: others, depth => by
    rw [Statement.outlineAll, Statement.outlineAll, Statement.outline_congr h first,
      Statement.outlineAll_congr h others]

end

end

theorem Symbol.outline_eraseLine (s : Symbol) : s.eraseLine.outline = s.outline := by
  obtain ⟨name, role, line⟩ := s
  cases role <;> rfl

theorem Symbol.code_eraseLine (s : Symbol) : s.eraseLine.code = s.code := by
  obtain ⟨name, role, line⟩ := s
  cases role <;> rfl

mutual

theorem Block.outline_eraseLines : ∀ (b : Block) (outer : List Block) (depth : Nat),
    b.eraseLines.outline (outer.map Block.eraseLines) depth = b.outline outer depth
  | ⟨symbols, procedures, statement⟩, outer, depth => by
    let b : Block := ⟨symbols, procedures, statement⟩
    have hs : statement.outline (Scope.eraseLines ⟨b, outer⟩) (depth + 1) = statement.outline ⟨b, outer⟩ (depth + 1) :=
      statement.outline_congr (Scope.annotate_eraseLines _) _
    have hp := Procedure.outlineAll_eraseAllLines procedures (b :: outer) (depth + 1)
    rw [Block.eraseLines, Block.outline, Block.outline, List.length_map]
    simp only [Declarations.eraseLines, List.map_map, Function.comp_def, Symbol.outline_eraseLine]
    exact congr (congrArg HAppend.hAppend (congrArg (HAppend.hAppend _) hp)) hs

theorem Procedure.outline_eraseLines : ∀ (p : Procedure) (outer : List Block) (depth : Nat),
    p.eraseLines.outline (outer.map Block.eraseLines) depth = p.outline outer depth
  | ⟨name, block⟩, outer, depth => by
    rw [Procedure.eraseLines, Procedure.outline, Procedure.outline, Block.outline_eraseLines block]

theorem Procedure.outlineAll_eraseAllLines : ∀ (ps : List Procedure) (outer : List Block) (depth : Nat),
    Procedure.outlineAll (outer.map Block.eraseLines) depth (Procedure.eraseAllLines ps) =
      Procedure.outlineAll outer depth ps
  | [], _, _ => rfl
  | p :: ps, outer, depth => by
    rw [Procedure.eraseAllLines, Procedure.outlineAll, Procedure.outlineAll, Procedure.outline_eraseLines p,
      Procedure.outlineAll_eraseAllLines ps]

end

theorem Program.outline_eraseLines (p : Program) : p.eraseLines.outline = p.outline := by
  have h : p.eraseLines.block.outline [] 1 = p.block.outline [] 1 := p.block.outline_eraseLines [] 1
  rw [outline, outline, outlineLines, outlineLines, h]

/-! ## Nodes and code -/

mutual

theorem Block.nodeCount_eraseLines : ∀ b : Block, b.eraseLines.nodeCount = b.nodeCount
  | ⟨symbols, procedures, statement⟩ => by
    have hs : symbols.eraseLines.size = symbols.size := List.length_map _
    rw [Block.eraseLines, Block.nodeCount, Block.nodeCount, hs, Procedure.nodeCountAll_eraseAllLines procedures]

theorem Procedure.nodeCount_eraseLines : ∀ p : Procedure, p.eraseLines.nodeCount = p.nodeCount
  | ⟨name, block⟩ => by
    rw [Procedure.eraseLines, Procedure.nodeCount, Procedure.nodeCount, Block.nodeCount_eraseLines block]

theorem Procedure.nodeCountAll_eraseAllLines : ∀ ps : List Procedure,
    Procedure.nodeCountAll (Procedure.eraseAllLines ps) = Procedure.nodeCountAll ps
  | [] => rfl
  | p :: ps => by
    rw [Procedure.eraseAllLines, Procedure.nodeCountAll, Procedure.nodeCountAll, Procedure.nodeCount_eraseLines p,
      Procedure.nodeCountAll_eraseAllLines ps]

end

theorem Program.nodeCount_eraseLines (p : Program) : p.eraseLines.nodeCount = p.nodeCount := by
  rw [nodeCount, nodeCount, eraseLines, p.block.nodeCount_eraseLines]

section

variable {config : JavaScript.Config}

mutual

theorem Block.code_eraseLines : ∀ (b : Block) (depth : Nat), b.eraseLines.code config depth = b.code config depth
  | ⟨symbols, procedures, statement⟩, depth => by
    rw [Block.eraseLines, Block.code, Block.code, Procedure.codeAll_eraseAllLines procedures]
    simp only [Declarations.eraseLines, List.map_map, Function.comp_def, Symbol.code_eraseLine]

theorem Procedure.code_eraseLines : ∀ (p : Procedure) (depth : Nat),
    p.eraseLines.code config depth = p.code config depth
  | ⟨name, block⟩, depth => by
    rw [Procedure.eraseLines, Procedure.code, Procedure.code, Block.code_eraseLines block]

theorem Procedure.codeAll_eraseAllLines : ∀ (ps : List Procedure) (depth : Nat),
    Procedure.codeAll config depth (Procedure.eraseAllLines ps) = Procedure.codeAll config depth ps
  | [], _ => rfl
  | p :: ps, depth => by
    rw [Procedure.eraseAllLines, Procedure.codeAll, Procedure.codeAll, Procedure.code_eraseLines p,
      Procedure.codeAll_eraseAllLines ps]

end

theorem Program.emit_eraseLines (p : Program) :
    JavaScript.emit config p.eraseLines = JavaScript.emit config p := by
  have h : p.eraseLines.code config 0 = p.code config 0 := by
    rw [Program.code, Program.code, eraseLines, p.block.code_eraseLines]
  rw [JavaScript.emit, JavaScript.emit, JavaScript.Node.emission, JavaScript.Node.emission, h]

end

end PL0
