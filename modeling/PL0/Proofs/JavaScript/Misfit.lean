/-
What is written of a program with a misfit: everything up to it and nothing of it. Emission stops at the first node
that holds an operator of the wrong arity. What was written until then is what is written in front of any expression
that stands in the place of that node. Main statement: `emit_stops_at_misfit`.
-/
import PL0.Proofs.JavaScript.Walk
import PL0.Proofs.Nodes

namespace PL0

open JavaScript

/-! ## Texts that stop at a misfit -/

namespace JavaScript

/-- A fragment, and the nodes that it is written from. -/
structure Piece where
  fragment : Fragment
  nodes : List Expr.Node

def Piece.append (a b : Piece) : Piece := ⟨a.fragment ++ b.fragment, a.nodes ++ b.nodes⟩

/-- A piece is cut at its first misfit. With `x` in the place of that expression, the nodes before and after it are the
same, and what was written up to the cut goes on with the text of `x`. -/
structure Refits (config : Config) (x : Expr) (a : Piece) (refitted : Option Piece) : Prop where
  fault?_eq : a.fragment.fault? = a.nodes.findSome? Expr.Node.misfit?
  isSome_eq : refitted.isSome = a.fragment.fault?.isSome
  exists_place : ∀ b ∈ refitted, ∃ (before : List Expr.Node) (bad : Expr) (after : List Expr.Node) (rest : String),
    a.nodes = before ++ bad.nodes ++ after ∧ b.nodes = before ++ x.nodes ++ after ∧
    (∀ n ∈ before, n.misfit? = none) ∧ bad.root.misfit?.isSome = true ∧
    b.fragment.text = a.fragment.text ++ (x.code config).text ++ rest

namespace Refits

variable {config : Config} {x : Expr} {a b : Piece} {refitted refitted' : Option Piece}

/-- Nothing in the piece is a misfit. -/
theorem whole (hf : a.fragment.fault? = none) (hn : a.nodes.findSome? Expr.Node.misfit? = none) :
    Refits config x a none :=
  ⟨hf.trans hn.symm, by simp [hf], nofun⟩

theorem text (s : String) : Refits config x ⟨[.text s], []⟩ none := whole rfl rfl

theorem append (h : Refits config x a refitted) (h' : Refits config x b refitted') :
    Refits config x (a.append b) ((refitted.map (·.append b)).or (refitted'.map a.append)) where
  fault?_eq := by
    rw [Piece.append, Fragment.fault?_append, List.findSome?_append, h.fault?_eq, h'.fault?_eq]
  isSome_eq := by
    rw [Piece.append, Fragment.fault?_append, Option.isSome_or, Option.isSome_or, Option.isSome_map, Option.isSome_map,
      h.isSome_eq, h'.isSome_eq]
  exists_place := by
    cases refitted with
    | some g =>
      -- the first piece is cut, so nothing of the second is written
      rintro _ ⟨⟩
      have hcut : a.fragment.fault?.isNone = false := by simpa using h.isSome_eq.symm
      obtain ⟨before, bad, after, rest, ha, hg, hb, hm, ht⟩ := h.exists_place g rfl
      have htext : (a.append b).fragment.text = a.fragment.text := by
        rw [Piece.append, Fragment.text_append, hcut]
        rfl
      have hmore : ∃ more, (g.append b).fragment.text = g.fragment.text ++ more := by
        rw [Piece.append, Fragment.text_append]
        split
        · exact ⟨_, rfl⟩
        · exact ⟨"", by simp⟩
      obtain ⟨more, hmore⟩ := hmore
      refine ⟨before, bad, after ++ b.nodes, rest ++ more, ?_, ?_, hb, hm, ?_⟩
      · simp [Piece.append, ha]
      · simp [Piece.append, hg]
      · rw [hmore, ht, htext, String.append_assoc]
    | none =>
      -- the first piece is whole, and stands unchanged before the cut
      have hwhole : a.fragment.fault? = none := by simpa using h.isSome_eq.symm
      have hfits : ∀ n ∈ a.nodes, n.misfit? = none := List.findSome?_eq_none_iff.1 (h.fault?_eq.symm.trans hwhole)
      intro c hc
      obtain ⟨g, hg, rfl⟩ := Option.map_eq_some_iff.1 (by simpa using hc)
      obtain ⟨before, bad, after, rest, hb, hg', hbefore, hm, ht⟩ := h'.exists_place g hg
      refine ⟨a.nodes ++ before, bad, after, rest, ?_, ?_, List.forall_mem_append.2 ⟨hfits, hbefore⟩, hm, ?_⟩
      · simp [Piece.append, hb]
      · simp [Piece.append, hg']
      · simp [Piece.append, Fragment.text_append, hwhole, ht, String.append_assoc]

end Refits

end JavaScript

/-! ### Expressions and conditions -/

section

variable {config : Config}

/-- An expression as it is written, with its nodes. -/
def Expr.piece (config : Config) (e : Expr) : Piece := ⟨e.code config, e.nodes⟩

theorem Expr.exists_nodes_eq_cons (e : Expr) : ∃ ns, e.nodes = e.root :: ns := by
  cases e <;> exact ⟨_, rfl⟩

/-- A misfit is cut before anything of it is written. -/
theorem Expr.refits_of_misfit {e : Expr} {f : Fault} (x : Expr) (hm : e.root.misfit? = some f)
    (hc : e.code config = [.fault f]) : Refits config x (e.piece config) (some (x.piece config)) := by
  obtain ⟨ns, hns⟩ := e.exists_nodes_eq_cons
  refine ⟨?_, ?_, ?_⟩
  · simp [piece, hc, hns, hm, Fragment.fault?]
  · simp [piece, hc, Fragment.fault?]
  · rintro _ ⟨⟩
    exact ⟨[], e, [], "", by simp [piece], by simp [piece], by simp, by simp [hm], by simp [piece, hc, Fragment.text]⟩

theorem Expr.refits_piece (config : Config) (e x : Expr) :
    Refits config x (e.piece config) ((e.refit? x).map (piece config)) := by
  induction e with
  | operand leaf => cases leaf <;> exact .whole rfl rfl
  | unary op inner ih =>
    cases hop : op.isUnary with
    | false =>
      have hx : (unary op inner).refit? x = some x := by simp [refit?, hop]
      rw [hx]
      exact refits_of_misfit x (by simp [root, Node.misfit?, hop]; rfl) (by simp [code, hop])
    | true =>
      have hroot : Refits config x ⟨[.text ("(" ++ op.symbol)], [.unary op]⟩ none :=
        .whole rfl (by simp [Node.misfit?, hop])
      have h := hroot.append (ih.append (.text ")"))
      simpa [piece, Piece.append, code, hop, nodes, refit?, Function.comp_def] using h
  | binary op left right ihl ihr =>
    cases hop : op.isUnary with
    | true =>
      have hx : (binary op left right).refit? x = some x := by simp [refit?, hop]
      rw [hx]
      exact refits_of_misfit x (by simp [root, Node.misfit?, hop]; rfl) (by simp [code, hop])
    | false =>
      have hroot : ∀ s, Refits config x ⟨[.text s], [.binary op]⟩ none := fun s =>
        .whole rfl (by simp [Node.misfit?, hop])
      have hwhole := ihl.append ((Refits.text op.symbol).append (ihr.append (.text ")")))
      by_cases ht : config.truncateDivision ∧ op = .divide
      · have h := (hroot "Math.trunc(").append ((Refits.text "(").append (hwhole.append (.text ")")))
        simpa [piece, Piece.append, code, hop, if_pos ht, nodes, refit?, Function.comp_def, Option.map_or] using h
      · have h := (hroot "(").append hwhole
        simpa [piece, Piece.append, code, hop, if_neg ht, nodes, refit?, Function.comp_def, Option.map_or] using h

/-- A condition as it is written, with its nodes. -/
def Condition.piece (config : Config) (c : Condition) : Piece := ⟨c.code config, c.operands.flatMap Expr.nodes⟩

theorem Condition.refits_piece (config : Config) (c : Condition) (x : Expr) :
    Refits config x (c.piece config) ((c.refit? x).map (piece config)) := by
  cases c with
  | odd inner =>
    have h := (Refits.text "((").append ((inner.refits_piece config x).append (.text " % 2) === 1)"))
    simpa [piece, Expr.piece, Piece.append, code, operands, refit?, Function.comp_def] using h
  | compare rel left right =>
    have h := (Refits.text "(").append ((left.refits_piece config x).append
      ((Refits.text (" " ++ relation rel ++ " ")).append ((right.refits_piece config x).append (.text ")"))))
    simpa [piece, Expr.piece, Piece.append, code, operands, refit?, Function.comp_def, Option.map_or] using h

/-! ### Lines -/

namespace JavaScript

/-- Lines one after another as one fragment. -/
def flat (width : Nat) (lines : List (Text.Line Fragment)) : Fragment :=
  lines.flatMap fun l => .text (Text.indent l.depth width) :: l.content ++ [.text "\n"]

theorem flat_cons (width : Nat) (l : Text.Line Fragment) (ls : List (Text.Line Fragment)) :
    flat width (l :: ls) = .text (Text.indent l.depth width) :: l.content ++ .text "\n" :: flat width ls := by
  simp [flat]

theorem flat_append (width : Nat) (a b : List (Text.Line Fragment)) :
    flat width (a ++ b) = flat width a ++ flat width b :=
  List.flatMap_append

/-- Lines are written as the one fragment is, and cut at its fault. -/
theorem ofLines_eq (width : Nat) (lines : List (Text.Line Fragment)) :
    (Emission.ofLines width lines).text = (flat width lines).text ∧
      (Emission.ofLines width lines).cut.map (·.fault) = (flat width lines).fault? := by
  induction lines with
  | nil => exact ⟨rfl, rfl⟩
  | cons l ls ih =>
    rw [flat_cons, Emission.ofLines, Emission.ofLine]
    cases hf : l.content.fault? with
    | none =>
      simp [Emission.append, Emission.whole, Emission.ofFragment, hf, ih.1, ih.2, Fragment.text, Fragment.fault?,
        Fragment.text_append, Fragment.fault?_append, String.append_assoc]
    | some f =>
      simp [Emission.append, Emission.whole, Emission.ofFragment, hf, Fragment.text, Fragment.fault?,
        Fragment.text_append, Fragment.fault?_append]

/-- Lines as they are written, with the nodes of the expressions in them. -/
def linesPiece (config : Config) (lines : List (Text.Line Fragment)) (exprs : List Expr) : Piece :=
  ⟨flat config.indentWidth lines, exprs.flatMap Expr.nodes⟩

theorem linesPiece_append (a b : List (Text.Line Fragment)) (es es' : List Expr) :
    (linesPiece config a es).append (linesPiece config b es') = linesPiece config (a ++ b) (es ++ es') := by
  simp [linesPiece, Piece.append, flat_append]

namespace Refits

variable {x : Expr}

theorem nothing : Refits config x (linesPiece config [] []) none := .whole rfl rfl

theorem line (s : String) (depth : Nat) : Refits config x (linesPiece config [textLine depth s] []) none :=
  .whole rfl rfl

/-- A line that is read with its expression, between two texts. -/
theorem between (value : Expr) (depth : Nat) (s t : String) :
    Refits config x (linesPiece config [⟨depth, .text s :: value.code config ++ [.text t]⟩] [value])
      ((value.refit? x).map fun v => linesPiece config [⟨depth, .text s :: v.code config ++ [.text t]⟩] [v]) := by
  have h := (Refits.text (Text.indent depth config.indentWidth)).append ((Refits.text s).append
    ((value.refits_piece config x).append ((Refits.text t).append (.text "\n"))))
  simpa [linesPiece, flat, Expr.piece, Piece.append, Function.comp_def] using h

/-- The head of an `if` or a `while`. -/
theorem head (keyword : String) (cond : Condition) (braced : Bool) (depth : Nat) :
    Refits config x
      (linesPiece config [⟨depth, Statement.head config keyword cond ++ brace braced⟩] cond.operands)
      ((cond.refit? x).map fun c =>
        linesPiece config [⟨depth, Statement.head config keyword c ++ brace braced⟩] c.operands) := by
  have hbrace : Refits config x ⟨brace braced, []⟩ none := .whole (by cases braced <;> rfl) rfl
  have h := (Refits.text (Text.indent depth config.indentWidth)).append ((Refits.text (keyword ++ " (")).append
    ((cond.refits_piece config x).append ((Refits.text ")").append (hbrace.append (.text "\n")))))
  simpa [linesPiece, flat, Statement.head, Condition.piece, Piece.append, Function.comp_def] using h

end Refits

end JavaScript

namespace Statement

def piece (config : Config) (depth : Nat) (s : Statement) : Piece := linesPiece config (s.code config depth) s.exprs

def allPiece (config : Config) (depth : Nat) (ss : List Statement) : Piece :=
  linesPiece config (codeAll config depth ss) (allExprs ss)

/-- The lines of the body of an `if` or a `while`. -/
def bodyPiece (config : Config) (depth : Nat) (body : Statement) : Piece :=
  linesPiece config (if body.isCompound then (body.code config depth).tail else body.code config (depth + 1)) body.exprs

theorem bodyPiece_of_isCompound {config : Config} {depth : Nat} {body : Statement} (h : body.isCompound = false) :
    body.bodyPiece config depth = body.piece config (depth + 1) := by
  rw [bodyPiece, h]
  rfl

theorem isCompound_of_refit? {s t : Statement} {x : Expr} (h : t ∈ s.refit? x) : t.isCompound = s.isCompound := by
  cases s with
  | call name => cases h
  | compound body | assign name value | write value =>
    obtain ⟨_, -, rfl⟩ := Option.map_eq_some_iff.1 h
    rfl
  | ifThen cond body | whileDo cond body =>
    rcases Option.or_eq_some_iff.1 h with h | ⟨-, h⟩ <;>
    · obtain ⟨_, -, rfl⟩ := Option.map_eq_some_iff.1 h
      rfl

/-- The head of an `if` or a `while`, then its body. -/
def guardedPiece (config : Config) (keyword : String) (depth : Nat) (cond : Condition) (body : Statement) : Piece :=
  (linesPiece config [⟨depth, head config keyword cond ++ brace body.isCompound⟩] cond.operands).append
    (body.bodyPiece config depth)

theorem piece_ifThen (config : Config) (depth : Nat) (cond : Condition) (body : Statement) :
    (ifThen cond body).piece config depth = guardedPiece config "if" depth cond body := by
  simp [piece, guardedPiece, bodyPiece, linesPiece_append, code_ifThen, exprs]

theorem piece_whileDo (config : Config) (depth : Nat) (cond : Condition) (body : Statement) :
    (whileDo cond body).piece config depth = guardedPiece config "while" depth cond body := by
  simp [piece, guardedPiece, bodyPiece, linesPiece_append, code_whileDo, exprs]

theorem refits_guardedPiece {config : Config} {x : Expr} {body : Statement} {depth : Nat} (keyword : String)
    (cond : Condition)
    (h : Refits config x (body.bodyPiece config depth) ((body.refit? x).map (bodyPiece config depth))) :
    Refits config x (guardedPiece config keyword depth cond body)
      (((cond.refit? x).map (guardedPiece config keyword depth · body)).or
        ((body.refit? x).map (guardedPiece config keyword depth cond))) := by
  have hbody : ∀ b ∈ body.refit? x, guardedPiece config keyword depth cond b =
      (linesPiece config [⟨depth, head config keyword cond ++ brace body.isCompound⟩] cond.operands).append
        (b.bodyPiece config depth) := by
    intro b hb
    rw [guardedPiece, isCompound_of_refit? hb]
  rw [Option.map_congr hbody]
  have hg := (Refits.head keyword cond body.isCompound depth).append h
  simpa [guardedPiece, Function.comp_def] using hg

mutual

theorem refits_piece (config : Config) (x : Expr) : ∀ (s : Statement) (depth : Nat),
    Refits config x (s.piece config depth) ((s.refit? x).map (piece config depth))
  | compound body, depth => by
    have h := (Refits.line "\x7b" depth).append
      ((refits_allPiece config x body (depth + 1)).append (.line "\x7d" depth))
    simpa [piece, allPiece, linesPiece_append, code, exprs, refit?, Function.comp_def] using h
  | assign name value, depth => by
    have h : Refits config x _ _ := .between value depth (rename name ++ " = ") ";"
    simpa [piece, code, exprs, refit?, Function.comp_def] using h
  | call name, depth => .line _ _
  | write value, depth => by
    have h : Refits config x _ _ := .between value depth (config.printFunction ++ "(") ");"
    simpa [piece, code, exprs, refit?, Function.comp_def] using h
  | ifThen cond body, depth => by
    have h := refits_guardedPiece "if" cond (refits_bodyPiece config x body depth)
    simpa [piece_ifThen, refit?, Function.comp_def, Option.map_or] using h
  | whileDo cond body, depth => by
    have h := refits_guardedPiece "while" cond (refits_bodyPiece config x body depth)
    simpa [piece_whileDo, refit?, Function.comp_def, Option.map_or] using h
termination_by s => (sizeOf s, 0)

theorem refits_bodyPiece (config : Config) (x : Expr) (body : Statement) (depth : Nat) :
    Refits config x (body.bodyPiece config depth) ((body.refit? x).map (bodyPiece config depth)) := by
  cases body with
  | compound ss =>
    have h := (refits_allPiece config x ss (depth + 1)).append (.line "\x7d" depth)
    simpa [bodyPiece, allPiece, linesPiece_append, isCompound, code, exprs, refit?, Function.comp_def] using h
  | _ =>
    rw [bodyPiece_of_isCompound rfl, Option.map_congr fun t ht => bodyPiece_of_isCompound (isCompound_of_refit? ht)]
    exact refits_piece config x _ (depth + 1)
termination_by (sizeOf body, 1)

theorem refits_allPiece (config : Config) (x : Expr) : ∀ (ss : List Statement) (depth : Nat),
    Refits config x (allPiece config depth ss) ((refitAll? ss x).map (allPiece config depth))
  | [], _ => .nothing
  | s :: ss, depth => by
    have h := (refits_piece config x s depth).append (refits_allPiece config x ss depth)
    simpa [piece, allPiece, linesPiece_append, codeAll, allExprs, refitAll?, Function.comp_def, Option.map_or] using h
termination_by ss => (sizeOf ss, 0)

end

end Statement

/-! ### Blocks and programs -/

def Block.piece (config : Config) (depth : Nat) (b : Block) : Piece := linesPiece config (b.code config depth) b.exprs

def Procedure.piece (config : Config) (depth : Nat) (p : Procedure) : Piece :=
  linesPiece config (p.code config depth) p.exprs

def Procedure.allPiece (config : Config) (depth : Nat) (ps : List Procedure) : Piece :=
  linesPiece config (Procedure.codeAll config depth ps) (Procedure.allExprs ps)

theorem refits_symbols (config : Config) (x : Expr) (ss : List Symbol) (depth : Nat) :
    Refits config x (linesPiece config (ss.map fun s => textLine depth s.code) []) none := by
  induction ss with
  | nil => exact .nothing
  | cons s ss ih =>
    have h := (Refits.line s.code depth).append ih
    simpa [linesPiece_append] using h

mutual

theorem Block.refits_piece (config : Config) (x : Expr) : ∀ (b : Block) (depth : Nat),
    Refits config x (b.piece config depth) ((b.refit? x).map (Block.piece config depth))
  | ⟨symbols, procedures, statement⟩, depth => by
    have h := (refits_symbols config x symbols.toList depth).append
      ((Procedure.refits_allPiece config x procedures depth).append (statement.refits_piece config x depth))
    simpa [Block.piece, Procedure.allPiece, Statement.piece, linesPiece_append, Block.code, Block.exprs, Block.refit?,
      Function.comp_def, Option.map_or] using h

theorem Procedure.refits_piece (config : Config) (x : Expr) : ∀ (p : Procedure) (depth : Nat),
    Refits config x (p.piece config depth) ((p.refit? x).map (Procedure.piece config depth))
  | ⟨name, block⟩, depth => by
    have h := (Refits.line ("function " ++ rename name ++ "() \x7b") depth).append
      ((Block.refits_piece config x block (depth + 1)).append (.line "\x7d" depth))
    simpa [Block.piece, Procedure.piece, linesPiece_append, Procedure.code, Procedure.exprs, Procedure.refit?,
      Function.comp_def] using h

theorem Procedure.refits_allPiece (config : Config) (x : Expr) : ∀ (ps : List Procedure) (depth : Nat),
    Refits config x (Procedure.allPiece config depth ps)
      ((Procedure.refitAll? ps x).map (Procedure.allPiece config depth))
  | [], _ => .nothing
  | p :: ps, depth => by
    have h := (Procedure.refits_piece config x p depth).append (Procedure.refits_allPiece config x ps depth)
    simpa [Procedure.piece, Procedure.allPiece, linesPiece_append, Procedure.codeAll, Procedure.allExprs,
      Procedure.refitAll?, Function.comp_def, Option.map_or] using h

end

def Program.piece (config : Config) (p : Program) : Piece := linesPiece config (p.code config 0) p.block.exprs

theorem Program.refits_piece (config : Config) (p : Program) (x : Expr) :
    Refits config x (p.piece config) ((p.refit? x).map (piece config)) := by
  have h := (Refits.line prologue 0).append ((p.block.refits_piece config x 1).append (.line epilogue 0))
  simpa [piece, Block.piece, linesPiece_append, code, refit?, Function.comp_def] using h

end

/-! ## Emission -/

section

variable {config : Config} {p : Program}

theorem Program.fault?_piece (config : Config) (p : Program) :
    (p.piece config).fragment.fault? = p.nodes.findSome? Expr.Node.misfit? :=
  -- any expression will do in the place of the misfit
  (p.refits_piece config (.operand (.number 0))).fault?_eq

/-- A program is emitted up to its first misfit. -/
theorem emit_eq_first_misfit (config : Config) (p : Program) :
    emit config p = match p.nodes.findSome? Expr.Node.misfit? with
      | none => .ok (p.piece config).fragment.text
      | some fault => .error fault := by
  obtain ⟨htext, hcut⟩ := ofLines_eq config.indentWidth (p.code config 0)
  rw [emit, Node.emission, ← p.fault?_piece config, Program.piece, linesPiece, ← hcut, ← htext]
  rcases Emission.ofLines config.indentWidth (p.code config 0) with ⟨text, _ | cut⟩ <;> rfl

theorem output_visitAfresh (em : Emitter) (p : Program) :
    (em.visitAfresh p).2.output = (p.piece em.config).fragment.text := by
  rw [Emitter.visitAfresh_eq_take, Emitter.take, Emitter.start, String.empty_append]
  exact (ofLines_eq em.config.indentWidth (p.code em.config 0)).1

theorem visitAfresh_eq_error {em : Emitter} {fault : Fault} (h : p.nodes.findSome? Expr.Node.misfit? = some fault) :
    (em.visitAfresh p).1 = .error fault := by
  rw [← p.fault?_piece em.config, Program.piece, linesPiece,
    ← (ofLines_eq em.config.indentWidth (p.code em.config 0)).2] at h
  obtain ⟨cut, hcut, rfl⟩ := Option.map_eq_some_iff.1 h
  rw [Emitter.visitAfresh_eq_take, Emitter.take, Emission.result, Node.emission, hcut]

theorem exists_emit_eq_ok_iff : (∃ text, emit config p = .ok text) ↔ ∀ n ∈ p.nodes, n.misfit? = none := by
  rw [← List.findSome?_eq_none_iff, emit_eq_first_misfit]
  cases p.nodes.findSome? Expr.Node.misfit? <;> simp

/-- What is written before the first misfit is written before whatever stands in its place. -/
theorem exists_refit_output (em : Emitter) (x : Expr) {before after : List Expr.Node} {node : Expr.Node}
    (hnodes : p.nodes = before ++ node :: after) (hbefore : ∀ n ∈ before, n.misfit? = none)
    (hnode : node.misfit?.isSome = true) :
    ∃ (p' : Program) (bad : Expr) (others : List Expr.Node) (rest : String),
      p.refit? x = some p' ∧ node :: after = bad.nodes ++ others ∧ p'.nodes = before ++ x.nodes ++ others ∧
      (em.visitAfresh p').2.output = (em.visitAfresh p).2.output ++ (x.code em.config).text ++ rest := by
  have h := p.refits_piece em.config x
  have hmis : (p.nodes.findSome? Expr.Node.misfit?).isSome = true :=
    List.findSome?_isSome_iff.2 ⟨node, by simp [hnodes], hnode⟩
  obtain ⟨p', hp'⟩ : ∃ p', p.refit? x = some p' := by
    rw [← Option.isSome_iff_exists, ← Option.isSome_map (f := Program.piece em.config), h.isSome_eq, p.fault?_piece,
      hmis]
  obtain ⟨before', bad, others, rest, ha, hb, hbefore', hbad, htext⟩ :=
    h.exists_place (p'.piece em.config) (by simp [hp'])
  obtain ⟨ns, hns⟩ := bad.exists_nodes_eq_cons
  have hsplit : before ++ node :: after = before' ++ bad.root :: (ns ++ others) := by
    rw [← hnodes]
    exact ha.trans (by simp [hns])
  obtain ⟨rfl, htail⟩ := first_misfit_inj hbefore hbefore' hnode hbad hsplit
  refine ⟨p', bad, others, rest, hp', by rw [htail, hns]; rfl, hb, ?_⟩
  rw [output_visitAfresh, output_visitAfresh, htext]

/-- **Misfits.** A program is written whole exactly if every node with one operand holds an operator of one and every
node with two holds one of two. Otherwise the fault is that of the first misfit, and what was written until then is
what is written before that node: with any expression in its place, it is followed by the text of that expression. -/
theorem emit_stops_at_misfit (em : Emitter) (p : Program) :
    ((∃ text, emit em.config p = .ok text) ↔
      (∀ op, .unary op ∈ p.nodes → op.isUnary = true) ∧ ∀ op, .binary op ∈ p.nodes → op.isUnary = false) ∧
    ∀ before node after fault, p.nodes = before ++ node :: after → (∀ n ∈ before, n.misfit? = none) →
      node.misfit? = some fault →
        fault.kind = .inconsistent ∧ emit em.config p = .error fault ∧ (em.visitAfresh p).1 = .error fault ∧
        ∀ x : Expr, ∃ (p' : Program) (bad : Expr) (others : List Expr.Node) (rest : String),
          p.refit? x = some p' ∧ node :: after = bad.nodes ++ others ∧ p'.nodes = before ++ x.nodes ++ others ∧
          (em.visitAfresh p').2.output = (em.visitAfresh p).2.output ++ (x.code em.config).text ++ rest := by
  constructor
  · rw [exists_emit_eq_ok_iff]
    simp only [Expr.Node.misfit?_eq_none_iff]
    constructor
    · exact fun h => ⟨fun op hm => (h _ hm).1 op rfl, fun op hm => (h _ hm).2 op rfl⟩
    · rintro ⟨hu, hb⟩ n hm
      exact ⟨fun op hn => hu op (hn ▸ hm), fun op hn => hb op (hn ▸ hm)⟩
  · intro before node after fault hnodes hbefore hnode
    have hfirst : p.nodes.findSome? Expr.Node.misfit? = some fault := by
      rw [hnodes, List.findSome?_append, List.findSome?_eq_none_iff.2 hbefore]
      simp [hnode]
    refine ⟨Expr.Node.kind_of_misfit? hnode, ?_, visitAfresh_eq_error hfirst, fun x => ?_⟩
    · rw [emit_eq_first_misfit, hfirst]
    · exact exists_refit_output em x hnodes hbefore (by simp [hnode])

/-- A product with one factor in a procedure, and a sum with a sign in the statement after it. -/
def misfitted : Program :=
  ⟨⟨.empty, [⟨"p", ⟨.empty, [], .assign "x" (.binary .plus (.operand (.number 1))
    (.unary .multiply (.operand (.ident "x"))))⟩⟩],
    .write (.binary .unaryMinus (.operand (.number 2)) (.operand (.number 3)))⟩⟩

theorem emit_stops_at_misfit_factor :
    misfitted.nodes = [.binary .plus, .operand (.number 1)] ++ .unary .multiply ::
      [.operand (.ident "x"), .binary .unaryMinus, .operand (.number 2), .operand (.number 3)] ∧
    emit .standard misfitted = .error (.binaryInUnary "MULT") ∧
    ((Emitter.start .standard).visitAfresh misfitted).2.output =
      ";(function () \x7b\n  function p() \x7b\n    x = (1+" := by
  have hnodes : misfitted.nodes = [.binary .plus, .operand (.number 1)] ++ .unary .multiply ::
      [.operand (.ident "x"), .binary .unaryMinus, .operand (.number 2), .operand (.number 3)] := by decide
  obtain ⟨-, hemit, -, -⟩ :=
    (emit_stops_at_misfit (Emitter.start .standard) misfitted).2 _ _ _ _ hnodes (by decide) rfl
  refine ⟨hnodes, hemit, ?_⟩
  rw [output_visitAfresh]
  cbv

end

end PL0
