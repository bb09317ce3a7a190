/-
Walks only append. What a walk over a node puts out is the emission of the node: it comes after what was there and
depends on nothing but the node, the configuration and the depth. A walk that reaches its end is back at its depth,
and one that is cut stands at least as deep. Each way to put walks together keeps this (`Writes`), so it holds of every
node. Main statements: `Node.writes_walk` and `Emitter.visit_only_appends`.
-/
import PL0.JavaScript.Walk
import PL0.Proofs.JavaScript.Rows

namespace PL0

open JavaScript Walk

namespace JavaScript

/-! ## Emissions put together -/

namespace Emission

theorem whole_append (s : String) (m : Emission) : (whole s).append m = ⟨s ++ m.text, m.cut⟩ := rfl

theorem whole_append_whole (s t : String) (m : Emission) :
    (whole s).append ((whole t).append m) = (whole (s ++ t)).append m := by
  simp only [whole_append, String.append_assoc]

theorem ofFragment_nil (depth : Nat) : ofFragment depth [] = empty := rfl

theorem ofFragment_text (depth : Nat) (s : String) (f : Fragment) :
    ofFragment depth (.text s :: f) = (whole s).append (ofFragment depth f) := rfl

theorem ofFragment_append (depth : Nat) (f g : Fragment) :
    ofFragment depth (f ++ g) = (ofFragment depth f).append (ofFragment depth g) := by
  rw [ofFragment, Fragment.text_append, Fragment.fault?_append, ofFragment, ofFragment]
  cases f.fault? <;> rfl

/-- A line of its own, with a text before and after. -/
theorem ofLines_between (width depth : Nat) (s t : String) (f : Fragment) :
    ofLines width [⟨depth, .text s :: f ++ [.text t]⟩] = (whole (Text.indent depth width)).append
      ((whole s).append ((ofFragment depth f).append (whole (t ++ "\n")))) := by
  simp only [ofLines, ofLine, List.cons_append, ofFragment_text, ofFragment_append, ofFragment_nil, append_empty,
    append_assoc]
  rfl

/-- What is known in the end of a node that is written. -/
def result (m : Emission) : Except Fault Unit :=
  match m.cut with
  | none => .ok ()
  | some cut => .error cut.fault

end Emission

/-- What an emission makes of an emitter. -/
def Emitter.take (e : Emitter) (m : Emission) : Except Fault Unit × Emitter :=
  (m.result, { e with output := e.output ++ m.text, depth := (m.cut.map (·.depth)).getD e.depth })

/-! ## Walks put together -/

/-- The walk puts out the emission of the place where it starts, and no cut of it is further out than that place. -/
structure Writes (w : Walk) (m : Config → Nat → Emission) : Prop where
  walk_eq : ∀ e : Emitter, e.walk w = e.take (m e.config e.depth)
  depth_le : ∀ config depth, ∀ cut ∈ (m config depth).cut, depth ≤ cut.depth

namespace Emitter

theorem walk_bind (e : Emitter) (w w' : Walk) : e.walk (do w; w') =
    match e.walk w with
    | (.ok (), e') => e'.walk w'
    | (.error f, e') => (.error f, e') := by
  show (ExceptT.run (w >>= fun _ => w')).run e = _
  rw [ExceptT.run_bind, StateT.run_bind, walk]
  rcases (ExceptT.run w).run e with ⟨_ | _, e'⟩ <;> rfl

theorem walk_pure (e : Emitter) : e.walk (pure ()) = (.ok (), e) := rfl

theorem walk_throw (e : Emitter) (f : Fault) : e.walk (throw f) = (.error f, e) := rfl

end Emitter

namespace Writes

variable {w w' : Walk} {m m' : Config → Nat → Emission}

theorem congr (h : Writes w m) (he : ∀ config depth, m config depth = m' config depth) : Writes w m' := by
  obtain rfl : m = m' := funext fun config => funext fun depth => he config depth
  exact h

/-- A walk reads of the emitter nothing but the configuration and the depth. -/
theorem reading {k : Emitter → Walk}
    (h : ∀ e : Emitter, ∃ n, Writes (k e) n ∧ n e.config e.depth = m e.config e.depth) :
    Writes (do k (← get)) m where
  walk_eq e := by
    obtain ⟨n, hn, he⟩ := h e
    rw [← he]
    exact hn.walk_eq e
  depth_le config depth := by
    obtain ⟨n, hn, he⟩ := h ⟨config, "", depth⟩
    rw [← he]
    exact hn.depth_le config depth

theorem put (s : String) : Writes (Walk.put s) fun _ _ => .whole s where
  walk_eq _ := rfl
  depth_le _ _ := nofun

theorem nothing : Writes (Pure.pure ()) fun _ _ => .empty where
  walk_eq e := by simp [e.walk_pure, Emitter.take, Emission.empty, Emission.result]
  depth_le _ _ := nofun

theorem putIf (wanted : Bool) (s : String) :
    Writes (Walk.putIf wanted s) fun _ _ => if wanted then .whole s else .empty := by
  cases wanted with
  | true => exact put s
  | false => exact nothing

theorem fail (f : Fault) : Writes (throw f) fun _ depth => ⟨"", some ⟨f, depth⟩⟩ where
  walk_eq e := by simp [e.walk_throw, Emitter.take, Emission.result]
  depth_le := by
    rintro _ depth _ ⟨⟩
    exact Nat.le_refl depth

theorem seq (h : Writes w m) (h' : Writes w' m') :
    Writes (do w; w') fun config depth => (m config depth).append (m' config depth) where
  walk_eq e := by
    rw [e.walk_bind, h.walk_eq]
    rcases m e.config e.depth with ⟨text, _ | cut⟩
    · have h2 := h'.walk_eq { e with output := e.output ++ text }
      simpa [Emitter.take, Emission.append, Emission.result, String.append_assoc] using h2
    · rfl
  depth_le config depth cut hc := by
    rcases hm : m config depth with ⟨text, _ | cut'⟩
    · rw [hm] at hc
      exact h'.depth_le config depth cut hc
    · rw [hm] at hc
      exact h.depth_le config depth cut (hm ▸ hc)

/-- The depth is raised for what stands inside. If that is cut, the depth is not lowered again. -/
theorem inside (h : Writes w m) : Writes (do deepen; w; rise) fun config depth => m config (depth + 1) where
  walk_eq e := by
    have hdeepen : e.walk (do deepen; w; rise) = ({ e with depth := e.depth + 1 } : Emitter).walk (do w; rise) := rfl
    rw [hdeepen, Emitter.walk_bind, h.walk_eq]
    rcases m e.config (e.depth + 1) with ⟨text, _ | cut⟩ <;> rfl
  depth_le config depth cut hc := Nat.le_of_succ_le (h.depth_le config (depth + 1) cut hc)

theorem inside_seq (h : Writes w m) (h' : Writes w' m') :
    Writes (do deepen; w; rise; w') fun config depth => (m config (depth + 1)).append (m' config depth) := by
  have hs := h.inside.seq h'
  rwa [bind_assoc, bind_assoc] at hs

theorem pad : Writes Walk.pad fun config depth => .whole (Text.indent depth config.indentWidth) where
  walk_eq _ := rfl
  depth_le _ _ := nofun

theorem line (s : String) :
    Writes (Walk.line s) fun config depth => .ofLine config.indentWidth (textLine depth s) := by
  refine (pad.seq ((put s).seq (put "\n"))).congr fun config depth => ?_
  simp only [Emission.ofLine, textLine, Emission.ofFragment_text, Emission.ofFragment_nil, Emission.append_assoc,
    Emission.empty_append]

end Writes

end JavaScript

/-! ## Expressions and conditions -/

theorem Expr.writes_walk (e : Expr) : Writes e.walk fun config depth => .ofFragment depth (e.code config) := by
  induction e with
  | operand leaf =>
    cases leaf <;>
      exact (Writes.put _).congr fun config depth => by
        rw [code, Emission.ofFragment_text, Emission.ofFragment_nil, Emission.append_empty]
  | unary op inner ih =>
    rw [walk]
    cases hop : op.isUnary with
    | true =>
      refine ((Writes.put "(").seq ((Writes.put op.symbol).seq (ih.seq (Writes.put ")")))).congr fun config depth => ?_
      simp only [code, hop, if_true, Emission.ofFragment_text, Emission.ofFragment_append, Emission.ofFragment_nil,
        Emission.append_empty, Emission.whole_append_whole, List.cons_append]
    | false =>
      refine (Writes.fail _).congr fun config depth => ?_
      rw [code, hop]
      rfl
  | binary op left right ihl ihr =>
    rw [walk]
    cases hop : op.isUnary with
    | true =>
      refine (Writes.fail _).congr fun config depth => ?_
      rw [code, hop]
      rfl
    | false =>
      refine Writes.reading fun e => ⟨_, (Writes.putIf _ _).seq ((Writes.put "(").seq (ihl.seq
        ((Writes.put op.symbol).seq (ihr.seq ((Writes.put ")").seq (Writes.putIf _ _)))))), ?_⟩
      by_cases ht : e.config.truncateDivision = true ∧ op = .divide
      · have hw : (e.config.truncateDivision && decide (op = .divide)) = true := by simpa using ht
        simp only [code, hop, hw, if_pos ht, Bool.false_eq_true, if_false, if_true, List.cons_append, List.append_assoc,
          Emission.ofFragment_text, Emission.ofFragment_append, Emission.ofFragment_nil, Emission.append_empty,
          List.nil_append]
      · have hw : (e.config.truncateDivision && decide (op = .divide)) = false := by simpa using ht
        simp only [code, hop, hw, if_neg ht, Bool.false_eq_true, if_false, List.cons_append, List.append_assoc,
          Emission.ofFragment_text, Emission.ofFragment_append, Emission.ofFragment_nil, Emission.append_empty,
          Emission.empty_append]

theorem Condition.writes_walk (cond : Condition) :
    Writes cond.walk fun config depth => .ofFragment depth (cond.code config) := by
  cases cond with
  | odd inner =>
    refine ((Writes.put "((").seq (inner.writes_walk.seq (Writes.put " % 2) === 1)"))).congr fun config depth => ?_
    simp only [code, List.cons_append, Emission.ofFragment_text, Emission.ofFragment_append, Emission.ofFragment_nil,
      Emission.append_empty]
  | compare rel left right =>
    refine ((Writes.put "(").seq (left.writes_walk.seq ((Writes.put _).seq
      (right.writes_walk.seq (Writes.put ")"))))).congr fun config depth => ?_
    simp only [code, List.cons_append, List.append_assoc, Emission.ofFragment_text, Emission.ofFragment_append,
      Emission.ofFragment_nil, Emission.append_empty]

/-! ## Statements -/

namespace Statement

/-- What is put out for the body of an `if` or a `while`, from the end of the head on. -/
def bodyEmission (config : Config) (depth : Nat) (body : Statement) : Emission :=
  (Emission.ofFragment depth (brace body.isCompound)).append ((Emission.whole "\n").append (.ofLines config.indentWidth
    (if body.isCompound then (body.code config depth).tail else body.code config (depth + 1))))

theorem walkBody_of_isCompound {body : Statement} (h : body.isCompound = false) :
    body.walkBody = (do put "\n"; deepen; body.walk; rise) := by
  cases body with
  | compound ss => cases h
  | _ =>
    rw [walkBody]
    intro ss hs
    cases hs

/-- The head of an `if` or a `while`, then its body. -/
theorem writes_guarded {walk : Walk} (keyword : String) (cond : Condition) {body : Statement}
    (h : Writes walk fun config depth => bodyEmission config depth body) :
    Writes (do Walk.pad; put (keyword ++ " ("); cond.walk; put ")"; walk) fun config depth =>
      .ofLines config.indentWidth (⟨depth, head config keyword cond ++ brace body.isCompound⟩ ::
        if body.isCompound then (body.code config depth).tail else body.code config (depth + 1)) := by
  refine (Writes.pad.seq ((Writes.put _).seq (cond.writes_walk.seq ((Writes.put ")").seq h)))).congr
    fun config depth => ?_
  simp only [bodyEmission, head, Emission.ofLines, Emission.ofLine, List.cons_append, List.append_assoc,
    Emission.ofFragment_text, Emission.ofFragment_append, Emission.ofFragment_nil, Emission.append_assoc,
    Emission.empty_append]

mutual

theorem writes_walk : ∀ s : Statement,
    Writes s.walk fun config depth => .ofLines config.indentWidth (s.code config depth)
  | compound body => by
    rw [walk]
    refine ((Writes.line "\x7b").seq ((writes_walkInside body).seq (Writes.line "\x7d"))).congr fun config depth => ?_
    simp only [code, List.cons_append, Emission.ofLines, Emission.ofLines_append, Emission.append_empty]
  | assign name value => by
    rw [walk]
    refine (Writes.pad.seq ((Writes.put _).seq (value.writes_walk.seq (Writes.put ";\n")))).congr fun config depth => ?_
    rw [code, Emission.ofLines_between]
    rfl
  | call name => by
    rw [walk]
    refine (Writes.line _).congr fun config depth => ?_
    simp only [code, Emission.ofLines, Emission.append_empty]
  | write value => by
    have hcall : Writes (do put ((← get).config.printFunction ++ "("); value.walk; put ");\n") fun config depth =>
        (Emission.whole (config.printFunction ++ "(")).append
          ((Emission.ofFragment depth (value.code config)).append (Emission.whole ");\n")) :=
      Writes.reading fun e => ⟨_, (Writes.put _).seq (value.writes_walk.seq (Writes.put _)), rfl⟩
    rw [walk]
    refine (Writes.pad.seq hcall).congr fun config depth => ?_
    rw [code, Emission.ofLines_between]
    rfl
  | ifThen cond body => by
    rw [walk]
    exact (writes_guarded "if" cond (writes_walkBody body)).congr fun config depth => by rw [code_ifThen]
  | whileDo cond body => by
    rw [walk]
    exact (writes_guarded "while" cond (writes_walkBody body)).congr fun config depth => by rw [code_whileDo]
termination_by s => (sizeOf s, 0)

theorem writes_walkBody (body : Statement) :
    Writes body.walkBody fun config depth => bodyEmission config depth body := by
  cases body with
  | compound ss =>
    rw [walkBody]
    refine ((Writes.put _).seq ((writes_walkInside ss).seq (Writes.line "\x7d"))).congr fun config depth => ?_
    simp only [bodyEmission, isCompound, brace, code, if_true, List.cons_append, List.tail_cons, Emission.ofLines,
      Emission.ofLines_append, Emission.ofFragment_text, Emission.ofFragment_nil, Emission.append_empty,
      Emission.whole_append_whole]
    rfl
  | _ =>
    rw [walkBody_of_isCompound rfl]
    exact ((Writes.put "\n").seq (writes_walk _).inside).congr fun config depth =>
      (Emission.empty_append _).symm
termination_by (sizeOf body, 1)

theorem writes_walkInside (body : List Statement) :
    Writes (walkInside body) fun config depth => .ofLines config.indentWidth (codeAll config (depth + 1) body) := by
  rw [walkInside]
  exact (writes_walkAll body).inside
termination_by (sizeOf body, 1)

theorem writes_walkAll : ∀ ss : List Statement,
    Writes (walkAll ss) fun config depth => .ofLines config.indentWidth (codeAll config depth ss)
  | [] => by
    rw [walkAll]
    exact Writes.nothing
  | s :: ss => by
    rw [walkAll]
    refine ((writes_walk s).seq (writes_walkAll ss)).congr fun config depth => ?_
    rw [codeAll, Emission.ofLines_append]
termination_by ss => (sizeOf ss, 0)

end

end Statement

/-! ## Blocks and programs -/

theorem writes_symbols (ss : List Symbol) : Writes (ss.forM fun s => Walk.line s.code) fun config depth =>
    .ofLines config.indentWidth (ss.map fun s => textLine depth s.code) := by
  induction ss with
  | nil => exact Writes.nothing
  | cons s ss ih => exact (Writes.line s.code).seq ih

mutual

theorem Block.writes_walk : ∀ b : Block,
    Writes b.walk fun config depth => .ofLines config.indentWidth (b.code config depth)
  | ⟨symbols, procedures, statement⟩ => by
    rw [Block.walk]
    refine ((writes_symbols symbols.toList).seq ((Procedure.writes_walkAll procedures).seq
      statement.writes_walk)).congr fun config depth => ?_
    rw [Block.code, Emission.ofLines_append, Emission.ofLines_append, Emission.append_assoc]

theorem Procedure.writes_walk : ∀ p : Procedure,
    Writes p.walk fun config depth => .ofLines config.indentWidth (p.code config depth)
  | ⟨name, block⟩ => by
    rw [Procedure.walk]
    refine ((Writes.line _).seq ((Block.writes_walk block).inside_seq (Writes.line "\x7d"))).congr
      fun config depth => ?_
    simp only [Procedure.code, List.cons_append, Emission.ofLines, Emission.ofLines_append, Emission.append_empty]

theorem Procedure.writes_walkAll : ∀ ps : List Procedure,
    Writes (Procedure.walkAll ps) fun config depth => .ofLines config.indentWidth (Procedure.codeAll config depth ps)
  | [] => Writes.nothing
  | p :: ps => by
    rw [Procedure.walkAll]
    refine ((Procedure.writes_walk p).seq (Procedure.writes_walkAll ps)).congr fun config depth => ?_
    rw [Procedure.codeAll, Emission.ofLines_append]

end

/-- A line at the margin. -/
theorem JavaScript.Emission.ofLine_margin (width : Nat) (s : String) :
    ofLine width (textLine 0 s) = whole (s ++ "\n") := by
  have hindent : Text.indent 0 width = "" := by simp [Text.indent]
  simp only [ofLine, textLine, hindent, ofFragment_text, ofFragment_nil, append_assoc, empty_append]
  exact empty_append _

theorem Program.writes_walk (p : Program) :
    Writes p.walk fun config depth => .ofLines config.indentWidth (p.code config depth) := by
  refine ((Writes.put _).seq (p.block.writes_walk.inside_seq (Writes.put _))).congr fun config depth => ?_
  simp only [Program.code, List.cons_append, Emission.ofLines, Emission.ofLines_append, Emission.append_empty,
    Emission.ofLine_margin]

namespace JavaScript

/-- The walk over a node puts out the emission of the node. -/
theorem Node.writes_walk : ∀ n : Node, Writes n.walk fun config depth => n.emission config depth
  | program p => p.writes_walk
  | block b => b.writes_walk
  | procedure p => p.writes_walk
  | statement s => s.writes_walk
  | condition c => c.writes_walk
  | expr e => e.writes_walk

namespace Emitter

theorem visit_eq_take (e : Emitter) (n : Node) : e.visit n = e.take (n.emission e.config e.depth) :=
  n.writes_walk.walk_eq e

/-- Written afresh, a program is written as by a new emitter. -/
theorem visitAfresh_eq_take (e : Emitter) (p : Program) :
    e.visitAfresh p = (start e.config).take ((Node.program p).emission e.config 0) :=
  (start e.config).visit_eq_take (.program p)

/-- A node that is not cut is written whole. -/
theorem visit_eq_ok (e : Emitter) {n : Node} (h : (n.emission e.config e.depth).cut = none) :
    e.visit n = (.ok (), { e with output := e.output ++ (n.emission e.config e.depth).text }) := by
  rw [visit_eq_take, take, Emission.result, h]
  rfl

/-- A well-formed expression is written whole. -/
theorem visit_expr (e : Emitter) {x : Expr} (h : x.WellFormed) :
    e.visit (.expr x) = (.ok (), { e with output := e.output ++ (x.code e.config).text }) :=
  e.visit_eq_ok (congrArg (Option.map _) (x.fault?_code e.config h))

theorem config_step (e : Emitter) (s : Step) : (e.step s).2.config = e.config := by
  cases s with
  | visit n => rw [step, visit_eq_take, take]
  | afresh p => rw [step, visitAfresh_eq_take, take, start]

theorem config_after (e : Emitter) (history : List Step) : (e.after history).config = e.config := by
  induction history generalizing e with
  | nil => rfl
  | cons s history ih => exact (ih (e.step s).2).trans (e.config_step s)

theorem emit_eq_result (config : Config) (p : Program) :
    emit config p =
      ((Node.program p).emission config 0).result.map fun _ => ((Node.program p).emission config 0).text := by
  rw [emit, Emission.result]
  rcases (Node.program p).emission config 0 with ⟨text, _ | cut⟩ <;> rfl

/-- **Walks only append.** Wherever an emitter stands, a node is written after what is there, and what is written of it
and known in the end depends on nothing but the node, the configuration and the depth. If the node is written whole,
the depth is what it was, and if it is cut, it is no smaller. So whatever was written before, a program is written
afresh as by a new emitter, and as `emit` writes it. -/
theorem visit_only_appends (e : Emitter) (n : Node) (history : List Step) (p : Program) :
    (e.visit n).1 = (n.emission e.config e.depth).result ∧
      (e.visit n).2.output = e.output ++ (n.emission e.config e.depth).text ∧
      ((e.visit n).1 = .ok () → (e.visit n).2.depth = e.depth) ∧
      (∀ fault, (e.visit n).1 = .error fault → e.depth ≤ (e.visit n).2.depth) ∧
      (e.after history).visitAfresh p = (start e.config).visitAfresh p ∧
      (((e.after history).visitAfresh p).1.map fun _ => ((e.after history).visitAfresh p).2.output) =
        emit e.config p := by
  have hafresh : (e.after history).visitAfresh p = (start e.config).visitAfresh p := by
    rw [visitAfresh_eq_take, visitAfresh_eq_take, config_after]
    rfl
  have hdepth := n.writes_walk.depth_le e.config e.depth
  rw [hafresh, visitAfresh_eq_take, visit_eq_take, emit_eq_result]
  refine ⟨rfl, rfl, fun hok => ?_, fun fault hfault => ?_, rfl, ?_⟩
  · rcases hm : n.emission e.config e.depth with ⟨text, _ | cut⟩
    · rfl
    · rw [hm] at hok
      cases hok
  · rcases hm : n.emission e.config e.depth with ⟨text, _ | cut⟩
    · rw [hm] at hfault
      cases hfault
    · exact hdepth cut (by rw [hm]; rfl)
  · simp only [take, start, String.empty_append]

end Emitter

end JavaScript

end PL0
