/-
Texts of outlines. Every line of an outline is one line of the text, and begins with a word; so its depth is told by the
blanks before it. Main statement: `Program.outlineLines_eq_of_outline_eq`.
-/
import PL0.Proofs.Outline.Annotation

namespace PL0

open Text (Line)

theorem toList_renderAll_cons (width : Nat) (l : Line String) (ls : List (Line String)) :
    (Line.renderAll width (l :: ls)).toList =
      List.replicate (l.depth * width) ' ' ++ (l.content.toList ++ '\n' :: (Line.renderAll width ls).toList) := by
  simp [Line.renderAll, Line.render, Text.indent]

/-- The text of lines tells the lines. -/
theorem lines_eq_of_renderAll_eq {width : Nat} (hw : 0 < width) : ∀ {lines lines' : List (Line String)},
    (∀ l ∈ lines, OneLine l.content.toList) → (∀ l ∈ lines', OneLine l.content.toList) →
    Line.renderAll width lines = Line.renderAll width lines' → lines = lines'
  | [], [], _, _, _ => rfl
  | [], l' :: lines', _, _, h => by
    have hchars := congrArg String.toList h
    rw [toList_renderAll_cons] at hchars
    simp [Line.renderAll] at hchars
  | l :: lines, [], _, _, h => by
    have hchars := congrArg String.toList h
    rw [toList_renderAll_cons] at hchars
    simp [Line.renderAll] at hchars
  | l :: lines, l' :: lines', hc, hc', h => by
    obtain ⟨hl, hls⟩ := List.forall_mem_cons.1 hc
    obtain ⟨hl', hls'⟩ := List.forall_mem_cons.1 hc'
    have hchars := congrArg String.toList h
    rw [toList_renderAll_cons, toList_renderAll_cons] at hchars
    obtain ⟨hd, ht, hrest⟩ := line_append_inj hl hl' hchars
    have hline : l = l' := by
      cases l
      cases l'
      exact (Line.mk.injEq ..).mpr ⟨Nat.eq_of_mul_eq_mul_right hw hd, String.toList_injective ht⟩
    rw [hline, lines_eq_of_renderAll_eq hw hls hls' (String.toList_injective hrest)]

/-! ## Every line of an outline is one line -/

theorem Expr.leading_ne_nil {e : Expr} (h : e.Plain) : e.leading ≠ [] := by
  cases e with
  | operand leaf =>
    cases leaf with
    | number v => exact toString_ne_nil h
    | ident name =>
      obtain ⟨⟨c, cs, hname, -⟩, -⟩ := h
      simp [leading, hname]
  | unary op inner => cases op <;> simp [leading, Operator.label]
  | binary op left right => cases op <;> simp [leading, Operator.label]

theorem Expr.oneLine_outline (s : Scope) {e : Expr} (h : e.Plain) : OneLine (e.outline s).toList := by
  refine ⟨newline_not_mem_outline s h, fun c hc => ?_⟩
  rw [toList_outline, List.head?_append_of_ne_nil _ (leading_ne_nil h)] at hc
  rintro rfl
  exact absurd (isWordPart_leading h _ (List.mem_of_mem_head? hc)) (by decide)

theorem Condition.oneLine_outline (s : Scope) (depth : Nat) {c : Condition} (h : c.Plain) :
    ∀ l ∈ c.outline s depth, OneLine l.content.toList := by
  cases c with
  | odd inner =>
    have hinner := Expr.newline_not_mem_outline s h
    simp [outline, OneLine, hinner]
  | compare rel left right =>
    have hrel : OneLine rel.label.toList := by cases rel <;> simp [OneLine, Relation.label]
    simp [outline, hrel, Expr.oneLine_outline s h.1, Expr.oneLine_outline s h.2]

namespace Statement

mutual

theorem oneLine_outline (s : Scope) : ∀ {st : Statement}, st.Plain → ∀ (depth : Nat),
    ∀ l ∈ st.outline s depth, OneLine l.content.toList
  | compound body, h, depth => by
    rw [outline]
    exact List.forall_mem_cons.2 ⟨by simp [OneLine], oneLine_outlineAll s h (depth + 1)⟩
  | assign name value, h, depth => by
    have hname := s.newline_not_mem_annotate h.1
    exact List.forall_mem_cons.2 ⟨by simp [OneLine, hname], List.forall_mem_singleton.2 (value.oneLine_outline s h.2)⟩
  | call name, h, depth => by
    have hname := s.newline_not_mem_annotate h
    simp [outline, OneLine, hname]
  | write value, h, depth =>
    List.forall_mem_cons.2 ⟨by simp [OneLine], List.forall_mem_singleton.2 (value.oneLine_outline s h)⟩
  | ifThen cond body, h, depth | whileDo cond body, h, depth => by
    rw [outline, List.cons_append]
    exact List.forall_mem_cons.2 ⟨by simp [OneLine],
      List.forall_mem_append.2 ⟨cond.oneLine_outline s _ h.1, oneLine_outline s h.2 (depth + 1)⟩⟩

theorem oneLine_outlineAll (s : Scope) : ∀ {ss : List Statement}, AllPlain ss → ∀ (depth : Nat),
    ∀ l ∈ outlineAll s depth ss, OneLine l.content.toList
  | [], _, _ => List.forall_mem_nil _
  | _ :: _, h, depth => List.forall_mem_append.2 ⟨oneLine_outline s h.1 depth, oneLine_outlineAll s h.2 depth⟩

end

end Statement

theorem Symbol.oneLine_outline {s : Symbol} (h : s.Plain) : OneLine s.outline.toList := by
  obtain ⟨name, role, line⟩ := s
  have hname : '\n' ∉ name.toList := newline_not_mem_of_isWordPart (isWordPart_of_isName h.1)
  cases role with
  | constant v =>
    have hv : '\n' ∉ (toString v).toList := newline_not_mem_of_isWordPart fun c hc =>
      isWordPart_of_isDigit (isDigit_toString h.2 c hc)
    simp [outline, OneLine, hname, hv]
  | «variable» => simp [outline, OneLine, hname]

mutual

theorem Block.oneLine_outline : ∀ {b : Block}, b.Plain → ∀ (outer : List Block) (depth : Nat),
    ∀ l ∈ b.outline outer depth, OneLine l.content.toList
  | ⟨symbols, procedures, statement⟩, h, outer, depth => by
    have hlevel : '\n' ∉ Nat.toDigits 10 outer.length := newline_not_mem_of_isWordPart fun c hc =>
      isWordPart_of_isDigit ((fits_toDigits _).2 c hc)
    rw [Block.outline, List.cons_append, List.cons_append, List.append_assoc]
    refine List.forall_mem_cons.2 ⟨by simp [OneLine, hlevel], List.forall_mem_append.2 ⟨?_, List.forall_mem_append.2
      ⟨Procedure.oneLine_outlineAll h.2.1 _ _, statement.oneLine_outline _ h.2.2 _⟩⟩⟩
    intro l hl
    obtain ⟨s, hs, rfl⟩ := List.mem_map.1 hl
    exact Symbol.oneLine_outline (h.1 s hs)

theorem Procedure.oneLine_outlineAll : ∀ {ps : List Procedure}, Procedure.AllPlain ps → ∀ (outer : List Block)
    (depth : Nat), ∀ l ∈ Procedure.outlineAll outer depth ps, OneLine l.content.toList
  | [], _, _, _ => List.forall_mem_nil _
  | ⟨name, block⟩ :: ps, h, outer, depth => by
    have hname : '\n' ∉ name.toList := newline_not_mem_of_isWordPart (isWordPart_of_isName h.1.1)
    rw [Procedure.outlineAll, Procedure.outline, List.cons_append]
    exact List.forall_mem_cons.2 ⟨by simp [OneLine, hname], List.forall_mem_append.2
      ⟨Block.oneLine_outline h.1.2 _ _, Procedure.oneLine_outlineAll h.2 _ _⟩⟩

end

theorem Program.oneLine_outlineLines {p : Program} (h : p.Plain) :
    ∀ l ∈ p.outlineLines, OneLine l.content.toList :=
  List.forall_mem_cons.2 ⟨by simp [OneLine], Block.oneLine_outline h [] 1⟩

/-- The text of an outline tells its lines. -/
theorem Program.outlineLines_eq_of_outline_eq {p p' : Program} (h : p.Plain) (h' : p'.Plain)
    (he : p.outline = p'.outline) : p.outlineLines = p'.outlineLines := by
  have hwidth : 0 < outlineWidth := by decide
  exact lines_eq_of_renderAll_eq hwidth (oneLine_outlineLines h) (oneLine_outlineLines h') he

end PL0
