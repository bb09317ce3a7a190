/-
Expressions and names in an outline. What a name refers to stands after it in angle brackets and contains none, so it
ends where the first of them is closed. With a text after it that goes on no word, the text of an expression is that of
no other expression, whatever its names refer to. Main statement: `Expr.outline_append_inj`.
-/
import PL0.Outline
import PL0.Proofs.Front
import PL0.Proofs.JavaScript.Arithmetic
import PL0.Proofs.Plain

namespace PL0

/-- The text goes on no word. -/
def EndsWord (rest : List Char) : Prop := ∀ c ∈ rest.head?, isWordPart c = false

theorem endsWord_cons {c : Char} (h : isWordPart c = false) (rest : List Char) : EndsWord (c :: rest) := by
  rintro _ ⟨⟩
  exact h

theorem endsWord_nil : EndsWord [] := nofun

theorem newline_not_mem_of_isWordPart {cs : List Char} (h : ∀ c ∈ cs, isWordPart c = true) : '\n' ∉ cs :=
  fun hm => absurd (h _ hm) (by decide)

/-! ## Names -/

/-- A description closes no bracket and ends no line. -/
theorem Resolution.ne_of_mem_describe (r : Resolution) : ∀ c ∈ r.describe.toList, c ≠ '>' ∧ c ≠ '\n' := by
  obtain ⟨binding, distance⟩ := r
  have hdigits : ∀ n : Nat, ∀ c ∈ Nat.toDigits 10 n, c ≠ '>' ∧ c ≠ '\n' := by
    intro n c hc
    have hd := (fits_toDigits n).2 c hc
    constructor <;>
    · rintro rfl
      exact absurd hd (by decide)
  have hvalue : ∀ v : Int64, ∀ c ∈ (toString v).toList, c ≠ '>' ∧ c ≠ '\n' := by
    intro v
    by_cases hv : v < 0
    · rw [JavaScript.toString_of_neg hv]
      exact List.forall_mem_cons.2 ⟨by decide, hdigits _⟩
    · rw [JavaScript.toString_of_nonneg hv]
      exact hdigits _
  have hrepr : (toString distance).toList = Nat.toDigits 10 distance := Nat.toList_repr
  rw [describe, String.toList_append, String.toList_append, List.forall_mem_append, List.forall_mem_append]
  refine ⟨⟨?_, by simp⟩, hrepr ▸ hdigits distance⟩
  match binding with
  | .symbol ⟨_, .constant v, _⟩ =>
    rw [String.toList_append, List.forall_mem_append]
    exact ⟨by simp, hvalue v⟩
  | .symbol ⟨_, .variable, _⟩ => simp
  | .procedure _ => simp

namespace Scope

variable {s s' : Scope} {name name' : String} {rest rest' : List Char}

/-- What stands in the brackets after a name. -/
def description (s : Scope) (name : String) : String := ((s.resolve? name).map Resolution.describe).getD "unresolved"

theorem toList_annotate (s : Scope) (name : String) :
    (s.annotate name).toList = name.toList ++ ' ' :: '<' :: ((s.description name).toList ++ ['>']) := by
  simp [annotate, description]

theorem ne_of_mem_description (s : Scope) (name : String) :
    ∀ c ∈ (s.description name).toList, c ≠ '>' ∧ c ≠ '\n' := by
  rw [description]
  cases s.resolve? name with
  | none => simp
  | some r => exact r.ne_of_mem_describe

/-- A name is that of no other annotation, whatever it refers to. -/
theorem annotate_append_inj (hn : IsName name) (hn' : IsName name')
    (h : (s.annotate name).toList ++ rest = (s'.annotate name').toList ++ rest') : name = name' ∧ rest = rest' := by
  have hblank : ∀ cs, EndsWord (' ' :: cs) := fun cs => endsWord_cons (by decide) cs
  have hclose : ∀ (s : Scope) (name : String), '>' ∉ (s.description name).toList :=
    fun s name hm => (s.ne_of_mem_description name _ hm).1 rfl
  simp only [toList_annotate, List.append_assoc, List.cons_append, List.nil_append] at h
  obtain ⟨hname, h⟩ := append_inj_of_front (isWordPart_of_isName hn) (isWordPart_of_isName hn') (hblank _) (hblank _) h
  simp only [List.cons.injEq, true_and] at h
  exact ⟨String.toList_injective hname, (append_cons_inj (hclose _ _) (hclose _ _) h).2⟩

theorem newline_not_mem_annotate (s : Scope) (h : IsName name) : '\n' ∉ (s.annotate name).toList := by
  have hdescription : '\n' ∉ (s.description name).toList := fun hm => (s.ne_of_mem_description name _ hm).2 rfl
  simp [toList_annotate, newline_not_mem_of_isWordPart (isWordPart_of_isName h), hdescription]

end Scope

/-! ## Expressions -/

namespace Operator

theorem isWordPart_label (op : Operator) : ∀ c ∈ op.label.toList, isWordPart c = true := by
  have hall : op.label.toList.all isWordPart = true := by cases op <;> decide
  exact List.all_eq_true.1 hall

theorem label_injective {op op' : Operator} (h : op.label.toList = op'.label.toList) : op = op' := by
  revert h
  cases op <;> cases op' <;> decide

end Operator

namespace Expr

variable {s s' : Scope} {e e' : Expr} {rest rest' : List Char}

/-- The word that an expression begins with. -/
def leading : Expr → List Char
  | operand (.number v) => (toString v).toList
  | operand (.ident name) => name.toList
  | unary op _ | binary op _ _ => op.label.toList

/-- What follows the word that an expression begins with. -/
def following (s : Scope) : Expr → List Char
  | operand (.number _) => []
  | operand (.ident name) => ' ' :: '<' :: ((s.description name).toList ++ ['>'])
  | unary _ inner => '(' :: ((inner.outline s).toList ++ [')'])
  | binary _ left right => '(' :: ((left.outline s).toList ++ (", ".toList ++ ((right.outline s).toList ++ [')'])))

theorem toList_outline (s : Scope) (e : Expr) : (e.outline s).toList = e.leading ++ e.following s := by
  cases e with
  | operand leaf =>
    cases leaf with
    | number v => simp [outline, displayWith, Scope.annotateOperand, Operand.display, leading, following]
    | ident name => exact s.toList_annotate name
  | unary op inner => simp [outline, displayWith, leading, following]
  | binary op left right => simp [outline, displayWith, leading, following]

theorem isWordPart_leading (h : e.Plain) : ∀ c ∈ e.leading, isWordPart c = true := by
  cases e with
  | operand leaf =>
    cases leaf with
    | number v => exact fun c hc => isWordPart_of_isDigit (isDigit_toString h c hc)
    | ident name => exact isWordPart_of_isName h
  | unary op inner => exact op.isWordPart_label
  | binary op left right => exact op.isWordPart_label

theorem endsWord_following (s : Scope) (e : Expr) (hr : EndsWord rest) : EndsWord (e.following s ++ rest) := by
  cases e with
  | operand leaf =>
    cases leaf with
    | number v => exact hr
    | ident name => exact endsWord_cons (by decide) _
  | unary op inner => exact endsWord_cons (by decide) _
  | binary op left right => exact endsWord_cons (by decide) _

/-- A number begins with a digit, and no name or label does. -/
theorem toString_ne {v : Int64} (hv : 0 ≤ v) {word : List Char} (hw : ∀ c ∈ word.head?, c.isDigit = false) :
    (toString v).toList ≠ word := by
  rintro rfl
  obtain ⟨c, cs, hc⟩ := List.exists_cons_of_ne_nil (toString_ne_nil hv)
  have hd := isDigit_toString hv c (by simp [hc])
  rw [hw c (by simp [hc])] at hd
  cases hd

theorem isDigit_head?_name {name : String} (h : IsName name) : ∀ c ∈ name.toList.head?, c.isDigit = false := by
  obtain ⟨⟨c, cs, hname, hc, -⟩, -⟩ := h
  rw [hname]
  rintro _ ⟨⟩
  by_contra hd
  rw [isWordStart_eq_false_of_isDigit (by simpa using hd)] at hc
  cases hc

theorem isDigit_head?_label (op : Operator) : ∀ c ∈ op.label.toList.head?, c.isDigit = false := by
  cases op <;> simp [Operator.label]

theorem leading_eq_of_append (h : e.Plain) (h' : e'.Plain) (hr : EndsWord rest) (hr' : EndsWord rest')
    (he : (e.outline s).toList ++ rest = (e'.outline s').toList ++ rest') :
    e.leading = e'.leading ∧ e.following s ++ rest = e'.following s' ++ rest' := by
  rw [toList_outline, toList_outline, List.append_assoc, List.append_assoc] at he
  exact append_inj_of_front (isWordPart_leading h) (isWordPart_leading h') (e.endsWord_following s hr)
    (e'.endsWord_following s' hr') he

/-- The text of an expression is that of no other expression, whatever follows it. -/
theorem outline_append_inj (h : e.Plain) (h' : e'.Plain) (hr : EndsWord rest) (hr' : EndsWord rest')
    (he : (e.outline s).toList ++ rest = (e'.outline s').toList ++ rest') : e = e' ∧ rest = rest' := by
  have hclose : ∀ cs, EndsWord (')' :: cs) := endsWord_cons (by decide)
  have hcomma : ∀ cs, EndsWord (", ".toList ++ cs) := fun _ => endsWord_cons (by decide) _
  induction e generalizing e' rest rest' with
  | operand leaf =>
    obtain ⟨hl, hf⟩ := leading_eq_of_append h h' hr hr' he
    cases leaf with
    | number v =>
      cases e' with
      | operand leaf' =>
        cases leaf' with
        | number v' => exact ⟨by rw [toString_inj h h' hl], hf⟩
        | ident name' => exact absurd hl (toString_ne h (isDigit_head?_name h'))
      | unary op' _ | binary op' _ _ => exact absurd hl (toString_ne h (isDigit_head?_label op'))
    | ident name =>
      cases e' with
      | operand leaf' =>
        cases leaf' with
        | number v' => exact absurd hl.symm (toString_ne h' (isDigit_head?_name h))
        | ident name' =>
          obtain ⟨rfl, hrest⟩ := Scope.annotate_append_inj h h' he
          exact ⟨rfl, hrest⟩
      | unary op' _ | binary op' _ _ => simp [following] at hf
  | unary op inner ih =>
    obtain ⟨hl, hf⟩ := leading_eq_of_append h h' hr hr' he
    cases e' with
    | operand leaf' =>
      cases leaf' with
      | number v' => exact absurd hl.symm (toString_ne h' (isDigit_head?_label op))
      | ident name' => simp [following] at hf
    | unary op' inner' =>
      obtain rfl := Operator.label_injective hl
      simp only [following, List.cons_append, List.append_assoc, List.nil_append, List.cons.injEq, true_and] at hf
      obtain ⟨rfl, hrest⟩ := ih h.2 h'.2 (hclose _) (hclose _) hf
      exact ⟨rfl, (List.cons.inj hrest).2⟩
    | binary op' left' right' =>
      obtain rfl := Operator.label_injective hl
      exact absurd (h.1.symm.trans h'.1) (by decide)
  | binary op left right ihl ihr =>
    obtain ⟨hl, hf⟩ := leading_eq_of_append h h' hr hr' he
    cases e' with
    | operand leaf' =>
      cases leaf' with
      | number v' => exact absurd hl.symm (toString_ne h' (isDigit_head?_label op))
      | ident name' => simp [following] at hf
    | unary op' inner' =>
      obtain rfl := Operator.label_injective hl
      exact absurd (h'.1.symm.trans h.1) (by decide)
    | binary op' left' right' =>
      obtain rfl := Operator.label_injective hl
      simp only [following, List.cons_append, List.append_assoc, List.nil_append, List.cons.injEq, true_and] at hf
      obtain ⟨rfl, hright⟩ := ihl h.2.1 h'.2.1 (hcomma _) (hcomma _) hf
      obtain ⟨rfl, hrest⟩ := ihr h.2.2 h'.2.2 (hclose _) (hclose _) (List.append_cancel_left hright)
      exact ⟨rfl, (List.cons.inj hrest).2⟩

/-- An expression stands on one line. -/
theorem newline_not_mem_outline (s : Scope) (h : e.Plain) : '\n' ∉ (e.outline s).toList := by
  induction e with
  | operand leaf =>
    cases leaf with
    | number v =>
      rw [toList_outline]
      simpa [following] using newline_not_mem_of_isWordPart (isWordPart_leading h)
    | ident name => exact s.newline_not_mem_annotate h
  | unary op inner ih =>
    rw [toList_outline]
    simpa [following, ih h.2] using newline_not_mem_of_isWordPart (isWordPart_leading h)
  | binary op left right ihl ihr =>
    rw [toList_outline]
    simpa [following, ihl h.2.1, ihr h.2.2] using newline_not_mem_of_isWordPart (isWordPart_leading h)

end Expr

end PL0
