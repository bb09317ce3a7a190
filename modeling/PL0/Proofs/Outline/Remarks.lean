/-
The remarks of an outline read back. An outline remarks the level of every block and, after every name that a statement
refers to, what that name refers to. They stand in brackets after a blank, and so does nothing else, so that they can be
read from the text, which knows no blocks; they are those that follow from the nesting of the blocks. Main statement:
`remarks_outline`.
-/
import PL0.Proofs.Nesting
import PL0.Proofs.Nodes
import PL0.Proofs.Outline.Text

namespace PL0

open Text (Line)

/-! ## Reading remarks -/

/-- What an outline remarks: the level of a block, or what a name refers to. -/
inductive Remark where
  | block (text : String)
  | name (name text : String)
deriving DecidableEq, Repr

/-- The place that a reader of remarks has reached: in the text, with the word that ends there, or inside the brackets of a
remark, with how they are closed, the remark that their text makes and what of the text stands before it. -/
inductive Remark.Place where
  | outside (word : List Char)
  | inside (close : Char) (make : String → Remark) (before : List Char)

/-- The remarks of a text from a place on. -/
def remarksFrom : Remark.Place → List Char → List Remark
  | _, [] => []
  | .outside word, ' ' :: '<' :: cs => remarksFrom (.inside '>' (.name (.ofList word)) []) cs
  | .outside _, ' ' :: '(' :: cs => remarksFrom (.inside ')' .block []) cs
  | .outside word, c :: cs => remarksFrom (.outside (if isWordPart c then word ++ [c] else [])) cs
  | .inside close make before, c :: cs =>
    if c = close then make (.ofList before) :: remarksFrom (.outside []) cs
    else remarksFrom (.inside close make (before ++ [c])) cs

/-- The remarks of a text. -/
def remarks (text : String) : List Remark := remarksFrom (.outside []) text.toList

/-- A text without the remarks on its names; `inside` tells whether it begins inside one. -/
def unannotatedFrom : (inside : Bool) → List Char → List Char
  | _, [] => []
  | false, ' ' :: '<' :: cs => unannotatedFrom true cs
  | false, c :: cs => c :: unannotatedFrom false cs
  | true, c :: cs => if c = '>' then unannotatedFrom false cs else unannotatedFrom true cs

/-- A text without the remarks on its names. -/
def unannotated (text : String) : String := .ofList (unannotatedFrom false text.toList)

/-- The text goes on no word and begins with no remark. -/
def Parted (rest : List Char) : Prop := ∀ c ∈ rest.head?, isWordPart c = false ∧ c ≠ ' '

theorem parted_cons {c : Char} (h : isWordPart c = false ∧ c ≠ ' ') (rest : List Char) : Parted (c :: rest) := by
  rintro _ ⟨⟩
  exact h

/-- The text begins with a word. -/
def BeginsWord (cs : List Char) : Prop := ∃ c rest, cs = c :: rest ∧ isWordPart c = true

theorem BeginsWord.append {cs : List Char} (h : BeginsWord cs) (rest : List Char) : BeginsWord (cs ++ rest) := by
  obtain ⟨c, cs, rfl, hc⟩ := h
  exact ⟨c, cs ++ rest, rfl, hc⟩

section

variable {word before text rest : List Char} {c : Char}

theorem remarksFrom_cons (hb : c ≠ ' ') : remarksFrom (.outside word) (c :: rest) =
    remarksFrom (.outside (if isWordPart c then word ++ [c] else [])) rest := by
  rw [remarksFrom]
  · rintro cs rfl -
    exact hb rfl
  · rintro cs rfl -
    exact hb rfl

theorem remarksFrom_word (h : ∀ c ∈ text, isWordPart c = true) :
    remarksFrom (.outside word) (text ++ rest) = remarksFrom (.outside (word ++ text)) rest := by
  induction text generalizing word with
  | nil => rw [List.append_nil, List.nil_append]
  | cons c text ih =>
    obtain ⟨hc, htext⟩ := List.forall_mem_cons.1 h
    rw [List.cons_append, remarksFrom_cons (ne_of_isWordPart hc (by decide)), if_pos hc, ih htext, List.append_assoc, List.singleton_append]

theorem remarksFrom_mark (hc : isWordPart c = false ∧ c ≠ ' ') :
    remarksFrom (.outside word) (c :: rest) = remarksFrom (.outside []) rest := by
  rw [remarksFrom_cons hc.2, hc.1, if_neg Bool.false_ne_true]

theorem remarksFrom_parted (h : Parted rest) : remarksFrom (.outside word) rest = remarksFrom (.outside []) rest := by
  cases rest with
  | nil => rfl
  | cons c rest =>
    rw [remarksFrom_mark (h c rfl), remarksFrom_mark (h c rfl)]

theorem remarksFrom_blank (h : ∀ c ∈ rest.head?, c ≠ '<' ∧ c ≠ '(') :
    remarksFrom (.outside word) (' ' :: rest) = remarksFrom (.outside []) rest := by
  rw [remarksFrom]
  · rfl
  · rintro cs - rfl
    exact (h '<' rfl).1 rfl
  · rintro cs - rfl
    exact (h '(' rfl).2 rfl

theorem remarksFrom_inside {close : Char} {make : String → Remark} (h : close ∉ text) :
    remarksFrom (.inside close make before) (text ++ close :: rest) =
      make (.ofList (before ++ text)) :: remarksFrom (.outside []) rest := by
  induction text generalizing before with
  | nil => rw [List.nil_append, remarksFrom, if_pos rfl, List.append_nil]
  | cons c text ih =>
    rw [List.mem_cons, not_or] at h
    rw [List.cons_append, remarksFrom, if_neg (Ne.symm h.1), ih h.2, List.append_assoc, List.singleton_append]

theorem remarksFrom_blank_word (h : BeginsWord rest) :
    remarksFrom (.outside word) (' ' :: rest) = remarksFrom (.outside []) rest := by
  obtain ⟨c, cs, rfl, hc⟩ := h
  refine remarksFrom_blank ?_
  rintro _ ⟨⟩
  exact ⟨ne_of_isWordPart hc (by decide), ne_of_isWordPart hc (by decide)⟩

/-! ## Leaving remarks out -/

theorem unannotatedFrom_cons (hb : c ≠ ' ') :
    unannotatedFrom false (c :: rest) = c :: unannotatedFrom false rest := by
  rw [unannotatedFrom]
  rintro cs rfl -
  exact hb rfl

theorem unannotatedFrom_word (h : ∀ c ∈ text, isWordPart c = true) :
    unannotatedFrom false (text ++ rest) = text ++ unannotatedFrom false rest := by
  induction text with
  | nil => rfl
  | cons c text ih =>
    obtain ⟨hc, htext⟩ := List.forall_mem_cons.1 h
    rw [List.cons_append, unannotatedFrom_cons (ne_of_isWordPart hc (by decide)), ih htext, List.cons_append]

theorem unannotatedFrom_blank_word (h : BeginsWord rest) :
    unannotatedFrom false (' ' :: rest) = ' ' :: unannotatedFrom false rest := by
  obtain ⟨c, cs, rfl, hc⟩ := h
  rw [unannotatedFrom]
  rintro cs' - ⟨⟩
  exact absurd hc (by decide)

theorem unannotatedFrom_inside (h : '>' ∉ text) :
    unannotatedFrom true (text ++ '>' :: rest) = unannotatedFrom false rest := by
  induction text with
  | nil => rw [List.nil_append, unannotatedFrom, if_pos rfl]
  | cons c text ih =>
    rw [List.mem_cons, not_or] at h
    rw [List.cons_append, unannotatedFrom, if_neg (Ne.symm h.1), ih h.2]

end

/-! ## Remarks of expressions -/

/-- What an outline remarks on a name. -/
def Scope.remark (s : Scope) (name : String) : Remark := .name name (s.description name)

theorem Scope.remarksFrom_annotate (s : Scope) {name : String} (h : IsName name) (rest : List Char) :
    remarksFrom (.outside []) ((s.annotate name).toList ++ rest) = s.remark name :: remarksFrom (.outside []) rest := by
  have hclose : '>' ∉ (s.description name).toList := fun hm => (s.ne_of_mem_description name _ hm).1 rfl
  rw [s.toList_annotate, List.append_assoc, remarksFrom_word (isWordPart_of_isName h), List.cons_append,
    List.cons_append, List.append_assoc, List.singleton_append, remarksFrom, remarksFrom_inside hclose]
  simp [remark]

namespace Expr

variable {e : Expr} {rest : List Char}

theorem beginsWord_outline (s : Scope) (h : e.Plain) : BeginsWord (e.outline s).toList := by
  obtain ⟨c, cs, hc⟩ := List.exists_cons_of_ne_nil (leading_ne_nil h)
  refine ⟨c, cs ++ e.following s, by rw [toList_outline, hc, List.cons_append], ?_⟩
  exact isWordPart_leading h c (by rw [hc]; exact List.mem_cons_self)

/-- The remarks of an expression are those on its names. -/
theorem remarksFrom_outline (s : Scope) (h : e.Plain) (hr : Parted rest) :
    remarksFrom (.outside []) ((e.outline s).toList ++ rest) =
      e.names.map s.remark ++ remarksFrom (.outside []) rest := by
  induction e generalizing rest with
  | operand leaf =>
    cases leaf with
    | number v =>
      rw [toList_outline, List.append_assoc, remarksFrom_word (isWordPart_leading h)]
      exact remarksFrom_parted hr
    | ident name => exact s.remarksFrom_annotate h rest
  | unary op inner ih =>
    rw [toList_outline, List.append_assoc, remarksFrom_word (isWordPart_leading h)]
    simp only [following, List.cons_append, List.append_assoc, List.nil_append]
    rw [remarksFrom_mark (by decide), ih h.2 (parted_cons (by decide) _), remarksFrom_mark (by decide), names]
  | binary op left right ihl ihr =>
    have hright : BeginsWord ((right.outline s).toList ++ ')' :: rest) := (right.beginsWord_outline s h.2.2).append _
    rw [toList_outline, List.append_assoc, remarksFrom_word (isWordPart_leading h)]
    simp only [following, List.cons_append, List.append_assoc, List.nil_append, String.reduceToList]
    rw [remarksFrom_mark (by decide), ihl h.2.1 (parted_cons (by decide) _), remarksFrom_mark (by decide),
      remarksFrom_blank_word hright, ihr h.2.2 (parted_cons (by decide) _), remarksFrom_mark (by decide), names,
      List.map_append, List.append_assoc]

/-- An expression without the remarks on its names is what it is displayed as. -/
theorem unannotatedFrom_outline (s : Scope) (h : e.Plain) :
    unannotatedFrom false ((e.outline s).toList ++ rest) = e.display.toList ++ unannotatedFrom false rest := by
  induction e generalizing rest with
  | operand leaf =>
    cases leaf with
    | number v => exact unannotatedFrom_word (isWordPart_leading (e := .operand (.number v)) h)
    | ident name =>
      have hclose : '>' ∉ (s.description name).toList := fun hm => (s.ne_of_mem_description name _ hm).1 rfl
      rw [toList_outline, List.append_assoc, unannotatedFrom_word (isWordPart_leading h)]
      simp only [following, List.cons_append, List.append_assoc, List.nil_append]
      rw [unannotatedFrom, unannotatedFrom_inside hclose]
      rfl
  | unary op inner ih =>
    rw [toList_outline, List.append_assoc, unannotatedFrom_word (isWordPart_leading h)]
    simp only [following, List.cons_append, List.append_assoc, List.nil_append]
    rw [unannotatedFrom_cons (by decide), ih h.2, unannotatedFrom_cons (by decide)]
    simp [display, displayWith, leading]
  | binary op left right ihl ihr =>
    have hright : BeginsWord ((right.outline s).toList ++ ')' :: rest) := (right.beginsWord_outline s h.2.2).append _
    rw [toList_outline, List.append_assoc, unannotatedFrom_word (isWordPart_leading h)]
    simp only [following, List.cons_append, List.append_assoc, List.nil_append, String.reduceToList]
    rw [unannotatedFrom_cons (by decide), ihl h.2.1, unannotatedFrom_cons (by decide), unannotatedFrom_blank_word hright,
      ihr h.2.2, unannotatedFrom_cons (by decide)]
    simp [display, displayWith, leading]

theorem unannotated_outline (s : Scope) (h : e.Plain) : unannotated (e.outline s) = e.display := by
  have hall : unannotatedFrom false ((e.outline s).toList ++ []) = e.display.toList ++ [] :=
    unannotatedFrom_outline s h
  rw [List.append_nil, List.append_nil] at hall
  rw [unannotated, hall, String.ofList_toList]

end Expr

/-! ## Remarks of lines -/

theorem remarksFrom_indent {cs : List Char} (h : BeginsWord cs) (n : Nat) :
    remarksFrom (.outside []) (List.replicate n ' ' ++ cs) = remarksFrom (.outside []) cs := by
  induction n with
  | zero => rfl
  | succ n ih =>
    rw [List.replicate_succ, List.cons_append, ← ih]
    cases n with
    | zero => exact remarksFrom_blank_word h
    | succ n => exact remarksFrom_blank (by simp [List.replicate_succ])

theorem toList_renderAll_append (width : Nat) (lines lines' : List (Line String)) :
    (Line.renderAll width (lines ++ lines')).toList =
      (Line.renderAll width lines).toList ++ (Line.renderAll width lines').toList := by
  simp [Line.renderAll]

/-- The lines bear the remarks, whatever follows them. -/
def Bears (lines : List (Line String)) (rs : List Remark) : Prop :=
  ∀ rest, remarksFrom (.outside []) ((Line.renderAll outlineWidth lines).toList ++ rest) =
    rs ++ remarksFrom (.outside []) rest

theorem bears_nil : Bears [] [] := fun _ => rfl

theorem Bears.append {lines lines' : List (Line String)} {rs rs' : List Remark} (h : Bears lines rs)
    (h' : Bears lines' rs') : Bears (lines ++ lines') (rs ++ rs') := by
  intro rest
  rw [toList_renderAll_append, List.append_assoc, h, h', List.append_assoc]

theorem Bears.cons {l : Line String} {lines : List (Line String)} {rs rs' : List Remark} (h : Bears [l] rs)
    (h' : Bears lines rs') : Bears (l :: lines) (rs ++ rs') :=
  h.append h'

/-- The content of a line bears the remarks. It begins with a word, so that the blanks before it begin none. -/
structure LineBears (content : List Char) (rs : List Remark) : Prop where
  begins : BeginsWord content
  bears : ∀ rest, remarksFrom (.outside []) (content ++ '\n' :: rest) = rs ++ remarksFrom (.outside []) rest

namespace LineBears

variable {content : List Char} {rs : List Remark}

theorem bears_line {depth : Nat} {text : String} (h : LineBears text.toList rs) : Bears [⟨depth, text⟩] rs := by
  intro rest
  rw [toList_renderAll_cons, List.append_assoc, List.append_assoc, List.cons_append,
    remarksFrom_indent (h.begins.append _)]
  exact h.bears rest

/-- One word bears none. -/
theorem word (hne : content ≠ []) (h : ∀ c ∈ content, isWordPart c = true) : LineBears content [] := by
  obtain ⟨c, cs, rfl⟩ := List.exists_cons_of_ne_nil hne
  refine ⟨⟨c, cs, rfl, h c List.mem_cons_self⟩, fun rest => ?_⟩
  rw [remarksFrom_word h, remarksFrom_mark (by decide)]
  rfl

/-- Nor does a word before the rest of a line. -/
theorem heading (h : LineBears content rs) (head text : String) (hhead : head.toList.all isWordPart = true)
    (hne : head.toList ≠ []) (ht : text.toList = head.toList ++ ' ' :: content) : LineBears text.toList rs := by
  have hall := List.all_eq_true.1 hhead
  rw [ht]
  refine ⟨(word hne hall).begins.append _, fun rest => ?_⟩
  rw [List.append_assoc, remarksFrom_word hall, List.cons_append, remarksFrom_blank_word (h.begins.append _)]
  exact h.bears rest

theorem keyword {text : String} (h : text.toList.all isWordPart = true) (hne : text.toList ≠ []) :
    LineBears text.toList [] :=
  word hne (List.all_eq_true.1 h)

theorem outline (s : Scope) {e : Expr} (h : e.Plain) : LineBears (e.outline s).toList (e.names.map s.remark) := by
  refine ⟨e.beginsWord_outline s h, fun rest => ?_⟩
  rw [Expr.remarksFrom_outline s h (parted_cons (by decide) rest), remarksFrom_mark (by decide)]

theorem annotate (s : Scope) {name : String} (h : IsName name) :
    LineBears (s.annotate name).toList [s.remark name] :=
  outline s (e := .operand (.ident name)) h

theorem name {name : String} (h : IsName name) : LineBears name.toList [] :=
  word (Expr.leading_ne_nil (e := .operand (.ident name)) h) (isWordPart_of_isName h)

end LineBears

theorem Condition.bears_outline (s : Scope) {c : Condition} (h : c.Plain) (depth : Nat) :
    Bears (c.outline s depth) ((c.operands.flatMap Expr.names).map s.remark) := by
  cases c with
  | odd inner =>
    have hline := (LineBears.outline s h).heading "Odd" ("Odd " ++ inner.outline s) (by decide) (by decide) (by simp)
    rw [outline, operands, List.flatMap_singleton]
    exact hline.bears_line
  | compare rel left right =>
    have hrel : LineBears rel.label.toList [] := by cases rel <;> exact .keyword (by decide) (by decide)
    rw [outline, operands, List.flatMap_cons, List.flatMap_singleton, List.map_append]
    exact hrel.bears_line.cons ((LineBears.outline s h.1).bears_line.cons (LineBears.outline s h.2).bears_line)

namespace Statement

mutual

/-- The names that a statement refers to, in the order of its outline. -/
def names : Statement → List String
  | compound body => allNames body
  | assign name value => name :: value.names
  | call name => [name]
  | write value => value.names
  | ifThen cond body | whileDo cond body => cond.operands.flatMap Expr.names ++ names body

def allNames : List Statement → List String
  | [] => []
  | st :: sts => names st ++ allNames sts

end

mutual

theorem bears_outline (s : Scope) : ∀ {st : Statement}, st.Plain → ∀ depth : Nat,
    Bears (st.outline s depth) (st.names.map s.remark)
  | compound body, h, depth => by
    have hhead : LineBears "Compound".toList [] := .keyword (by decide) (by decide)
    exact hhead.bears_line.cons (bears_outlineAll s h (depth + 1))
  | assign name value, h, depth => by
    have hhead := (LineBears.annotate s h.1).heading "Assign" ("Assign " ++ s.annotate name) (by decide) (by decide) (by simp)
    exact hhead.bears_line.cons (LineBears.outline s h.2).bears_line
  | call name, h, depth => by
    have hhead := (LineBears.annotate s h).heading "Call" ("Call " ++ s.annotate name) (by decide) (by decide) (by simp)
    exact hhead.bears_line
  | write value, h, depth => by
    have hhead : LineBears "Write".toList [] := .keyword (by decide) (by decide)
    exact hhead.bears_line.cons (LineBears.outline s h).bears_line
  | ifThen cond body, h, depth => by
    have hhead : LineBears "IfThen".toList [] := .keyword (by decide) (by decide)
    rw [outline, names, List.map_append]
    exact hhead.bears_line.cons ((cond.bears_outline s h.1 _).append (bears_outline s h.2 _))
  | whileDo cond body, h, depth => by
    have hhead : LineBears "While".toList [] := .keyword (by decide) (by decide)
    rw [outline, names, List.map_append]
    exact hhead.bears_line.cons ((cond.bears_outline s h.1 _).append (bears_outline s h.2 _))

theorem bears_outlineAll (s : Scope) : ∀ {sts : List Statement}, AllPlain sts → ∀ depth : Nat,
    Bears (outlineAll s depth sts) ((allNames sts).map s.remark)
  | [], _, _ => bears_nil
  | st :: sts, h, depth => by
    rw [outlineAll, allNames, List.map_append]
    exact (bears_outline s h.1 depth).append (bears_outlineAll s h.2 depth)

end

end Statement

theorem Symbol.bears_outline {s : Symbol} (h : s.Plain) (depth : Nat) : Bears [⟨depth, s.outline⟩] [] := by
  obtain ⟨name, role, line⟩ := s
  cases role with
  | constant v =>
    have hdigits : ∀ c ∈ (toString v).toList, isWordPart c = true := fun c hc =>
      isWordPart_of_isDigit (isDigit_toString h.2 c hc)
    have hvalue := LineBears.word (toString_ne_nil h.2) hdigits
    have hcontent : LineBears (name.toList ++ " = ".toList ++ (toString v).toList) [] := by
      refine ⟨((LineBears.name h.1).begins.append _).append _, fun rest => ?_⟩
      simp only [List.append_assoc, String.reduceToList, List.cons_append, List.nil_append]
      rw [remarksFrom_word (isWordPart_of_isName h.1), remarksFrom_blank (by simp), remarksFrom_mark (by decide),
        remarksFrom_blank_word (hvalue.begins.append _)]
      exact hvalue.bears rest
    have hline := hcontent.heading "Const" ("Const " ++ name ++ " = " ++ toString v) (by decide) (by decide) (by simp)
    exact hline.bears_line
  | «variable» =>
    have hline := (LineBears.name h.1).heading "Var" ("Var " ++ name) (by decide) (by decide) (by simp)
    exact hline.bears_line

theorem Symbol.bears_outlineAll {ss : List Symbol} (h : ∀ s ∈ ss, s.Plain) (depth : Nat) :
    Bears (ss.map fun s => ⟨depth, s.outline⟩) [] := by
  induction ss with
  | nil => exact bears_nil
  | cons s ss ih =>
    obtain ⟨hs, hss⟩ := List.forall_mem_cons.1 h
    exact (Symbol.bears_outline hs depth).cons (ih hss)

/-! ## Remarks of blocks -/

mutual

/-- What an outline has to remark on a block. `around` are the procedures around it, the outermost first, and `main` is the
block of the program, so that the scope of the block is that of the chain of their blocks. -/
def Block.remarks (main : Block) (around : List Procedure) : Block → List Remark
  | ⟨_, procedures, statement⟩ =>
    .block ("level " ++ toString around.length) :: Procedure.allRemarks main around procedures ++
      statement.names.map (Scope.chain main (around.map (·.block))).remark

def Procedure.allRemarks (main : Block) (around : List Procedure) : List Procedure → List Remark
  | [] => []
  | ⟨name, block⟩ :: ps => Block.remarks main (around ++ [⟨name, block⟩]) block ++ Procedure.allRemarks main around ps

end

/-- What an outline has to remark on a program. -/
def Program.remarks (p : Program) : List Remark := Block.remarks p.block [] p.block

theorem LineBears.level (n : Nat) :
    LineBears ("Block (level " ++ toString n ++ ")").toList [.block ("level " ++ toString n)] := by
  have hclose : ')' ∉ ("level " ++ toString n).toList := by
    rw [String.toList_append, List.mem_append, not_or]
    refine ⟨by decide, fun hm => ?_⟩
    rw [show (toString n).toList = Nat.toDigits 10 n from Nat.toList_repr] at hm
    exact absurd ((fits_toDigits n).2 _ hm) (by decide)
  have htext : ("Block (level " ++ toString n ++ ")").toList =
      "Block".toList ++ ' ' :: '(' :: (("level " ++ toString n).toList ++ [')']) := by simp
  have hword : ∀ c ∈ "Block".toList, isWordPart c = true := List.all_eq_true.1 (by decide)
  rw [htext]
  refine ⟨(word (by decide) hword).begins.append _, fun rest => ?_⟩
  rw [List.append_assoc, remarksFrom_word hword, List.cons_append, List.cons_append, List.append_assoc,
    List.singleton_append, remarksFrom, remarksFrom_inside hclose, List.nil_append, String.ofList_toList,
    remarksFrom_mark (by decide)]
  rfl

theorem Scope.child_chain (b : Block) (bs : List Block) (c : Block) : (chain b bs).child c = chain b (bs ++ [c]) := by
  rw [chain, chain, List.foldl_append]
  rfl

mutual

/-- The lines of a block bear its remarks, if the blocks that the walk of the outline has passed are those around it. -/
theorem Block.bears_outline (main : Block) : ∀ {b : Block}, b.Plain → ∀ {around : List Procedure} {outer : List Block},
    Scope.chain main (around.map (·.block)) = ⟨b, outer⟩ → ∀ depth : Nat,
      Bears (b.outline outer depth) (Block.remarks main around b)
  | ⟨symbols, procedures, statement⟩, h, around, outer, hs, depth => by
    have hlevel : outer.length = around.length := by
      have hl := Scope.level_chain main (around.map (·.block))
      rwa [hs, List.length_map] at hl
    have hsymbols := Symbol.bears_outlineAll h.1 (depth + 1)
    have hprocedures := Procedure.bears_outlineAll main h.2.1 hs (depth + 1)
    have hstatement := Statement.bears_outline ⟨⟨symbols, procedures, statement⟩, outer⟩ h.2.2 (depth + 1)
    rw [Block.outline, Block.remarks, hs, hlevel]
    exact (((LineBears.level _).bears_line.append hsymbols).append hprocedures).append hstatement

theorem Procedure.bears_outlineAll (main : Block) : ∀ {ps : List Procedure}, Procedure.AllPlain ps →
    ∀ {around : List Procedure} {b : Block} {outer : List Block}, Scope.chain main (around.map (·.block)) = ⟨b, outer⟩ →
      ∀ depth : Nat, Bears (Procedure.outlineAll (b :: outer) depth ps) (Procedure.allRemarks main around ps)
  | [], _, _, _, _, _, _ => bears_nil
  | ⟨name, block⟩ :: ps, h, around, b, outer, hs, depth => by
    have hhead := (LineBears.name h.1.1).heading "Procedure" ("Procedure " ++ name) (by decide) (by decide) (by simp)
    -- the walk goes inside by one procedure
    have hinner : Scope.chain main ((around ++ [(⟨name, block⟩ : Procedure)]).map (·.block)) = ⟨block, b :: outer⟩ := by
      rw [List.map_append, List.map_singleton, ← Scope.child_chain, hs]
      rfl
    rw [Procedure.outlineAll, Procedure.outline, Procedure.allRemarks]
    exact (hhead.bears_line.cons (Block.bears_outline main h.1.2 hinner (depth + 1))).append
      (Procedure.bears_outlineAll main h.2 hs depth)

end

theorem Program.remarks_of_outline {p : Program} (h : p.Plain) : PL0.remarks p.outline = p.remarks := by
  have hhead : LineBears "Program".toList [] := .keyword (by decide) (by decide)
  have hmain : Scope.chain p.block (([] : List Procedure).map (·.block)) = ⟨p.block, []⟩ := rfl
  have hlines : Bears p.outlineLines p.remarks := hhead.bears_line.cons (Block.bears_outline p.block h hmain 1)
  have hall := hlines []
  rw [List.append_nil, show remarksFrom (.outside []) [] = [] from rfl, List.append_nil] at hall
  exact hall

/-! ## Expressions of plain programs -/

theorem Condition.plain_operands {c : Condition} (h : c.Plain) : ∀ e ∈ c.operands, e.Plain := by
  cases c with
  | odd inner => exact List.forall_mem_singleton.2 h
  | compare rel left right => exact List.forall_mem_cons.2 ⟨h.1, List.forall_mem_singleton.2 h.2⟩

mutual

theorem Statement.plain_exprs : ∀ {st : Statement}, st.Plain → ∀ e ∈ st.exprs, e.Plain
  | .compound _, h => Statement.plain_allExprs h
  | .assign _ _, h => List.forall_mem_singleton.2 h.2
  | .call _, _ => List.forall_mem_nil _
  | .write _, h => List.forall_mem_singleton.2 h
  | .ifThen cond _, h | .whileDo cond _, h =>
    List.forall_mem_append.2 ⟨cond.plain_operands h.1, Statement.plain_exprs h.2⟩

theorem Statement.plain_allExprs : ∀ {sts : List Statement}, Statement.AllPlain sts →
    ∀ e ∈ Statement.allExprs sts, e.Plain
  | [], _ => List.forall_mem_nil _
  | _ :: _, h => List.forall_mem_append.2 ⟨Statement.plain_exprs h.1, Statement.plain_allExprs h.2⟩

end

mutual

theorem Block.plain_exprs : ∀ {b : Block}, b.Plain → ∀ e ∈ b.exprs, e.Plain
  | ⟨_, _, _⟩, h => List.forall_mem_append.2 ⟨Procedure.plain_allExprs h.2.1, Statement.plain_exprs h.2.2⟩

theorem Procedure.plain_allExprs : ∀ {ps : List Procedure}, Procedure.AllPlain ps →
    ∀ e ∈ Procedure.allExprs ps, e.Plain
  | [], _ => List.forall_mem_nil _
  | ⟨_, _⟩ :: _, h => List.forall_mem_append.2 ⟨Block.plain_exprs h.1.2, Procedure.plain_allExprs h.2⟩

end

/-- **Outlines remark what the nesting of blocks says.** From the text of an outline of a program that is read from a text, one
reads for each block how many procedures are around it, and after every name that a statement refers to, what the name
refers to in the chain of the blocks around the statement, in the order in which they stand in the program. Without its
remarks an expression is what it is displayed as. -/
theorem remarks_outline {source : String} {p : Program} (h : readSource source = .ok p) :
    remarks p.outline = p.remarks ∧ ∀ e ∈ p.block.exprs, ∀ s : Scope, unannotated (e.outline s) = e.display := by
  have hp := plain_of_readSource h
  exact ⟨Program.remarks_of_outline hp, fun e he s => e.unannotated_outline s (Block.plain_exprs hp e he)⟩

/-- Declares a name anew further in, and calls a procedure from where it is not seen. -/
def shadowing : Program :=
  ⟨⟨.ofList [⟨"k", .constant 4, 1⟩],
    [⟨"p", ⟨.ofList [⟨"k", .variable, 1⟩],
      [⟨"q", ⟨.empty, [], .assign "k" (.binary .plus (.operand (.ident "k")) (.operand (.number 1)))⟩⟩], .call "q"⟩⟩],
    .compound [.call "p", .call "q", .write (.operand (.ident "k"))]⟩⟩

set_option maxRecDepth 2000 in
theorem remarks_outline_shadowing :
    readSource "const k = 4; procedure p; var k; procedure q; k := k + 1; call q; begin call p; call q; ! k end." =
        .ok shadowing ∧
      remarks shadowing.outline =
        [.block "level 0", .block "level 1", .block "level 2", .name "k" "var, distance 1", .name "k" "var, distance 1",
          .name "q" "procedure, distance 0", .name "p" "procedure, distance 0", .name "q" "unresolved",
          .name "k" "const = 4, distance 0"] ∧
      ∀ s : Scope, unannotated
        ((Expr.binary .plus (.operand (.ident "k")) (.operand (.number 1))).outline s) = "PLUS(k, 1)" := by
  have h : readSource
      "const k = 4; procedure p; var k; procedure q; k := k + 1; call q; begin call p; call q; ! k end." =
      .ok shadowing := by cbv
  obtain ⟨hremarks, hexprs⟩ := remarks_outline h
  have hshown : shadowing.block.exprs =
      [.binary .plus (.operand (.ident "k")) (.operand (.number 1)), .operand (.ident "k")] := rfl
  rw [hshown] at hexprs
  exact ⟨h, hremarks.trans rfl, fun s => (hexprs _ List.mem_cons_self s).trans rfl⟩

end PL0
