/-
Outlines lose nothing of a program but the lines of its symbols. The text falls apart into lines again, each with its
depth. The word that a line begins with tells what stands on it, and what belongs to a statement or to a block ends
where the depth goes back. Main statement: `eraseLines_eq_of_outline_eq`.
-/
import PL0.Proofs.Lines
import PL0.Proofs.Outline.Text

namespace PL0

open Text (Line)

/-! ## The word that a line begins with -/

/-- The word that a text begins with. -/
def wordAt (s : String) : String := String.ofList (s.toList.takeWhile isWordPart)

theorem wordAt_eq {s word : String} {rest : List Char} (hw : word.toList.all isWordPart = true) (hr : EndsWord rest)
    (hs : s.toList = word.toList ++ rest) : wordAt s = word := by
  rw [wordAt, hs, takeWhile_append_of_front (List.all_eq_true.1 hw) hr, String.ofList_toList]

/-- The word that the first line of a statement begins with. -/
def Statement.keyword : Statement → String
  | compound _ => "Compound"
  | assign _ _ => "Assign"
  | call _ => "Call"
  | write _ => "Write"
  | ifThen _ _ => "IfThen"
  | whileDo _ _ => "While"

/-- The words that the first line of a symbol begins with. -/
def Symbol.keywords : List String := ["Const", "Var"]

theorem Statement.keyword_ne (st : Statement) : st.keyword ≠ "Procedure" ∧ st.keyword ∉ Symbol.keywords := by
  cases st <;> simp [keyword, Symbol.keywords]

/-- What stands deeper than a depth ends before these lines. -/
def Rises (depth : Nat) (lines : List (Line String)) : Prop := ∀ l ∈ lines.head?, l.depth ≤ depth

theorem rises_nil (depth : Nat) : Rises depth [] := nofun

theorem Rises.deeper {depth : Nat} {lines : List (Line String)} (h : Rises depth lines) : Rises (depth + 1) lines :=
  fun l hl => Nat.le_succ_of_le (h l hl)

/-! ## Statements -/

section

variable {s s' : Scope} {depth : Nat} {r r' : List (Line String)}

theorem Expr.outline_inj {e e' : Expr} (h : e.Plain) (h' : e'.Plain) (he : e.outline s = e'.outline s') : e = e' := by
  have hchars : (e.outline s).toList ++ [] = (e'.outline s').toList ++ [] := by rw [he]
  exact (outline_append_inj h h' endsWord_nil endsWord_nil hchars).1

theorem Scope.annotate_inj {name name' : String} (h : IsName name) (h' : IsName name')
    (he : s.annotate name = s'.annotate name') : name = name' := by
  have hchars : (s.annotate name).toList ++ [] = (s'.annotate name').toList ++ [] := by rw [he]
  exact (annotate_append_inj h h' hchars).1

theorem Relation.label_injective {rel rel' : Relation} (h : rel.label = rel'.label) : rel = rel' := by
  revert h
  cases rel <;> cases rel' <;> decide

theorem Condition.outline_append_inj {c c' : Condition} (h : c.Plain) (h' : c'.Plain)
    (he : c.outline s depth ++ r = c'.outline s' depth ++ r') : c = c' ∧ r = r' := by
  have hne : ∀ (text : String) (rel : Relation), "Odd " ++ text ≠ rel.label := by
    intro text rel ht
    have hchars := congrArg String.toList ht
    cases rel <;> simp [Relation.label] at hchars
  cases c with
  | odd inner =>
    cases c' with
    | odd inner' =>
      simp only [outline, List.cons_append, List.nil_append, List.cons.injEq, Line.mk.injEq, true_and,
        String.append_right_inj] at he
      exact ⟨by rw [inner.outline_inj h h' he.1], he.2⟩
    | compare rel' left' right' =>
      simp only [outline, List.cons_append, List.cons.injEq, Line.mk.injEq, true_and] at he
      exact absurd he.1 (hne _ _)
  | compare rel left right =>
    cases c' with
    | odd inner' =>
      simp only [outline, List.cons_append, List.cons.injEq, Line.mk.injEq, true_and] at he
      exact absurd he.1.symm (hne _ _)
    | compare rel' left' right' =>
      simp only [outline, List.cons_append, List.nil_append, List.cons.injEq, Line.mk.injEq, true_and] at he
      obtain ⟨hrel, hleft, hright, hr⟩ := he
      exact ⟨by rw [Relation.label_injective hrel, left.outline_inj h.1 h'.1 hleft, right.outline_inj h.2 h'.2 hright],
        hr⟩

namespace Statement

theorem exists_outline_cons (s : Scope) (depth : Nat) (st : Statement) :
    ∃ l rest, st.outline s depth = l :: rest ∧ l.depth = depth ∧ wordAt l.content = st.keyword := by
  have hblank : ∀ cs, EndsWord (' ' :: cs) := endsWord_cons (by decide)
  cases st with
  | compound body => exact ⟨_, _, rfl, rfl, (by decide : wordAt "Compound" = "Compound")⟩
  | assign name value =>
    have hword : "Assign".toList.all isWordPart = true := by decide
    exact ⟨_, _, rfl, rfl, wordAt_eq hword (hblank (s.annotate name).toList) (by simp [keyword])⟩
  | call name =>
    have hword : "Call".toList.all isWordPart = true := by decide
    exact ⟨_, _, rfl, rfl, wordAt_eq hword (hblank (s.annotate name).toList) (by simp [keyword])⟩
  | write value => exact ⟨_, _, rfl, rfl, (by decide : wordAt "Write" = "Write")⟩
  | ifThen cond body => exact ⟨_, _, rfl, rfl, (by decide : wordAt "IfThen" = "IfThen")⟩
  | whileDo cond body => exact ⟨_, _, rfl, rfl, (by decide : wordAt "While" = "While")⟩

theorem keyword_eq_of_append {st st' : Statement} (h : st.outline s depth ++ r = st'.outline s' depth ++ r') :
    st.keyword = st'.keyword := by
  obtain ⟨l, rest, hl, -, hw⟩ := exists_outline_cons s depth st
  obtain ⟨l', rest', hl', -, hw'⟩ := exists_outline_cons s' depth st'
  rw [hl, hl'] at h
  rw [(List.cons.inj h).1] at hw
  exact hw.symm.trans hw'

theorem rises_outline (s : Scope) (st : Statement) (r : List (Line String)) :
    Rises depth (st.outline s depth ++ r) := by
  obtain ⟨l, rest, hl, hd, -⟩ := exists_outline_cons s depth st
  rw [hl]
  rintro _ ⟨⟩
  exact hd.le

theorem rises_outlineAll (s : Scope) (ss : List Statement) {r : List (Line String)} (hr : Rises depth r) :
    Rises depth (outlineAll s depth ss ++ r) := by
  cases ss with
  | nil => exact hr
  | cons st ss =>
    rw [outlineAll, List.append_assoc]
    exact rises_outline s st _

mutual

/-- The lines of a statement are those of no other statement, if what follows them stands no deeper. -/
theorem outline_append_inj : ∀ {st st' : Statement}, st.Plain → st'.Plain → ∀ {depth : Nat} {r r' : List (Line String)},
    Rises depth r → Rises depth r' → st.outline s depth ++ r = st'.outline s' depth ++ r' → st = st' ∧ r = r'
  | compound body, st', h, h', depth, r, r', hr, hr', he => by
    have hk := keyword_eq_of_append he
    cases st' with
    | compound body' =>
      simp only [outline, List.cons_append, List.cons.injEq, true_and] at he
      obtain ⟨hb, hrest⟩ := outlineAll_append_inj h h' hr hr' he
      exact ⟨by rw [hb], hrest⟩
    | _ => simp [keyword] at hk
  | assign name value, st', h, h', depth, r, r', hr, hr', he => by
    have hk := keyword_eq_of_append he
    cases st' with
    | assign name' value' =>
      simp only [outline, List.cons_append, List.nil_append, List.cons.injEq, Line.mk.injEq, true_and,
        String.append_right_inj] at he
      obtain ⟨hname, hvalue, hrest⟩ := he
      exact ⟨by rw [Scope.annotate_inj h.1 h'.1 hname, value.outline_inj h.2 h'.2 hvalue], hrest⟩
    | _ => simp [keyword] at hk
  | call name, st', h, h', depth, r, r', hr, hr', he => by
    have hk := keyword_eq_of_append he
    cases st' with
    | call name' =>
      simp only [outline, List.cons_append, List.nil_append, List.cons.injEq, Line.mk.injEq, true_and,
        String.append_right_inj] at he
      exact ⟨by rw [Scope.annotate_inj h h' he.1], he.2⟩
    | _ => simp [keyword] at hk
  | write value, st', h, h', depth, r, r', hr, hr', he => by
    have hk := keyword_eq_of_append he
    cases st' with
    | write value' =>
      simp only [outline, List.cons_append, List.nil_append, List.cons.injEq, Line.mk.injEq, true_and] at he
      exact ⟨by rw [value.outline_inj h h' he.1], he.2⟩
    | _ => simp [keyword] at hk
  | ifThen cond body, st', h, h', depth, r, r', hr, hr', he => by
    have hk := keyword_eq_of_append he
    cases st' with
    | ifThen cond' body' =>
      simp only [outline, List.cons_append, List.append_assoc, List.cons.injEq, true_and] at he
      obtain ⟨rfl, hb⟩ := Condition.outline_append_inj h.1 h'.1 he
      -- the body stands one level deeper, and what rises to the statement rises to its body too
      obtain ⟨rfl, hrest⟩ := outline_append_inj h.2 h'.2 hr.deeper hr'.deeper hb
      exact ⟨rfl, hrest⟩
    | _ => simp [keyword] at hk
  | whileDo cond body, st', h, h', depth, r, r', hr, hr', he => by
    have hk := keyword_eq_of_append he
    cases st' with
    | whileDo cond' body' =>
      simp only [outline, List.cons_append, List.append_assoc, List.cons.injEq, true_and] at he
      obtain ⟨rfl, hb⟩ := Condition.outline_append_inj h.1 h'.1 he
      obtain ⟨rfl, hrest⟩ := outline_append_inj h.2 h'.2 hr.deeper hr'.deeper hb
      exact ⟨rfl, hrest⟩
    | _ => simp [keyword] at hk

/-- Statements end where the depth goes back. -/
theorem outlineAll_append_inj : ∀ {ss ss' : List Statement}, AllPlain ss → AllPlain ss' →
    ∀ {depth : Nat} {r r' : List (Line String)}, Rises depth r → Rises depth r' →
      outlineAll s (depth + 1) ss ++ r = outlineAll s' (depth + 1) ss' ++ r' → ss = ss' ∧ r = r'
  | [], [], _, _, _, _, _, _, _, he => ⟨rfl, he⟩
  | [], st' :: ss', _, _, depth, r, r', hr, _, he => by
    obtain ⟨l, rest, hl, hd, -⟩ := exists_outline_cons s' (depth + 1) st'
    simp only [outlineAll, hl, List.nil_append, List.cons_append] at he
    have hle := hr l (by rw [he]; rfl)
    omega
  | st :: ss, [], _, _, depth, r, r', _, hr', he => by
    obtain ⟨l, rest, hl, hd, -⟩ := exists_outline_cons s (depth + 1) st
    simp only [outlineAll, hl, List.nil_append, List.cons_append] at he
    have hle := hr' l (by rw [← he]; rfl)
    omega
  | st :: ss, st' :: ss', h, h', depth, r, r', hr, hr', he => by
    simp only [outlineAll, List.append_assoc] at he
    obtain ⟨rfl, hss⟩ := outline_append_inj h.1 h'.1 (rises_outlineAll s ss hr.deeper)
      (rises_outlineAll s' ss' hr'.deeper) he
    obtain ⟨rfl, hrest⟩ := outlineAll_append_inj h.2 h'.2 hr hr' hss
    exact ⟨rfl, hrest⟩

end

end Statement

/-! ## Blocks -/

namespace Symbol

/-- A line declares a symbol. -/
def begins (l : Line String) : Bool := wordAt l.content ∈ keywords

theorem begins_outline (s : Symbol) : begins ⟨depth, s.outline⟩ = true := by
  have hblank : ∀ cs, EndsWord (' ' :: cs) := endsWord_cons (by decide)
  obtain ⟨name, role, line⟩ := s
  cases role with
  | constant v =>
    have hword : "Const".toList.all isWordPart = true := by decide
    rw [begins, wordAt_eq hword (hblank (name.toList ++ (" = ".toList ++ (toString v).toList))) (by simp [outline])]
    rfl
  | «variable» =>
    have hword : "Var".toList.all isWordPart = true := by decide
    rw [begins, wordAt_eq hword (hblank name.toList) (by simp [outline])]
    rfl

theorem eraseLine_eq_of_outline {s s' : Symbol} (h : s.Plain) (h' : s'.Plain) (he : s.outline = s'.outline) :
    s.eraseLine = s'.eraseLine := by
  have hequals : ∀ cs, EndsWord (" = ".toList ++ cs) := fun _ => endsWord_cons (by decide) _
  have hchars := congrArg String.toList he
  obtain ⟨name, role, line⟩ := s
  obtain ⟨name', role', line'⟩ := s'
  cases role with
  | constant v =>
    cases role' with
    | constant v' =>
      simp only [outline, String.toList_append, List.append_assoc, List.append_cancel_left_eq] at hchars
      obtain ⟨hname, hv⟩ := append_inj_of_front (isWordPart_of_isName h.1) (isWordPart_of_isName h'.1) (hequals _)
        (hequals _) hchars
      rw [eraseLine, eraseLine, String.toList_injective hname, toString_inj h.2 h'.2 (List.append_cancel_left hv)]
    | «variable» => simp [outline] at hchars
  | «variable» =>
    cases role' with
    | constant v' => simp [outline] at hchars
    | «variable» =>
      rw [outline, outline, String.append_right_inj] at he
      rw [eraseLine, eraseLine, he]

end Symbol

theorem map_eraseLine_eq_of_outline : ∀ {ss ss' : List Symbol}, (∀ s ∈ ss, s.Plain) → (∀ s ∈ ss', s.Plain) →
    ss.map (fun s => (⟨depth, s.outline⟩ : Line String)) = ss'.map (fun s => ⟨depth, s.outline⟩) →
    ss.map Symbol.eraseLine = ss'.map Symbol.eraseLine
  | [], [], _, _, _ => rfl
  | s :: ss, s' :: ss', h, h', he => by
    obtain ⟨hs, hss⟩ := List.forall_mem_cons.1 h
    obtain ⟨hs', hss'⟩ := List.forall_mem_cons.1 h'
    obtain ⟨hline, hlines⟩ := List.cons.inj he
    rw [List.map_cons, List.map_cons, Symbol.eraseLine_eq_of_outline hs hs' (Line.mk.inj hline).2,
      map_eraseLine_eq_of_outline hss hss' hlines]

theorem Procedure.wordAt_heading (name : String) : wordAt ("Procedure " ++ name) = "Procedure" := by
  have hword : "Procedure".toList.all isWordPart = true := by decide
  have hblank : EndsWord (' ' :: name.toList) := endsWord_cons (by decide) _
  exact wordAt_eq hword hblank (by simp)

theorem Procedure.rises_outlineAll (outer : List Block) (s : Scope) (ps : List Procedure) (st : Statement)
    (r : List (Line String)) : Rises depth (Procedure.outlineAll outer depth ps ++ (st.outline s depth ++ r)) := by
  cases ps with
  | nil => exact st.rises_outline s r
  | cons p ps =>
    obtain ⟨name, block⟩ := p
    rintro _ ⟨⟩
    exact le_rfl

/-- After its symbols a block goes on with a procedure or with its statement. -/
theorem begins_after_symbols (outer : List Block) (s : Scope) (ps : List Procedure) (st : Statement)
    (r : List (Line String)) :
    ∀ l ∈ (Procedure.outlineAll outer depth ps ++ (st.outline s depth ++ r)).head?, Symbol.begins l = false := by
  cases ps with
  | nil =>
    obtain ⟨l, rest, hl, -, hw⟩ := st.exists_outline_cons s depth
    rw [Procedure.outlineAll, hl]
    rintro _ ⟨⟩
    rw [Symbol.begins, hw]
    exact decide_eq_false st.keyword_ne.2
  | cons p ps =>
    obtain ⟨name, block⟩ := p
    rintro _ ⟨⟩
    rw [Symbol.begins, Procedure.wordAt_heading]
    rfl

/-- A procedure does not begin as a statement does. -/
theorem Statement.ne_heading (s : Scope) (st : Statement) (name : String) (r r' : List (Line String)) :
    st.outline s depth ++ r ≠ ⟨depth, "Procedure " ++ name⟩ :: r' := by
  obtain ⟨l, rest, hl, -, hw⟩ := st.exists_outline_cons s depth
  rw [hl]
  intro he
  rw [(List.cons.inj he).1, Procedure.wordAt_heading] at hw
  exact st.keyword_ne.1 hw.symm

mutual

/-- The lines of a block are those of no other block, if what follows them stands no deeper than its statement. -/
theorem Block.outline_append_inj : ∀ {b b' : Block}, b.Plain → b'.Plain → ∀ {outer outer' : List Block} {depth : Nat}
    {r r' : List (Line String)}, Rises (depth + 1) r → Rises (depth + 1) r' →
    b.outline outer depth ++ r = b'.outline outer' depth ++ r' → b.eraseLines = b'.eraseLines ∧ r = r'
  | ⟨symbols, procedures, statement⟩, ⟨symbols', procedures', statement'⟩, h, h', outer, outer', depth, r, r', hr, hr',
      he => by
    simp only [Block.outline, List.cons_append, List.append_assoc, List.cons.injEq] at he
    have hsym : ∀ ss : List Symbol, ∀ l ∈ ss.map fun s => (⟨depth + 1, s.outline⟩ : Line String),
        Symbol.begins l = true := by
      intro ss l hl
      obtain ⟨s, -, rfl⟩ := List.mem_map.1 hl
      exact s.begins_outline
    obtain ⟨hs, hrest⟩ := append_inj_of_front (hsym _) (hsym _) (begins_after_symbols _ _ _ _ _)
      (begins_after_symbols _ _ _ _ _) he.2
    obtain ⟨hp, hst⟩ := Procedure.outlineAll_append_inj h.2.1 h'.2.1 hrest
    obtain ⟨rfl, hr⟩ := Statement.outline_append_inj h.2.2 h'.2.2 hr hr' hst
    have hsymbols : symbols.eraseLines = symbols'.eraseLines :=
      Declarations.ext_toList (map_eraseLine_eq_of_outline h.1 h'.1 hs)
    exact ⟨by rw [Block.eraseLines, Block.eraseLines, hsymbols, hp], hr⟩

/-- Procedures end where a statement begins. -/
theorem Procedure.outlineAll_append_inj : ∀ {ps ps' : List Procedure}, Procedure.AllPlain ps → Procedure.AllPlain ps' →
    ∀ {outer outer' : List Block} {s s' : Scope} {st st' : Statement} {depth : Nat} {r r' : List (Line String)},
    Procedure.outlineAll outer depth ps ++ (st.outline s depth ++ r) =
      Procedure.outlineAll outer' depth ps' ++ (st'.outline s' depth ++ r') →
    Procedure.eraseAllLines ps = Procedure.eraseAllLines ps' ∧ st.outline s depth ++ r = st'.outline s' depth ++ r'
  | [], [], _, _, _, _, _, _, _, _, _, _, _, he => ⟨rfl, he⟩
  | [], ⟨_, _⟩ :: _, _, _, _, _, _, _, _, _, _, _, _, he => absurd he (Statement.ne_heading _ _ _ _ _)
  | ⟨_, _⟩ :: _, [], _, _, _, _, _, _, _, _, _, _, _, he => absurd he.symm (Statement.ne_heading _ _ _ _ _)
  | ⟨name, block⟩ :: ps, ⟨name', block'⟩ :: ps', h, h', outer, outer', s, s', st, st', depth, r, r', he => by
    simp only [Procedure.outlineAll, Procedure.outline, List.cons_append, List.append_assoc, List.cons.injEq,
      Line.mk.injEq, true_and, String.append_right_inj] at he
    obtain ⟨rfl, hb⟩ := he
    -- the statement of the procedure's block stands two levels deeper than the heads that follow it
    obtain ⟨hblock, hrest⟩ := Block.outline_append_inj h.1.2 h'.1.2
      (Procedure.rises_outlineAll _ _ _ _ _).deeper.deeper (Procedure.rises_outlineAll _ _ _ _ _).deeper.deeper hb
    obtain ⟨hps, hst⟩ := Procedure.outlineAll_append_inj h.2 h'.2 hrest
    exact ⟨by rw [Procedure.eraseAllLines, Procedure.eraseAllLines, Procedure.eraseLines, Procedure.eraseLines, hblock,
      hps], hst⟩

end

/-- Programs with the same lines in their outlines differ in nothing but the lines of their symbols. -/
theorem Program.eraseLines_eq_of_outlineLines {p p' : Program} (h : p.Plain) (h' : p'.Plain)
    (he : p.outlineLines = p'.outlineLines) : p.eraseLines = p'.eraseLines := by
  have hblock : p.block.outline [] 1 ++ [] = p'.block.outline [] 1 ++ [] :=
    congrArg (· ++ []) (List.cons.inj he).2
  obtain ⟨hb, -⟩ := Block.outline_append_inj h h' (rises_nil _) (rises_nil _) hblock
  rw [Program.eraseLines, Program.eraseLines, hb]

/-- **Outlines lose no structure.** Two programs that are read from texts and have the same outline differ in nothing
but the lines of their symbols. -/
theorem eraseLines_eq_of_outline_eq {source source' : String} {p p' : Program} (h : readSource source = .ok p)
    (h' : readSource source' = .ok p') (he : p.outline = p'.outline) : p.eraseLines = p'.eraseLines := by
  have hp := plain_of_readSource h
  have hp' := plain_of_readSource h'
  exact Program.eraseLines_eq_of_outlineLines hp hp' (Program.outlineLines_eq_of_outline_eq hp hp' he)

/-- Prints the double of a constant twice, with the constant declared on the line. -/
def doubling (line : Nat) : Program :=
  ⟨⟨.ofList [⟨"x", .constant 7, line⟩], [⟨"p", ⟨.empty, [], .write (.binary .plus (.operand (.ident "x"))
    (.operand (.ident "x")))⟩⟩], .compound [.call "p", .call "p"]⟩⟩

/-- Two layouts of one program. -/
theorem eraseLines_eq_of_outline_eq_doubling :
    readSource "const x = 7; procedure p; ! x + x; begin call p; call p end." = .ok (doubling 1) ∧
      readSource "const\nx = 007; procedure p; ! (x) + x; begin call p; call p end." = .ok (doubling 2) ∧
      (doubling 1).eraseLines = (doubling 2).eraseLines := by
  have h : readSource "const x = 7; procedure p; ! x + x; begin call p; call p end." = .ok (doubling 1) := by cbv
  have h' : readSource "const\nx = 007; procedure p; ! (x) + x; begin call p; call p end." = .ok (doubling 2) := by cbv
  exact ⟨h, h', eraseLines_eq_of_outline_eq h h' rfl⟩

end

end PL0
