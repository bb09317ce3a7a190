/-
Characters side by side in the text of an expression. No sign, star or slash follows another, so no `--`, `++`, `//` or
`/*` is read where two operators meet, and no number of more than one digit begins with a zero. Both follow from the
atoms of which the text is made. Main statement: `visit_expr_keeps_apart`.
-/
import PL0.Proofs.JavaScript.Truncation

namespace PL0

namespace JavaScript

/-- The characters of which two side by side would be read as another operator or as a comment. -/
def arithmetic : List Char := ['+', '-', '*', '/']

/-- No two of the characters stand side by side. -/
def Unfused (cs : List Char) : Prop := cs.IsChain fun c d => ¬(c ∈ arithmetic ∧ d ∈ arithmetic)

section

variable {c : Char} {cs : List Char} {as : List Atom}

theorem Unfused.cons (hc : c ∉ arithmetic) (h : Unfused cs) : Unfused (c :: cs) :=
  List.isChain_cons.2 ⟨fun _ _ hm => hc hm.1, h⟩

theorem Unfused.append_left {run : List Char} (hrun : ∀ c ∈ run, c ∉ arithmetic) (h : Unfused cs) :
    Unfused (run ++ cs) := by
  induction run with
  | nil => exact h
  | cons c run ih =>
    obtain ⟨hc, hrun⟩ := List.forall_mem_cons.1 hrun
    exact .cons hc (ih hrun)

theorem isOperatorPart_of_mem_arithmetic (h : c ∈ arithmetic) : isOperatorPart c = true := by
  have hall : (arithmetic.all isOperatorPart) = true := by decide
  exact List.all_eq_true.1 hall c h

theorem not_mem_arithmetic_of_isNamePart (h : isNamePart c = true) : c ∉ arithmetic := by
  have hall : (arithmetic.all fun d => !isNamePart d) = true := by decide
  intro hm
  simpa [h] using List.all_eq_true.1 hall c hm

/-- What is read as one operator has at most one of the characters. -/
theorem unfused_of_ofOperator? {run : List Char} {a : Atom} (h : Atom.ofOperator? run = some a) : Unfused run := by
  have hall : ∀ o ∈ operations, Unfused o.1 := by simp [operations, Unfused, arithmetic]
  obtain ⟨op, hop, -⟩ := Option.map_eq_some_iff.1 h
  obtain ⟨l, l', he, -⟩ := List.lookup_eq_some_iff.1 hop
  exact hall (run, op) (he ▸ by simp)

theorem not_mem_arithmetic_of_isBlank (h : Text.isBlank c = true) : c ∉ arithmetic := by
  have hall : (arithmetic.all fun d => !Text.isBlank d) = true := by decide
  intro hm
  simpa [h] using List.all_eq_true.1 hall c hm

/-- In a text that is made of atoms no two of the characters stand side by side. -/
theorem unfused_of_atoms? (h : atoms? cs = some as) : Unfused cs := by
  fun_induction atoms? cs generalizing as with
  | case1 => exact .nil
  | case2 c cs hblank ih => exact .cons (not_mem_arithmetic_of_isBlank hblank) (ih h)
  | case3 cs _ ih | case4 cs _ _ ih | case5 cs _ _ _ ih =>
    obtain ⟨bs, hbs, -⟩ := Option.map_eq_some_iff.1 h
    exact .cons (by decide) (ih hbs)
  | case6 c cs _ _ _ _ hname ih =>
    obtain ⟨_, -, h⟩ := Option.bind_eq_some_iff.1 h
    obtain ⟨bs, hbs, -⟩ := Option.map_eq_some_iff.1 h
    have hrun : ∀ d ∈ c :: cs.takeWhile isNamePart, d ∉ arithmetic :=
      List.forall_mem_cons.2 ⟨not_mem_arithmetic_of_isNamePart hname, fun d hd =>
        not_mem_arithmetic_of_isNamePart (of_mem_takeWhile hd)⟩
    have hall := Unfused.append_left hrun (ih hbs)
    rwa [List.cons_append, List.takeWhile_append_dropWhile] at hall
  | case7 c cs _ _ _ _ _ _ ih =>
    obtain ⟨_, hrun, h⟩ := Option.bind_eq_some_iff.1 h
    obtain ⟨bs, hbs, -⟩ := Option.map_eq_some_iff.1 h
    have hnext : ∀ d ∈ (cs.dropWhile isOperatorPart).head?, d ∉ arithmetic := fun d hd hm =>
      absurd (isOperatorPart_of_mem_arithmetic hm) (by simp [of_mem_head?_dropWhile hd])
    have hall := (unfused_of_ofOperator? hrun).append (ih hbs) fun _ _ d hd hm => hnext d hd hm.2
    rwa [List.cons_append, List.takeWhile_append_dropWhile] at hall
  | case8 => cases h

theorem dropWhile_append_of_ne_nil {p : Char → Bool} {front rest : List Char}
    (h : front.dropWhile p = [] → rest.dropWhile p = rest) :
    (front ++ rest).dropWhile p = front.dropWhile p ++ rest := by
  rw [List.dropWhile_append]
  split
  · rename_i he
    rw [List.isEmpty_iff.1 he, List.nil_append, h (List.isEmpty_iff.1 he)]
  · rfl

/-- A text that is made of atoms is made of atoms from every place on where no name and no operator goes on. -/
theorem exists_atoms?_of_append {rest : List Char} (hr : ∀ c ∈ rest.head?, isOperatorPart c = false) :
    ∀ {front : List Char} {as : List Atom}, atoms? (front ++ rest) = some as →
      (∀ c ∈ front.getLast?, isNamePart c = false) → ∃ bs, atoms? rest = some bs
  | [], as, h, _ => ⟨as, h⟩
  | c :: front, as, h, hf => by
    have hlast : ∀ tail, tail <:+ front → ∀ d ∈ tail.getLast?, isNamePart d = false := by
      rintro tail hsuffix d hd
      obtain ⟨more, hmore⟩ := hsuffix.trans (List.suffix_cons c front)
      exact hf d (hmore ▸ List.mem_getLast?_append_of_mem_getLast? hd)
    have hlength := List.length_dropWhile_le isNamePart front
    have hlength' := List.length_dropWhile_le isOperatorPart front
    rw [List.cons_append, atoms?] at h
    split at h
    · exact exists_atoms?_of_append hr h (hlast front List.suffix_rfl)
    split at h
    · obtain ⟨bs, hbs, -⟩ := Option.map_eq_some_iff.1 h
      exact exists_atoms?_of_append hr hbs (hlast front List.suffix_rfl)
    split at h
    · obtain ⟨bs, hbs, -⟩ := Option.map_eq_some_iff.1 h
      exact exists_atoms?_of_append hr hbs (hlast front List.suffix_rfl)
    split at h
    · obtain ⟨bs, hbs, -⟩ := Option.map_eq_some_iff.1 h
      exact exists_atoms?_of_append hr hbs (hlast front List.suffix_rfl)
    split at h
    · rename_i hname
      obtain ⟨_, -, h⟩ := Option.bind_eq_some_iff.1 h
      obtain ⟨bs, hbs, -⟩ := Option.map_eq_some_iff.1 h
      -- the name ends in front of the place, because no character of a name stands there
      have hends : front.dropWhile isNamePart ≠ [] := by
        intro he
        have hall : ∀ d ∈ c :: front, isNamePart d = true :=
          List.forall_mem_cons.2 ⟨hname, List.dropWhile_eq_nil_iff.1 he⟩
        have hl := hf _ (List.getLast?_eq_some_getLast (List.cons_ne_nil c front))
        rw [hall _ (List.getLast_mem _)] at hl
        cases hl
      rw [dropWhile_append_of_ne_nil fun he => absurd he hends] at hbs
      exact exists_atoms?_of_append hr hbs (hlast _ (List.dropWhile_suffix _))
    split at h
    · obtain ⟨_, -, h⟩ := Option.bind_eq_some_iff.1 h
      obtain ⟨bs, hbs, -⟩ := Option.map_eq_some_iff.1 h
      have hrest : rest.dropWhile isOperatorPart = rest := dropWhile_append_of_front (List.forall_mem_nil _) hr
      rw [dropWhile_append_of_ne_nil fun _ => hrest] at hbs
      exact exists_atoms?_of_append hr hbs (hlast _ (List.dropWhile_suffix _))
    · cases h
termination_by front => front.length

/-- A number without needless zeros begins with a zero only if it is zero. -/
theorem head?_toDigits_ne {n : Nat} (h : 0 < n) : (Nat.toDigits 10 n).head? ≠ some '0' := by
  induction n using Nat.strong_induction_on with
  | _ n ih =>
    by_cases hn : n < 10
    · have hdigit : ∀ n < 10, 0 < n → Nat.digitChar n ≠ '0' := by decide
      rw [Nat.toDigits_of_lt_base hn]
      simpa using hdigit n hn h
    · have hten : 10 ≤ n := Nat.le_of_not_lt hn
      rw [Nat.toDigits_of_base_le (by decide) hten, List.head?_append_of_ne_nil _ Nat.toDigits_ne_nil]
      exact ih (n / 10) (by omega) (by omega)

/-- A run that begins with a digit is read as a number or not at all. -/
theorem digits_of_ofName? {d : Char} {run : List Char} {a : Atom} (h : Atom.ofName? (d :: run) = some a)
    (hd : d.isDigit = true) :
    (∀ c ∈ d :: run, c.isDigit = true) ∧ (d :: run = ['0'] ∨ (d :: run).head? ≠ some '0') := by
  rw [Atom.ofName?] at h
  split at h
  · rename_i hall
    refine ⟨List.all_eq_true.1 hall, ?_⟩
    split at h
    · rename_i hdigits
      rw [hdigits]
      rcases Nat.eq_zero_or_pos (Text.decimalValue (d :: run)) with hzero | hpos
      · exact .inl (by rw [hzero]; rfl)
      · exact .inr (head?_toDigits_ne hpos)
    · cases h
  · simp [hd] at h

/-- A number in a text that is made of atoms is zero or begins with another digit. -/
theorem number_of_atoms? {front run back : List Char} (h : atoms? (front ++ (run ++ back)) = some as)
    (hne : run ≠ []) (hrun : ∀ c ∈ run, c.isDigit = true) (hf : ∀ c ∈ front.getLast?, isNamePart c = false)
    (hb : ∀ c ∈ back.head?, c.isDigit = false) : run = ['0'] ∨ run.head? ≠ some '0' := by
  obtain ⟨d, ds, rfl⟩ := List.exists_cons_of_ne_nil hne
  obtain ⟨hd, hds⟩ := List.forall_mem_cons.1 hrun
  have hname : ∀ {c : Char}, c.isDigit = true → isNamePart c = true := fun hc => by
    simp [isNamePart, isWordPart_of_isDigit hc]
  have hoperator : isOperatorPart d = false := aside_of_isNamePart hne (fun c hc => hname (hrun c hc)) back d rfl
  obtain ⟨bs, hbs⟩ := exists_atoms?_of_append (by rintro _ ⟨⟩; exact hoperator) h hf
  -- the run goes on as far as a name would, and what is more than its digits would be no number
  have hword : ∀ c ∈ d :: (ds ++ back.takeWhile isNamePart), isNamePart c = true :=
    List.forall_mem_cons.2 ⟨hname hd,
      List.forall_mem_append.2 ⟨fun c hc => hname (hds c hc), fun _ => of_mem_takeWhile⟩⟩
  have hrest : Apart (back.dropWhile isNamePart) := fun _ => of_mem_head?_dropWhile
  have hsplit : d :: ds ++ back = d :: (ds ++ back.takeWhile isNamePart) ++ back.dropWhile isNamePart := by simp
  rw [hsplit, atoms?_name (List.cons_ne_nil _ _) hword hrest] at hbs
  obtain ⟨a, ha, -⟩ := Option.bind_eq_some_iff.1 hbs
  obtain ⟨hall, hzero⟩ := digits_of_ofName? ha hd
  have hnone : back.takeWhile isNamePart = [] := by
    cases back with
    | nil => rfl
    | cons c back =>
      by_contra hmore
      have hc : isNamePart c = true := by
        by_contra hc
        exact hmore (by simp [hc])
      have hdigit := hall c (by simp [hc])
      rw [hb c rfl] at hdigit
      cases hdigit
  rwa [hnone, List.append_nil] at hzero

end

end JavaScript

open JavaScript

/-- **Neighbours.** An expression is written whole, and in its text no two of the characters `+`, `-`, `*` and `/`
stand side by side. A run of digits that goes on in neither direction and is no part of a name is zero or does not
begin with a zero. -/
theorem visit_expr_keeps_apart (em : Emitter) {e : Expr} (he : e.Writable) :
    ∃ text : String, em.visit (.expr e) = (.ok (), { em with output := em.output ++ text }) ∧
      (∀ front c d back, text.toList = front ++ c :: d :: back → ¬(c ∈ arithmetic ∧ d ∈ arithmetic)) ∧
      ∀ front run back, text.toList = front ++ (run ++ back) → run ≠ [] → (∀ c ∈ run, c.isDigit = true) →
        (∀ c ∈ front.getLast?, isNamePart c = false) → (∀ c ∈ back.head?, c.isDigit = false) →
          run = ['0'] ∨ run.head? ≠ some '0' := by
  have hatoms : atoms? (e.code em.config).text.toList = some (e.atoms em.config) :=
    (Expr.spells_chars em.config he).atoms?_eq
  refine ⟨(e.code em.config).text, em.visit_expr he.wellFormed, fun front c d back hs => ?_, fun front run back hs => ?_⟩
  · exact List.isChain_iff_forall_rel_of_append_cons_cons.1 (unfused_of_atoms? hatoms) hs
  · exact number_of_atoms? (hs ▸ hatoms)

/-- Minus seven, less the negated quotient of a name with digits by a zero with a sign. -/
def signs : Expr :=
  .binary .minus (.operand (.number (-7)))
    (.unary .unaryMinus (.binary .divide (.operand (.ident "x07")) (.unary .unaryPlus (.operand (.number 0)))))

theorem visit_expr_keeps_apart_signs :
    signs.Writable ∧ ∀ front c d back, "((-7)-(-Math.trunc((x07/(+0)))))".toList = front ++ c :: d :: back →
      ¬(c ∈ arithmetic ∧ d ∈ arithmetic) := by
  have hname : IsName "x07" := ⟨⟨'x', ['0', '7'], rfl, by decide, by simp; decide⟩, by decide⟩
  have he : signs.Writable := ⟨rfl, trivial, rfl, rfl, hname, rfl, trivial⟩
  obtain ⟨text, hvisit, hapart, -⟩ := visit_expr_keeps_apart (Emitter.start ⟨2, "print", true⟩) he
  have htext : "((-7)-(-Math.trunc((x07/(+0)))))" = "" ++ text := congrArg (·.2.output) hvisit
  rw [String.empty_append] at htext
  exact ⟨he, htext ▸ hapart⟩

end PL0
