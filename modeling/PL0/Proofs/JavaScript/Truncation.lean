/-
Expressions keep their values in JavaScript where quotients are cut, and the cut is all that is added to their text.
What an expression is written as without cut quotients is found again when every call of `Math.trunc` is left out with
the parenthesis that closes it (`withoutCalls`): a call stands before a quotient and nowhere else, because no name goes
on with a dot. Main statement: `visit_expr_keeps_value`.
-/
import PL0.Proofs.JavaScript.Arithmetic
import PL0.Proofs.JavaScript.Walk

namespace PL0

namespace JavaScript

/-! ## Leaving calls out -/

/-- A call of `Math.trunc` up to its parenthesis. -/
def callMark : List Char := "Math.trunc(".toList

/-- A text without its calls of `Math.trunc`: each is left out with the parenthesis that closes it. Of the parentheses
that are open, the latest first, `calls` says which are those of calls. -/
def withoutCalls (calls : List Bool) : List Char → List Char
  | [] => []
  | c :: cs =>
    if callMark <+: c :: cs then withoutCalls (true :: calls) ((c :: cs).drop callMark.length)
    else if c = '(' then c :: withoutCalls (false :: calls) cs
    else if c = ')' then
      if calls.head? = some true then withoutCalls calls.tail cs else c :: withoutCalls calls.tail cs
    else c :: withoutCalls calls cs
termination_by cs => cs.length
decreasing_by
  all_goals
    have hmark : 0 < callMark.length := by decide
    simp only [List.length_drop, List.length_cons]
    omega

/-- The text does not begin with a character of a call. -/
def Uncalled (rest : List Char) : Prop := ∀ c ∈ rest.head?, c ∉ callMark

theorem uncalled_nil : Uncalled [] := by simp [Uncalled]

theorem uncalled_cons {c : Char} (h : c ∉ callMark) (rest : List Char) : Uncalled (c :: rest) := by
  intro d hd
  cases hd
  exact h

section

variable {calls : List Bool} {rest : List Char}

theorem withoutCalls_nil : withoutCalls calls [] = [] := by rw [withoutCalls]

theorem withoutCalls_call : withoutCalls calls (callMark ++ rest) = withoutCalls (true :: calls) rest := by
  have hmark : callMark ++ rest = 'M' :: ("ath.trunc(".toList ++ rest) := rfl
  rw [hmark, withoutCalls, ← hmark, if_pos (List.prefix_append callMark rest), List.drop_left]

theorem not_prefix_callMark_cons {c : Char} (h : c ≠ 'M') (cs : List Char) : ¬callMark <+: c :: cs := fun hm =>
  h (List.cons_prefix_cons.1 hm).1.symm

theorem withoutCalls_opening : withoutCalls calls ('(' :: rest) = '(' :: withoutCalls (false :: calls) rest := by
  rw [withoutCalls, if_neg (not_prefix_callMark_cons (by decide) _), if_pos rfl]

theorem withoutCalls_closing : withoutCalls (false :: calls) (')' :: rest) = ')' :: withoutCalls calls rest := by
  rw [withoutCalls, if_neg (not_prefix_callMark_cons (by decide) _), if_neg (by decide), if_pos rfl,
    if_neg (by simp), List.tail_cons]

theorem withoutCalls_closing_call : withoutCalls (true :: calls) (')' :: rest) = withoutCalls calls rest := by
  rw [withoutCalls, if_neg (not_prefix_callMark_cons (by decide) _), if_neg (by decide), if_pos rfl,
    if_pos List.head?_cons, List.tail_cons]

theorem withoutCalls_cons {c : Char} (hm : ¬callMark <+: c :: rest) (ho : c ≠ '(') (hc : c ≠ ')') :
    withoutCalls calls (c :: rest) = c :: withoutCalls calls rest := by
  rw [withoutCalls, if_neg hm, if_neg ho, if_neg hc]

/-- No call begins in a name or in a number. -/
theorem not_prefix_callMark_run {run : List Char} (hrun : ∀ c ∈ run, isNamePart c = true) (hr : Uncalled rest) :
    ¬callMark <+: run ++ rest := by
  have hdot : '.' ∉ run := fun hm => absurd (hrun _ hm) (by decide)
  intro h
  rcases List.prefix_or_prefix_of_prefix h (List.prefix_append run rest) with hmark | ⟨more, hmore⟩
  · exact hdot (hmark.subset (by decide))
  · -- the rest would go on with what is left of the call
    cases more with
    | nil =>
      rw [List.append_nil] at hmore
      exact hdot (hmore ▸ by decide)
    | cons d more =>
      rw [← hmore, List.prefix_append_right_inj] at h
      obtain ⟨others, rfl⟩ := h
      exact hr d rfl (hmore ▸ by simp)

/-- Names and numbers are kept. -/
theorem withoutCalls_run {run : List Char} (hrun : ∀ c ∈ run, isNamePart c = true) (hr : Uncalled rest) :
    withoutCalls calls (run ++ rest) = run ++ withoutCalls calls rest := by
  induction run with
  | nil => rfl
  | cons c run ih =>
    have hnone := not_prefix_callMark_run hrun hr
    rw [List.cons_append] at hnone
    obtain ⟨hc, hrun⟩ := List.forall_mem_cons.1 hrun
    have hother : ∀ d, isNamePart d = false → c ≠ d := by
      rintro d hd rfl
      exact absurd hc (by simp [hd])
    rw [List.cons_append, withoutCalls_cons hnone (hother _ (by decide)) (hother _ (by decide)), ih hrun]
    rfl

theorem withoutCalls_symbol (op : Operator) :
    withoutCalls calls (op.symbol.toList ++ rest) = op.symbol.toList ++ withoutCalls calls rest := by
  cases op <;> exact withoutCalls_cons (not_prefix_callMark_cons (by decide) _) (by decide) (by decide)

theorem uncalled_symbol (op : Operator) (rest : List Char) : Uncalled (op.symbol.toList ++ rest) := by
  cases op <;> exact uncalled_cons (by decide) rest

theorem withoutCalls_literal (v : Int64) (hr : Uncalled rest) :
    withoutCalls calls ((literal v).toList ++ rest) = (literal v).toList ++ withoutCalls calls rest := by
  unfold literal
  split
  · rename_i hv
    have hclose : Uncalled (')' :: rest) := uncalled_cons (by decide) rest
    have htext : ("(" ++ toString v ++ ")").toList ++ rest =
        '(' :: (Operator.minus.symbol.toList ++ (Nat.toDigits 10 v.toInt.natAbs ++ ')' :: rest)) := by
      simp [toString_of_neg hv, Operator.symbol]
    rw [htext, withoutCalls_opening, withoutCalls_symbol, withoutCalls_run (isNamePart_toDigits _) hclose,
      withoutCalls_closing]
    simp [toString_of_neg hv, Operator.symbol]
  · rename_i hv
    rw [toString_of_nonneg hv]
    exact withoutCalls_run (isNamePart_toDigits _) hr

end

/-- The configuration with quotients left as they are. -/
def Config.uncut (config : Config) : Config := { config with truncateDivision := false }

/-- The emitter with quotients left as they are. -/
def Emitter.uncut (em : Emitter) : Emitter := { em with config := em.config.uncut }

end JavaScript

open JavaScript

namespace Expr

variable {config : Config} {e : Expr}

/-- Without the calls an expression is what it is written as with its quotients left as they are. -/
theorem withoutCalls_chars (ht : config.truncateDivision = true) (h : e.Writable) {calls : List Bool} {rest : List Char}
    (hr : Uncalled rest) :
    withoutCalls calls (e.chars config ++ rest) = e.chars config.uncut ++ withoutCalls calls rest := by
  have hclose : ∀ rest, Uncalled (')' :: rest) := uncalled_cons (by decide)
  -- an operand stands behind the parentheses around it and before what follows it there, so both vary
  induction e generalizing calls rest with
  | operand leaf =>
    cases leaf with
    | number v =>
      rw [chars_operand_number, chars_operand_number]
      exact withoutCalls_literal v hr
    | ident name =>
      rw [chars_operand_ident, chars_operand_ident]
      exact withoutCalls_run (isNamePart_rename h) hr
  | unary op inner ih =>
    rw [chars_unary h.1 h.2.wellFormed, chars_unary h.1 h.2.wellFormed]
    simp only [List.cons_append, List.append_assoc, List.nil_append]
    rw [withoutCalls_opening, withoutCalls_symbol, ih h.2 (hclose rest), withoutCalls_closing]
  | binary op left right ihl ihr =>
    have huncut : ¬(config.uncut.truncateDivision ∧ op = .divide) := fun hu => Bool.false_ne_true hu.1
    rw [chars_binary h.1 h.2.1.wellFormed h.2.2.wellFormed huncut]
    by_cases hcut : op = .divide
    · subst hcut
      have hcall : (binary .divide left right).chars config = callMark ++ '(' ::
          (left.chars config ++ (Operator.divide.symbol.toList ++ (right.chars config ++ [')', ')']))) :=
        chars_truncated h.2.1.wellFormed h.2.2.wellFormed ht
      rw [hcall]
      simp only [List.append_assoc, List.cons_append, List.nil_append]
      rw [withoutCalls_call, withoutCalls_opening, ihl h.2.1 (uncalled_symbol _ _), withoutCalls_symbol,
        ihr h.2.2 (hclose _), withoutCalls_closing, withoutCalls_closing_call]
    · rw [chars_binary h.1 h.2.1.wellFormed h.2.2.wellFormed fun hu => hcut hu.2]
      simp only [List.cons_append, List.append_assoc, List.nil_append]
      rw [withoutCalls_opening, ihl h.2.1 (uncalled_symbol _ _), withoutCalls_symbol, ihr h.2.2 (hclose rest),
        withoutCalls_closing]

/-! ## What the text evaluates to -/

theorem isName_of_mem_names (h : e.Writable) : ∀ name ∈ e.names, IsName name := by
  induction e with
  | operand leaf =>
    cases leaf with
    | number v => exact nofun
    | ident name => exact List.forall_mem_singleton.2 h
  | unary op inner ih => exact ih h.2
  | binary op left right ihl ihr => exact List.forall_mem_append.2 ⟨ihl h.2.1, ihr h.2.2⟩

/-- Different names are renamed apart, so that they can have any values in JavaScript. -/
theorem exists_renamed_values (h : e.Writable) (σ : String → Int) :
    ∃ ρ : String → ℚ, ∀ name ∈ e.names, ρ (rename name) = σ name := by
  have hinj : Function.Injective fun name : { name // IsName name } => rename name.1 := fun a b he =>
    Subtype.ext (rename_inj a.2 b.2 he)
  exact ⟨Function.extend (fun name : { name // IsName name } => rename name.1) (fun name => (σ name.1 : ℚ)) 0,
    fun name hm => hinj.extend_apply _ _ ⟨name, isName_of_mem_names h name hm⟩⟩

/-- The text of an expression evaluates to its value and to nothing else. -/
theorem evaluates_chars_iff (ht : config.truncateDivision = true) (h : e.Writable) {σ : String → Int} {v : Int}
    (hv : e.value? σ = some v) {ρ : String → ℚ} (hρ : ∀ name ∈ e.names, ρ (rename name) = σ name) (w : Value) :
    Evaluates ρ (e.code config).text w ↔ w = .number v := by
  rw [evaluates_iff (spells_chars config h).atoms?_eq fun _ => forms_atoms_iff h, value?_formula ht hρ hv,
    Option.some.injEq, eq_comm]

end Expr

/-- **Expressions.** Where quotients are cut, an expression is written whole. If no divisor in it is zero, it has a
value; its names can be given their values in JavaScript, and wherever they have them the text evaluates to the value
of the expression and to nothing else. The text without its calls of `Math.trunc` is what is written where quotients
are left as they are. -/
theorem visit_expr_keeps_value (em : Emitter) (ht : em.config.truncateDivision = true) {e : Expr} (he : e.Writable) :
    ∃ text, em.visit (.expr e) = (.ok (), { em with output := em.output ++ text }) ∧
      (∀ σ : String → Int, (∀ d ∈ e.divisors, d.value? σ ≠ some 0) →
        ∃ v, e.value? σ = some v ∧ (∃ ρ : String → ℚ, ∀ name ∈ e.names, ρ (rename name) = σ name) ∧
          ∀ ρ : String → ℚ, (∀ name ∈ e.names, ρ (rename name) = σ name) →
            ∀ w, Evaluates ρ text w ↔ w = .number v) ∧
      em.uncut.visit (.expr e) =
        (.ok (), { em.uncut with output := em.output ++ String.ofList (withoutCalls [] text.toList) }) := by
  refine ⟨(e.code em.config).text, em.visit_expr he.wellFormed, fun σ hd => ?_, ?_⟩
  · obtain ⟨v, hv⟩ := Expr.exists_value he.wellFormed hd
    exact ⟨v, hv, Expr.exists_renamed_values he σ, fun ρ hρ w => Expr.evaluates_chars_iff ht he hv hρ w⟩
  · have hwithout : withoutCalls [] (e.chars em.config ++ []) = e.chars em.config.uncut ++ withoutCalls [] [] :=
      Expr.withoutCalls_chars ht he uncalled_nil
    rw [List.append_nil, withoutCalls_nil, List.append_nil, Expr.chars, Expr.chars] at hwithout
    rw [hwithout, String.ofList_toList]
    exact em.uncut.visit_expr he.wellFormed

/-- Minus seven is divided by a name that JavaScript reserves, less another name. -/
def reservedDivisor : Expr :=
  .binary .divide (.operand (.number (-7))) (.binary .minus (.operand (.ident "in")) (.operand (.ident "x")))

/-- Minus seven by two is minus three. -/
theorem visit_expr_keeps_value_reserved :
    (Emitter.start ⟨2, "print", true⟩).config.truncateDivision = true ∧ reservedDivisor.Writable ∧
      reservedDivisor.value? (fun name => if name = "x" then 7 else 9) = some (-3) ∧
      (∀ w, Evaluates (fun text => if text = "$in" then 9 else 7) "Math.trunc(((-7)/($in-x)))" w ↔ w = .number (-3)) ∧
      String.ofList (withoutCalls [] "Math.trunc(((-7)/($in-x)))".toList) = "((-7)/($in-x))" := by
  have hin : IsName "in" := ⟨⟨'i', ['n'], rfl, by decide, List.forall_mem_singleton.2 (by decide)⟩, by decide⟩
  have hx : IsName "x" := ⟨⟨'x', [], rfl, by decide, by simp⟩, by decide⟩
  have he : reservedDivisor.Writable := ⟨rfl, trivial, rfl, hin, hx⟩
  have hd : ∀ d ∈ reservedDivisor.divisors, d.value? (fun name => if name = "x" then 7 else 9) ≠ some 0 := by decide
  have hthree : reservedDivisor.value? (fun name => if name = "x" then 7 else 9) = some (-3) := by decide
  have hρ : ∀ name ∈ reservedDivisor.names, (if rename name = "$in" then 9 else 7 : ℚ) =
      (if name = "x" then 7 else 9 : Int) := by
    have hrename : rename "in" = "$in" ∧ rename "x" = "x" := by decide
    simp [reservedDivisor, Expr.names, hrename]
  obtain ⟨text, hvisit, hvalue, hwithout⟩ := visit_expr_keeps_value (Emitter.start ⟨2, "print", true⟩) rfl he
  obtain ⟨v, hv, -, heval⟩ := hvalue _ hd
  obtain rfl : -3 = v := Option.some.inj (hthree.symm.trans hv)
  have htext : "Math.trunc(((-7)/($in-x)))" = "" ++ text := congrArg (·.2.output) hvisit
  rw [String.empty_append] at htext
  subst htext
  have huncut : "((-7)/($in-x))" = "" ++ String.ofList (withoutCalls [] "Math.trunc(((-7)/($in-x)))".toList) :=
    congrArg (·.2.output) hwithout
  rw [String.empty_append] at huncut
  refine ⟨rfl, he, hthree, fun w => ?_, huncut.symm⟩
  simpa using heval (fun text => if text = "$in" then 9 else 7) hρ w

end PL0
