/-
Conditions in JavaScript, where quotients are cut. A comparison asks for the relation of two values. Whether a number
is odd is asked of what it leaves when it is divided by two: a positive odd number leaves one, and a negative one
leaves minus one, which the text does not ask for. So a condition that is true is false in JavaScript where it asks
whether a negative number is odd that is, and everywhere else the two agree. Main statement:
`visit_condition_holds_iff`.
-/
import PL0.Proofs.JavaScript.Arithmetic
import PL0.Proofs.JavaScript.Walk

namespace PL0

open JavaScript

/-- The relation in JavaScript. -/
def Relation.operation : Relation → Operation
  | eq => .same
  | ne => .different
  | lt => .less
  | le => .lessEqual
  | gt => .greater
  | ge => .greaterEqual

theorem Relation.mem_operations (rel : Relation) : ((relation rel).toList, rel.operation) ∈ operations := by
  cases rel <;> decide

/-- Whole numbers are compared as exact ones. -/
theorem Relation.result?_operation (rel : Relation) (a b : Int) :
    rel.operation.result? a b = some (.truth (rel.holds a b)) := by
  cases rel <;> simp [operation, Operation.result?, holds]

namespace Condition

/-- Every operator has its operands and every name is one that can be scanned. -/
def Writable (c : Condition) : Prop := ∀ e ∈ c.operands, e.Writable

/-- The names that a condition refers to. -/
def names (c : Condition) : List String := c.operands.flatMap Expr.names

theorem writable_odd_iff {inner : Expr} : (odd inner).Writable ↔ inner.Writable := by
  simp [Writable, operands]

theorem writable_compare_iff {rel : Relation} {left right : Expr} :
    (compare rel left right).Writable ↔ left.Writable ∧ right.Writable := by
  simp [Writable, operands]

theorem Plain.writable {c : Condition} (h : c.Plain) : c.Writable := by
  cases c with
  | odd inner => exact writable_odd_iff.2 (Expr.Plain.writable h)
  | compare rel left right => exact writable_compare_iff.2 ⟨h.1.writable, h.2.writable⟩

/-! ## Atoms and formulas of a condition -/

/-- The atoms of a condition in JavaScript. -/
def atoms (config : Config) : Condition → List Atom
  | odd inner =>
    parens (parens (inner.atoms config ++ [.operation .remainder, .number 2]) ++ [.operation .same, .number 1])
  | compare rel left right => parens (left.atoms config ++ .operation rel.operation :: right.atoms config)

/-- The formula of a condition in JavaScript. -/
def formula (config : Config) : Condition → Formula
  | odd inner => .joined .same (.joined .remainder (inner.formula config) (.number 2)) (.number 1)
  | compare rel left right => .joined rel.operation (left.formula config) (right.formula config)

variable {config : Config} {c : Condition}

/-- An operator between blanks. -/
theorem spells_spaced {run cs ds : List Char} {op : Operation} {as bs : List Atom} (hop : (run, op) ∈ operations)
    (h : Spells cs as) (h' : Spells ds bs) :
    Spells (cs ++ ' ' :: (run ++ ' ' :: ds)) (as ++ .operation op :: bs) :=
  h.append (h'.blank.behind hop fun _ _ => aside_cons (by decide) _).blank fun _ _ => apart_cons (by decide) _

theorem spells_chars (config : Config) (h : c.Writable) : Spells (c.chars config) (c.atoms config) := by
  cases c with
  | odd inner =>
    have hi := writable_odd_iff.1 h
    have hone : Spells ['1'] [.number 1] := Spells.number 1
    have htwo : Spells ['2'] [.number 2] := Spells.number 2
    have hrem := spells_spaced (by decide : (['%'], .remainder) ∈ operations) (Expr.spells_chars config hi)
      htwo
    have hsame := spells_spaced (by decide : (['=', '=', '='], .same) ∈ operations) hrem.parens hone
    rw [chars_odd hi.wellFormed, atoms]
    simpa using hsame.parens
  | compare rel left right =>
    obtain ⟨hl, hr⟩ := writable_compare_iff.1 h
    have hrel := spells_spaced rel.mem_operations (Expr.spells_chars config hl) (Expr.spells_chars config hr)
    rw [chars_compare hl.wellFormed hr.wellFormed, atoms]
    simpa using hrel.parens

/-- The atoms of a condition form its formula and no other. -/
theorem forms_atoms_iff (h : c.Writable) {f : Formula} : Forms 1 (c.atoms config) f ↔ f = c.formula config := by
  cases c with
  | odd inner =>
    have hi := writable_odd_iff.1 h
    have hw := inner.whole_atoms config
    have hc : Closed (inner.atoms config ++ [.operation .remainder, .number 2]) :=
      hw.closed.append (.cons rfl (whole_number 2).closed)
    have hrem : ∀ k g, Forms k (parens (inner.atoms config ++ [.operation .remainder, .number 2])) g ↔
        g = .joined .remainder (inner.formula config) (.number 2) := by
      intro k g
      rw [forms_parens_iff hc, forms_joined_iff hw (whole_number 2).shut (by decide)]
      simp [Expr.forms_atoms_iff hi, forms_number_iff]
    rw [atoms, formula, forms_parens_iff (hc.parens.append (.cons rfl (whole_number 1).closed)),
      forms_joined_iff (whole_parens hc) (whole_number 1).shut (by decide)]
    simp [hrem, forms_number_iff]
  | compare rel left right =>
    obtain ⟨hl, hr⟩ := writable_compare_iff.1 h
    have hwl := left.whole_atoms config
    have hwr := right.whole_atoms config
    have hlevel : 1 ≤ rel.operation.level := by cases rel <;> decide
    rw [atoms, formula, forms_parens_iff (hwl.closed.append (.cons rfl hwr.closed)),
      forms_joined_iff hwl hwr.shut hlevel]
    simp [Expr.forms_atoms_iff hl, Expr.forms_atoms_iff hr]

/-! ## What is answered -/

variable {σ : String → Int} {ρ : String → ℚ}

/-- What the JavaScript of a condition answers: a number is odd there if it leaves one when it is divided by two. -/
def answer? (σ : String → Int) : Condition → Option Bool
  | odd inner => (inner.value? σ).map fun v => v.tmod 2 = 1
  | compare rel left right => (compare rel left right).truth? σ

theorem value?_formula (ht : config.truncateDivision = true) (hρ : ∀ name ∈ c.names, ρ (rename name) = σ name)
    {answer : Bool} (ha : c.answer? σ = some answer) : (c.formula config).value? ρ = some (.truth answer) := by
  cases c with
  | odd inner =>
    obtain ⟨v, hv, rfl⟩ := Option.map_eq_some_iff.1 ha
    have hi := Expr.value?_formula ht (fun name hm => hρ name (by simpa [names, operands] using hm)) hv
    have hrem := remainder_intCast v 2
    push_cast at hrem
    simp [formula, Formula.value?, hi, Value.number?, Operation.result?, hrem]
  | compare rel left right =>
    obtain ⟨a, hl, hright⟩ := Option.bind_eq_some_iff.1 ha
    obtain ⟨b, hr, rfl⟩ := Option.map_eq_some_iff.1 hright
    have hl := Expr.value?_formula ht (fun name hm => hρ name (by simp [names, operands, hm])) hl
    have hr := Expr.value?_formula ht (fun name hm => hρ name (by simp [names, operands, hm])) hr
    simp [formula, Formula.value?, hl, hr, Value.number?, Relation.result?_operation]

/-- The text of a condition evaluates to what is answered and to nothing else. -/
theorem evaluates_chars_iff (ht : config.truncateDivision = true) (h : c.Writable)
    (hρ : ∀ name ∈ c.names, ρ (rename name) = σ name) {answer : Bool} (ha : c.answer? σ = some answer) (v : Value) :
    Evaluates ρ (c.code config).text v ↔ v = .truth answer := by
  rw [evaluates_iff (spells_chars config h).atoms?_eq fun _ => forms_atoms_iff h, value?_formula ht hρ ha,
    Option.some.injEq, eq_comm]

/-- An odd number leaves one where it is not negative, and an even number never does. -/
theorem tmod_two_eq_one_iff {v : Int} : v.tmod 2 = 1 ↔ ¬2 ∣ v ∧ 0 ≤ v := by
  rcases Int.le_total 0 v with h | h
  · rw [Int.tmod_eq_emod_of_nonneg h]
    omega
  · have hneg : v.tmod 2 = -(-v % 2) := by
      rw [← Int.tmod_eq_emod_of_nonneg (by omega : 0 ≤ -v), Int.neg_tmod, Int.neg_neg]
    omega

/-- The answer is the truth unless it is about a negative odd number. -/
theorem exists_answer {holds : Bool} (h : c.truth? σ = some holds) :
    ∃ answer, c.answer? σ = some answer ∧
      (answer = holds ↔ ∀ inner v, c = .odd inner → inner.value? σ = some v → v < 0 → 2 ∣ v) := by
  cases c with
  | odd inner =>
    obtain ⟨v, hv, rfl⟩ := Option.map_eq_some_iff.1 h
    refine ⟨v.tmod 2 = 1, by rw [answer?, hv, Option.map_some], ?_⟩
    have hiff : decide (v.tmod 2 = 1) = !decide (2 ∣ v) ↔ (v < 0 → 2 ∣ v) := by
      rw [← decide_not, decide_eq_decide, tmod_two_eq_one_iff]
      omega
    rw [hiff]
    constructor
    · intro hneg inner' v' he hv' hlt
      obtain rfl := Condition.odd.inj he
      obtain rfl := Option.some.inj (hv.symm.trans hv')
      exact hneg hlt
    · exact fun hall => hall inner v rfl hv
  | compare rel left right => exact ⟨holds, h, by simp⟩

end Condition

/-- A condition is written whole. -/
theorem JavaScript.Emitter.visit_condition (em : Emitter) {c : Condition} (h : c.Writable) :
    em.visit (.condition c) = (.ok (), { em with output := em.output ++ (c.code em.config).text }) := by
  have hcode : (c.code em.config).fault? = none := Condition.fault?_code em.config fun e he => (h e he).wellFormed
  exact em.visit_eq_ok (congrArg (Option.map _) hcode)

/-- **Guards.** Where quotients are cut and no divisor is zero, a condition is true or false, and the text that is
written of it evaluates to one truth and to nothing else: to that of the condition, unless the condition asks whether a
number is odd that is negative and odd. In JavaScript the names have the values that they have in PL/0. -/
theorem visit_condition_holds_iff (em : Emitter) (ht : em.config.truncateDivision = true) {c : Condition}
    (hc : c.Writable) {σ : String → Int} (hd : ∀ d ∈ c.divisors, d.value? σ ≠ some 0) (ρ : String → ℚ)
    (hρ : ∀ name ∈ c.names, ρ (rename name) = σ name) :
    ∃ text holds answer, em.visit (.condition c) = (.ok (), { em with output := em.output ++ text }) ∧
      c.truth? σ = some holds ∧ (∀ v, Evaluates ρ text v ↔ v = .truth answer) ∧
      (answer = holds ↔ ∀ inner v, c = .odd inner → inner.value? σ = some v → v < 0 → 2 ∣ v) := by
  obtain ⟨holds, hholds⟩ := Condition.exists_truth (fun e he => (hc e he).wellFormed) hd
  obtain ⟨answer, hanswer, hiff⟩ := Condition.exists_answer hholds
  exact ⟨(c.code em.config).text, holds, answer, em.visit_condition hc, hholds,
    Condition.evaluates_chars_iff ht hc hρ hanswer, hiff⟩

/-- Minus a number. -/
def minus (n : Int64) : Expr := .unary .unaryMinus (.operand (.number n))

/-- A quotient below zero is compared. -/
def receding : Condition := .compare .lt (.binary .divide (.operand (.ident "x")) (minus 2)) (minus 2)

/-- Seven by minus two is minus three, which is less than minus two. -/
theorem visit_condition_holds_iff_receding :
    (Emitter.start ⟨2, "print", true⟩).config.truncateDivision = true ∧ receding.Writable ∧
      (∀ d ∈ receding.divisors, d.value? (fun _ => 7) ≠ some 0) ∧
      (∀ name ∈ receding.names, (7 : ℚ) = (7 : Int)) ∧
      receding.truth? (fun _ => 7) = some true ∧
      ∀ v, Evaluates (fun _ => 7) "(Math.trunc((x/(-2))) < (-2))" v ↔ v = .truth true := by
  have hx : IsName "x" := ⟨⟨'x', [], rfl, by decide, by simp⟩, by decide⟩
  have h2 : (0 : Int64) ≤ 2 := by decide
  have hc : receding.Writable := Condition.Plain.writable ⟨⟨rfl, hx, rfl, h2⟩, rfl, h2⟩
  have hd : ∀ d ∈ receding.divisors, d.value? (fun _ => 7) ≠ some 0 := by decide
  have hρ : ∀ name ∈ receding.names, (7 : ℚ) = (7 : Int) := fun _ _ => by norm_num
  have htrue : receding.truth? (fun _ => 7) = some true := by decide
  obtain ⟨text, holds, answer, hvisit, hholds, heval, hiff⟩ :=
    visit_condition_holds_iff (Emitter.start ⟨2, "print", true⟩) rfl hc hd (fun _ => 7) hρ
  obtain rfl : true = holds := Option.some.inj (htrue.symm.trans hholds)
  obtain rfl : answer = true := hiff.2 nofun
  have htext : "(Math.trunc((x/(-2))) < (-2))" = "" ++ text := congrArg (·.2.output) hvisit
  rw [String.empty_append] at htext
  exact ⟨rfl, hc, hd, hρ, htrue, htext ▸ heval⟩

/-- Minus one is odd, and in JavaScript it is not. -/
theorem odd_minus_one :
    ¬∀ (em : Emitter) (c : Condition) (σ : String → Int) (ρ : String → ℚ), em.config.truncateDivision = true →
      c.Plain → (∀ d ∈ c.divisors, d.value? σ ≠ some 0) → (∀ name ∈ c.names, ρ (rename name) = σ name) →
      ∃ text holds, em.visit (.condition c) = (.ok (), { em with output := em.output ++ text }) ∧
        c.truth? σ = some holds ∧ (Evaluates ρ text (.truth true) ↔ holds = true) := by
  intro h
  have hp : (Condition.odd (minus 1)).Plain := ⟨rfl, (by decide : (0 : Int64) ≤ 1)⟩
  have hfalse : (Condition.odd (minus 1)).answer? (fun _ => 0) = some false := by decide
  have htrue : (Condition.odd (minus 1)).truth? (fun _ => 0) = some true := by decide
  obtain ⟨text, holds, hvisit, hholds, heval⟩ := h (Emitter.start ⟨2, "print", true⟩) (.odd (minus 1)) (fun _ => 0)
    (fun _ => 0) rfl hp (by decide) nofun
  obtain rfl : true = holds := Option.some.inj (htrue.symm.trans hholds)
  rw [Emitter.visit_condition _ hp.writable] at hvisit
  have htext := congrArg (·.2.output) hvisit
  simp only [Emitter.start, String.empty_append] at htext
  rw [← htext, Condition.evaluates_chars_iff rfl hp.writable nofun hfalse] at heval
  exact absurd (heval.2 rfl) (by decide)

end PL0
