/-
Expressions keep their meaning in JavaScript where quotients are cut. The text of an expression is made of the atoms of
one operand, and these form one formula, in which a literal below zero is a number behind a sign. Main statements:
`Expr.spells_chars`, `Expr.forms_atoms_iff`, and `Expr.value?_formula`, by which the formula has the value of the
expression.
-/
import PL0.Proofs.JavaScript.ReadBack
import PL0.Proofs.JavaScript.Value
import PL0.Proofs.Meaning

namespace PL0

open JavaScript

/-- Every operator has its operands and every name is one that can be scanned. -/
def Expr.Writable : Expr → Prop
  | .operand (.number _) => True
  | .operand (.ident name) => IsName name
  | .unary op inner => op.isUnary = true ∧ inner.Writable
  | .binary op left right => op.isUnary = false ∧ left.Writable ∧ right.Writable

theorem Expr.Plain.writable {e : Expr} (h : e.Plain) : e.Writable := by
  induction e with
  | operand leaf =>
    cases leaf with
    | number v => trivial
    | ident name => exact h
  | unary op inner ih => exact ⟨h.1, ih h.2⟩
  | binary op left right ihl ihr => exact ⟨h.1, ihl h.2.1, ihr h.2.2⟩

theorem Expr.Writable.wellFormed {e : Expr} (h : e.Writable) : e.WellFormed := by
  induction e with
  | operand leaf => trivial
  | unary op inner ih => exact ⟨h.1, ih h.2⟩
  | binary op left right ihl ihr => exact ⟨h.1, ihl h.2.1, ihr h.2.2⟩

/-- The operator in JavaScript. -/
def Operator.operation : Operator → Operation
  | unaryPlus | plus => .add
  | unaryMinus | minus => .subtract
  | multiply => .multiply
  | divide => .divide

theorem Operator.symbol_mem_operations (op : Operator) : (op.symbol.toList, op.operation) ∈ operations := by
  cases op <;> decide

/-! ## Literals and names -/

namespace JavaScript

/-- The atoms of a literal. -/
def literalAtoms (v : Int64) : List Atom :=
  if v < 0 then parens [signAtom true, .number v.toInt.natAbs] else [.number v.toInt.natAbs]

def literalFormula (v : Int64) : Formula :=
  if v < 0 then .signed true (.number v.toInt.natAbs) else .number v.toInt.natAbs

theorem toInt_neg_iff {v : Int64} : v < 0 ↔ v.toInt < 0 := by
  simp [Int64.lt_iff_toInt_lt]

theorem toString_of_neg {v : Int64} (h : v < 0) : (toString v).toList = '-' :: Nat.toDigits 10 v.toInt.natAbs := by
  obtain ⟨n, hn⟩ := Int.eq_negSucc_of_lt_zero (toInt_neg_iff.1 h)
  have hs : toString v = "-" ++ (n + 1).repr := by
    show Int.repr v.toInt = _
    rw [hn]
    rfl
  rw [hs, hn, String.toList_append, Nat.toList_repr]
  rfl

theorem toString_of_nonneg {v : Int64} (h : ¬v < 0) : (toString v).toList = Nat.toDigits 10 v.toInt.natAbs := by
  obtain ⟨n, hn⟩ := Int.eq_ofNat_of_zero_le (Int.not_lt.1 (toInt_neg_iff.not.1 h))
  have hs : toString v = n.repr := by
    show Int.repr v.toInt = _
    rw [hn]
    rfl
  rw [hs, hn, Nat.toList_repr]
  rfl

theorem spells_literal (v : Int64) : Spells (literal v).toList (literalAtoms v) := by
  have hnumber := Spells.number v.toInt.natAbs
  unfold literal literalAtoms
  split
  · have hsign := hnumber.behind (by decide : (['-'], .subtract) ∈ operations) fun rest _ =>
      aside_of_isNamePart Nat.toDigits_ne_nil (isNamePart_toDigits _) rest
    rename_i hv
    simpa [toString_of_neg hv, signAtom] using hsign.parens
  · rename_i hv
    rwa [toString_of_nonneg hv]

theorem whole_literalAtoms (v : Int64) : Whole (literalAtoms v) := by
  unfold literalAtoms
  split
  · exact whole_parens (.cons rfl (.single rfl))
  · exact whole_number _

theorem forms_literalAtoms_iff {k : Nat} {v : Int64} {f : Formula} :
    Forms k (literalAtoms v) f ↔ f = literalFormula v := by
  unfold literalAtoms literalFormula
  split
  · rw [forms_parens_iff (.cons rfl (.single rfl)), forms_signed_iff (whole_number _).shut (by decide)]
    simp [forms_number_iff]
  · exact forms_number_iff

theorem value?_literalFormula {ρ : String → ℚ} (v : Int64) :
    (literalFormula v).value? ρ = some (.number v.toInt) := by
  unfold literalFormula
  split
  · rename_i hv
    obtain ⟨n, hn⟩ : ∃ n : Nat, v.toInt = -n := ⟨v.toInt.natAbs, by have := toInt_neg_iff.1 hv; omega⟩
    rw [hn, Int.natAbs_neg, Int.natAbs_natCast]
    simp [Formula.value?, Value.number?]
  · rename_i hv
    obtain ⟨n, hn⟩ := Int.eq_ofNat_of_zero_le (Int.not_lt.1 (toInt_neg_iff.not.1 hv))
    rw [hn, Int.natAbs_natCast]
    simp [Formula.value?]

theorem exists_rename_eq_cons {name : String} (h : IsName name) :
    ∃ c cs, (rename name).toList = c :: cs ∧ c.isDigit = false := by
  obtain ⟨⟨c, cs, hname, hc, -⟩, -⟩ := h
  rw [toList_rename]
  split
  · exact ⟨'$', _, rfl, by decide⟩
  · refine ⟨c, cs, hname, Bool.eq_false_iff.2 fun hd => ?_⟩
    rw [isWordStart_eq_false_of_isDigit hd] at hc
    cases hc

theorem spells_rename {name : String} (h : IsName name) : Spells (rename name).toList [.name (rename name)] := by
  obtain ⟨c, cs, hs, hc⟩ := exists_rename_eq_cons h
  exact Spells.name hs hc (isNamePart_rename h)

end JavaScript

namespace Expr

/-- The atoms of an expression in JavaScript. -/
def atoms (config : Config) : Expr → List Atom
  | operand (.number v) => literalAtoms v
  | operand (.ident name) => [.name (rename name)]
  | unary op inner => parens (.operation op.operation :: inner.atoms config)
  | binary op left right =>
    let whole := parens (left.atoms config ++ .operation op.operation :: right.atoms config)
    if config.truncateDivision ∧ op = .divide then truncateCall whole else whole

/-- The formula of an expression in JavaScript. -/
def formula (config : Config) : Expr → Formula
  | operand (.number v) => literalFormula v
  | operand (.ident name) => .name (rename name)
  | unary op inner => .signed (op = .unaryMinus) (inner.formula config)
  | binary op left right =>
    let whole := .joined op.operation (left.formula config) (right.formula config)
    if config.truncateDivision ∧ op = .divide then .truncate whole else whole

variable {config : Config}

/-! ## The text is made of the atoms -/

/-- An expression does not begin with a character of an operator. -/
theorem aside_chars {e : Expr} (h : e.Writable) (rest : List Char) : Aside (e.chars config ++ rest) := by
  cases e with
  | operand leaf =>
    cases leaf with
    | number v =>
      rw [chars_operand_number, literal]
      split
      · rw [String.toList_append, String.toList_append]
        exact aside_cons (by decide) _
      · rename_i hv
        rw [toString_of_nonneg hv]
        exact aside_of_isNamePart Nat.toDigits_ne_nil (isNamePart_toDigits _) rest
    | ident name =>
      obtain ⟨c, cs, hs, -⟩ := exists_rename_eq_cons h
      rw [chars_operand_ident]
      exact aside_of_isNamePart (by simp [hs]) (isNamePart_rename h) rest
  | unary op inner =>
    rw [chars_unary h.1 h.2.wellFormed]
    exact aside_cons (by decide) _
  | binary op left right =>
    by_cases ht : config.truncateDivision ∧ op = .divide
    · obtain ⟨ht, rfl⟩ := ht
      rw [chars_truncated h.2.1.wellFormed h.2.2.wellFormed ht]
      exact aside_cons (by decide) _
    · rw [chars_binary h.1 h.2.1.wellFormed h.2.2.wellFormed ht]
      exact aside_cons (by decide) _

theorem spells_chars (config : Config) {e : Expr} (h : e.Writable) : Spells (e.chars config) (e.atoms config) := by
  induction e with
  | operand leaf =>
    cases leaf with
    | number v =>
      rw [chars_operand_number]
      exact spells_literal v
    | ident name =>
      rw [chars_operand_ident]
      exact spells_rename h
  | unary op inner ih =>
    have hinner := (ih h.2).behind op.symbol_mem_operations fun rest _ => aside_chars h.2 rest
    rw [chars_unary h.1 h.2.wellFormed, ← List.append_assoc]
    exact hinner.parens
  | binary op left right ihl ihr =>
    have hright := (ihr h.2.2).behind op.symbol_mem_operations fun rest _ => aside_chars h.2.2 rest
    have hwhole := ((ihl h.2.1).append hright fun rest _ => by
      rw [List.append_assoc]
      exact apart_symbol op _).parens
    by_cases ht : config.truncateDivision ∧ op = .divide
    · obtain ⟨ht, rfl⟩ := ht
      rw [chars_truncated h.2.1.wellFormed h.2.2.wellFormed ht, atoms, if_pos ⟨ht, rfl⟩]
      simpa [Operator.symbol] using hwhole.call
    · rw [chars_binary h.1 h.2.1.wellFormed h.2.2.wellFormed ht, atoms, if_neg ht]
      simpa using hwhole

/-! ## The atoms form the formula -/

/-- An expression makes up one operand. -/
theorem whole_atoms (config : Config) (e : Expr) : Whole (e.atoms config) := by
  induction e with
  | operand leaf =>
    cases leaf with
    | number v => exact whole_literalAtoms v
    | ident name => exact whole_name _
  | unary op inner ih => exact whole_parens (.cons rfl ih.closed)
  | binary op left right ihl ihr =>
    have hwhole := whole_parens (ihl.closed.append (.cons (a := .operation op.operation) rfl ihr.closed))
    rw [atoms]
    split
    · exact whole_truncateCall hwhole.closed
    · exact hwhole

/-- The atoms of an expression form its formula and no other, at every level. -/
theorem forms_atoms_iff {e : Expr} (h : e.Writable) {k : Nat} {f : Formula} :
    Forms k (e.atoms config) f ↔ f = e.formula config := by
  induction e generalizing k f with
  | operand leaf =>
    cases leaf with
    | number v => exact forms_literalAtoms_iff
    | ident name => exact forms_name_iff (rename_not_mem_reservedWords name)
  | unary op inner ih =>
    have hsign : signAtom (op = .unaryMinus) = .operation op.operation := by
      cases op <;> first | rfl | cases h.1
    have hinner := inner.whole_atoms config
    rw [atoms, formula, forms_parens_iff (.cons rfl hinner.closed), ← hsign, forms_signed_iff hinner.shut (by decide)]
    simp [ih h.2]
  | binary op left right ihl ihr =>
    have hl := left.whole_atoms config
    have hr := right.whole_atoms config
    have hc : Closed (left.atoms config ++ .operation op.operation :: right.atoms config) :=
      hl.closed.append (.cons rfl hr.closed)
    have hwhole : ∀ k f, Forms k (parens (left.atoms config ++ .operation op.operation :: right.atoms config)) f ↔
        f = .joined op.operation (left.formula config) (right.formula config) := by
      intro k f
      have hlevel : 1 ≤ op.operation.level := by cases op <;> decide
      rw [forms_parens_iff hc, forms_joined_iff hl hr.shut hlevel]
      simp [ihl h.2.1, ihr h.2.2]
    rw [atoms, formula]
    split
    · rw [forms_truncateCall_iff hc.parens]
      simp [hwhole]
    · exact hwhole k f

/-! ## The formula has the value of the expression -/

variable {σ : String → Int} {ρ : String → ℚ}

/-- Where quotients are cut, the formula of an expression has its value. -/
theorem value?_formula (ht : config.truncateDivision = true) {e : Expr}
    (hρ : ∀ name ∈ e.names, ρ (rename name) = σ name) {v : Int} (hv : e.value? σ = some v) :
    (e.formula config).value? ρ = some (.number v) := by
  induction e generalizing v with
  | operand leaf =>
    cases leaf with
    | number v' =>
      obtain rfl := Option.some.inj hv
      exact value?_literalFormula v'
    | ident name =>
      obtain rfl := Option.some.inj hv
      rw [formula, Formula.value?, hρ name List.mem_cons_self]
  | unary op inner ih =>
    obtain ⟨a, ha, hop⟩ := Option.bind_eq_some_iff.1 hv
    rw [formula, Formula.value?, ih hρ ha]
    cases op with
    | unaryPlus | unaryMinus =>
      obtain rfl := Option.some.inj hop
      simp [Value.number?]
    | _ => cases hop
  | binary op left right ihl ihr =>
    obtain ⟨a, ha, hright⟩ := Option.bind_eq_some_iff.1 hv
    obtain ⟨b, hb, hop⟩ := Option.bind_eq_some_iff.1 hright
    have hl := ihl (fun name hm => hρ name (List.mem_append_left _ hm)) ha
    have hr := ihr (fun name hm => hρ name (List.mem_append_right _ hm)) hb
    cases op with
    | divide =>
      obtain ⟨hzero, hquot⟩ := Option.ite_none_left_eq_some.1 hop
      obtain rfl := Option.some.inj hquot
      have hcut : (binary .divide left right).formula config =
          .truncate (.joined .divide (left.formula config) (right.formula config)) := if_pos ⟨ht, rfl⟩
      rw [hcut]
      simp [Formula.value?, hl, hr, Value.number?, Operation.result?, hzero, towardsZero_div]
    | plus | minus | multiply =>
      obtain rfl := Option.some.inj hop
      simp [formula, Formula.value?, hl, hr, Value.number?, Operator.operation, Operation.result?]
    | unaryPlus | unaryMinus => cases hop

end Expr

end PL0
