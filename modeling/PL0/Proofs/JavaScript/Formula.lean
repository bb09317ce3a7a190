/-
Formulas: expressions of JavaScript, formed of atoms where operators bind by their levels (`Forms`). A formula closes
the parentheses that it opens (`Forms.closed`), so that an operator which stands outside all of them joins what is
before it with what is after it. Main statements: what stands in parentheses, behind a sign, or on both sides of an
operator forms a formula in one way only (`forms_parens_iff`, `forms_signed_iff`, `forms_joined_iff`).
-/
import PL0.Proofs.JavaScript.Atoms

namespace PL0.JavaScript

/-- How tightly an operator binds its operands. -/
def Operation.level : Operation → Nat
  | same | different => 1
  | less | lessEqual | greater | greaterEqual => 2
  | add | subtract => 3
  | multiply | divide | remainder => 4

/-- How tightly a sign binds its operand. -/
def signLevel : Nat := 5

inductive Formula where
  | number (value : Nat)
  | name (text : String)
  | truncate (inner : Formula)
  | signed (negative : Bool) (inner : Formula)
  | joined (op : Operation) (left right : Formula)
deriving DecidableEq, Repr

def signAtom (negative : Bool) : Atom := .operation (if negative then .subtract else .add)

/-- The atoms form the formula, and no operator outside parentheses binds looser than the level. -/
inductive Forms : Nat → List Atom → Formula → Prop
  | number {k : Nat} (value : Nat) : Forms k [.number value] (.number value)
  | name {k : Nat} {text : String} (free : text ∉ reservedWords) : Forms k [.name text] (.name text)
  | parens {k : Nat} {as : List Atom} {f : Formula} (inside : Forms 1 as f) : Forms k (parens as) f
  | truncate {k : Nat} {as : List Atom} {f : Formula} (inside : Forms 1 as f) :
    Forms k (truncateCall as) (.truncate f)
  | signed {k : Nat} {negative : Bool} {as : List Atom} {f : Formula} (loose : k ≤ signLevel)
    (inside : Forms signLevel as f) : Forms k (signAtom negative :: as) (.signed negative f)
  | joined {k : Nat} {op : Operation} {left right : List Atom} {f g : Formula} (loose : k ≤ op.level)
    (before : Forms op.level left f) (after : Forms (op.level + 1) right g) :
    Forms k (left ++ .operation op :: right) (.joined op f g)

/-! ## Parentheses -/

/-- What an atom adds to the parentheses that are open. -/
def Atom.turn : Atom → Int
  | opening => 1
  | closing => -1
  | number _ | name _ | operation _ | dot => 0

/-- How many more parentheses atoms open than they close. -/
def depth (as : List Atom) : Int := (as.map Atom.turn).sum

@[simp] theorem depth_nil : depth [] = 0 := rfl

@[simp] theorem depth_cons (a : Atom) (as : List Atom) : depth (a :: as) = a.turn + depth as := List.sum_cons

@[simp] theorem depth_append (as bs : List Atom) : depth (as ++ bs) = depth as + depth bs := by
  rw [depth, List.map_append, List.sum_append]
  rfl

/-- Every parenthesis that is opened is closed, and none before it is opened. -/
structure Closed (as : List Atom) : Prop where
  depth_eq : depth as = 0
  depth_nonneg : ∀ front back, as = front ++ back → 0 ≤ depth front

/-- No operator stands outside parentheses. -/
def Shut (as : List Atom) : Prop := ∀ front op back, as = front ++ .operation op :: back → 0 < depth front

section

variable {as bs : List Atom} {a : Atom}

theorem Closed.append (ha : Closed as) (hb : Closed bs) : Closed (as ++ bs) := by
  refine ⟨by simp [ha.depth_eq, hb.depth_eq], fun front back he => ?_⟩
  rcases List.append_eq_append_iff.1 he with ⟨more, rfl, hm⟩ | ⟨more, hm, -⟩
  · simpa [ha.depth_eq] using hb.depth_nonneg more back hm
  · exact ha.depth_nonneg front more hm

theorem Closed.single (h : a.turn = 0) : Closed [a] := by
  refine ⟨by simp [h], fun front back he => ?_⟩
  rcases List.cons_eq_append_iff.1 he with ⟨rfl, -⟩ | ⟨more, rfl, hm⟩
  · simp
  · simp [h, (List.nil_eq_append_iff.1 hm).1]

theorem Closed.cons (h : a.turn = 0) (hc : Closed as) : Closed (a :: as) := (Closed.single h).append hc

theorem Closed.parens (h : Closed as) : Closed (parens as) := by
  refine ⟨by simp [JavaScript.parens, Atom.turn, h.depth_eq], fun front back he => ?_⟩
  rcases List.cons_eq_append_iff.1 he with ⟨rfl, -⟩ | ⟨inner, rfl, hinner⟩
  · simp
  rcases List.append_eq_append_iff.1 hinner with ⟨more, rfl, hm⟩ | ⟨more, hm, -⟩
  · rcases List.cons_eq_append_iff.1 hm with ⟨rfl, -⟩ | ⟨more, rfl, hm⟩
    · simp [Atom.turn, h.depth_eq]
    · simp [Atom.turn, h.depth_eq, (List.nil_eq_append_iff.1 (List.cons.inj hm).2).1]
  · have := h.depth_nonneg inner more hm
    simp only [depth_cons, Atom.turn]
    omega

theorem Shut.parens (h : Closed as) : Shut (parens as) := by
  intro front op back he
  rcases List.cons_eq_append_iff.1 he with ⟨-, hop⟩ | ⟨inner, rfl, hinner⟩
  · cases hop
  have : 0 ≤ depth inner := by
    rcases List.append_eq_append_iff.1 hinner with ⟨more, rfl, hm⟩ | ⟨more, hm, -⟩
    · rcases List.cons_eq_append_iff.1 hm with ⟨-, hop⟩ | ⟨_, -, hop⟩
      · cases hop
      · simp at hop
    · exact h.depth_nonneg inner more hm
  simp only [depth_cons, Atom.turn]
  omega

/-- An atom that is neither an operator nor a parenthesis changes nothing. -/
theorem Shut.cons (ho : ∀ op, a ≠ .operation op) (h : a.turn = 0) (hs : Shut as) : Shut (a :: as) := by
  intro front op back he
  rcases List.cons_eq_append_iff.1 he with ⟨-, hop⟩ | ⟨inner, rfl, hinner⟩
  · exact absurd (List.cons.inj hop).1.symm (ho op)
  · simpa [h] using hs inner op back hinner

theorem Shut.nil : Shut [] := fun front op back he => by simp at he

theorem Shut.single (ho : ∀ op, a ≠ .operation op) (h : a.turn = 0) : Shut [a] := .cons ho h .nil

end

/-- Atoms that make up one operand. -/
structure Whole (as : List Atom) : Prop where
  closed : Closed as
  shut : Shut as
  ne_nil : as ≠ []

theorem whole_number (n : Nat) : Whole [.number n] := ⟨.single rfl, .single nofun rfl, nofun⟩

theorem whole_name (s : String) : Whole [.name s] := ⟨.single rfl, .single nofun rfl, nofun⟩

theorem whole_parens {as : List Atom} (h : Closed as) : Whole (parens as) := ⟨h.parens, .parens h, nofun⟩

theorem whole_truncateCall {as : List Atom} (h : Closed as) : Whole (truncateCall as) :=
  ⟨.cons rfl (.cons rfl (.cons rfl h.parens)), .cons nofun rfl (.cons nofun rfl (.cons nofun rfl (.parens h))), nofun⟩

/-! ## What atoms form -/

section

variable {k : Nat} {as left right : List Atom} {f : Formula}

theorem Forms.closed (h : Forms k as f) : Closed as := by
  induction h with
  | number | name => exact .single rfl
  | parens _ ih => exact ih.parens
  | truncate _ ih => exact (whole_truncateCall ih).closed
  | signed _ _ ih => exact .cons rfl ih
  | joined _ _ _ ihb iha => exact ihb.append (.cons rfl iha)

theorem parens_inj {as bs : List Atom} (h : parens as = parens bs) : as = bs :=
  List.append_cancel_right (List.cons.inj h).2

theorem Forms.ne_nil (h : Forms k as f) : as ≠ [] := by
  cases h <;> simp [JavaScript.parens, truncateCall]

theorem signAtom_injective : Function.Injective signAtom := by decide

/-- No operator splits the atoms of one operand. -/
theorem Whole.false_of_joined {op : Operation} (h : Whole as) (hl : Closed left)
    (he : as = left ++ .operation op :: right) : False := by
  have hd := h.shut _ _ _ he
  rw [hl.depth_eq] at hd
  omega

theorem forms_number_iff {n : Nat} : Forms k [.number n] f ↔ f = .number n := by
  refine ⟨fun h => ?_, fun h => h ▸ .number n⟩
  generalize he : [Atom.number n] = as at h
  cases h with
  | number value => cases he; rfl
  | name | parens | truncate | signed => cases he
  | joined _ before _ => exact ((whole_number n).false_of_joined before.closed he).elim

theorem forms_name_iff {s : String} (hs : s ∉ reservedWords) : Forms k [.name s] f ↔ f = .name s := by
  refine ⟨fun h => ?_, fun h => h ▸ .name hs⟩
  generalize he : [Atom.name s] = as at h
  cases h with
  | name => cases he; rfl
  | number | parens | truncate | signed => cases he
  | joined _ before _ => exact ((whole_name s).false_of_joined before.closed he).elim

theorem forms_parens_iff (hc : Closed as) : Forms k (parens as) f ↔ Forms 1 as f := by
  refine ⟨fun h => ?_, .parens⟩
  generalize he : parens as = bs at h
  cases h with
  | parens inside => rwa [parens_inj he]
  | number | name | truncate | signed => cases he
  | joined _ before _ => exact ((whole_parens hc).false_of_joined before.closed he).elim

theorem forms_truncateCall_iff (hc : Closed as) :
    Forms k (truncateCall as) f ↔ ∃ g, f = .truncate g ∧ Forms 1 as g := by
  constructor
  · intro h
    generalize he : truncateCall as = bs at h
    cases h with
    | truncate inside =>
      rw [truncateCall, truncateCall] at he
      simp only [List.cons.injEq, true_and] at he
      exact ⟨_, rfl, parens_inj he ▸ inside⟩
    | number | name | parens | signed => cases he
    | joined _ before _ => exact ((whole_truncateCall hc).false_of_joined before.closed he).elim
  · rintro ⟨g, rfl, h⟩
    exact .truncate h

theorem forms_signed_iff {negative : Bool} (hs : Shut as) (hk : k ≤ signLevel) :
    Forms k (signAtom negative :: as) f ↔ ∃ g, f = .signed negative g ∧ Forms signLevel as g := by
  constructor
  · intro h
    generalize he : signAtom negative :: as = bs at h
    cases h with
    | @signed _ negative' _ g _ inside =>
      obtain ⟨hsign, rfl⟩ := List.cons.inj he
      obtain rfl : negative = negative' := signAtom_injective hsign
      exact ⟨g, rfl, inside⟩
    | number | name | parens | truncate => cases he
    | joined _ before _ =>
      rcases List.cons_eq_append_iff.1 he with ⟨rfl, -⟩ | ⟨inner, rfl, hinner⟩
      · exact absurd rfl before.ne_nil
      · have hd := before.closed.depth_eq
        have := hs _ _ _ hinner
        simp only [depth_cons, signAtom, Atom.turn] at hd
        omega
  · rintro ⟨g, rfl, h⟩
    exact .signed hk h

/-- An operator between two operands is the only one outside parentheses, so atoms are split there and nowhere
else. -/
theorem eq_of_joined {op op' : Operation} {left' right' : List Atom} (hl : Whole left) (hr : Shut right)
    (hc : Closed left') (he : left ++ .operation op :: right = left' ++ .operation op' :: right') :
    left = left' ∧ op = op' ∧ right = right' := by
  rcases List.append_eq_append_iff.1 he with ⟨more, rfl, hm⟩ | ⟨more, rfl, hm⟩
  · rcases List.cons_eq_append_iff.1 hm with ⟨rfl, hsame⟩ | ⟨inner, rfl, hinner⟩
    · simp_all
    · have hd := hc.depth_eq
      have := hr _ _ _ hinner
      simp only [depth_append, hl.closed.depth_eq, depth_cons, Atom.turn] at hd
      omega
  · rcases List.cons_eq_append_iff.1 hm with ⟨rfl, hsame⟩ | ⟨inner, rfl, -⟩
    · simp_all
    · have := hl.shut _ _ _ rfl
      rw [hc.depth_eq] at this
      omega

theorem forms_joined_iff {op : Operation} (hl : Whole left) (hr : Shut right) (hk : k ≤ op.level) :
    Forms k (left ++ .operation op :: right) f ↔
      ∃ g h, f = .joined op g h ∧ Forms op.level left g ∧ Forms (op.level + 1) right h := by
  constructor
  · intro h
    generalize he : left ++ .operation op :: right = bs at h
    cases h with
    | @joined _ op' left' right' g h _ before after =>
      obtain ⟨rfl, rfl, rfl⟩ := eq_of_joined hl hr before.closed he
      exact ⟨g, h, rfl, before, after⟩
    | signed =>
      -- a sign would stand in front of the left operand
      rcases List.append_eq_cons_iff.1 he with ⟨rfl, -⟩ | ⟨inner, rfl, -⟩
      · exact absurd rfl hl.ne_nil
      · exact absurd (hl.shut [] _ _ rfl) (by simp)
    | number value => exact ((whole_number value).false_of_joined hl.closed he.symm).elim
    | name => exact ((whole_name _).false_of_joined hl.closed he.symm).elim
    | parens inside => exact ((whole_parens inside.closed).false_of_joined hl.closed he.symm).elim
    | truncate inside => exact ((whole_truncateCall inside.closed).false_of_joined hl.closed he.symm).elim
  · rintro ⟨g, h, rfl, hg, hh⟩
    exact .joined hk hg hh

end

end PL0.JavaScript
