/-
Classes of characters given by ranges of code points, and the law that such a class holds exactly the
characters that lie in one of its ranges.
-/

namespace PL0.Text

/-- A run of neighbouring code points, both ends included. -/
structure CodeRange where
  first : Nat
  last : Nat
deriving DecidableEq, Repr

namespace CodeRange

/-- Whether the code point `n` lies in the range. -/
def has (r : CodeRange) (n : Nat) : Bool := decide (r.first ≤ n) && decide (n ≤ r.last)

/-- Whether the character lies in one of the ranges. -/
def anyHas (rs : List CodeRange) (c : Char) : Bool := rs.any (·.has c.toNat)

theorem has_iff {r : CodeRange} {n : Nat} : r.has n = true ↔ r.first ≤ n ∧ n ≤ r.last := by
  simp [has]

theorem anyHas_iff {rs : List CodeRange} {c : Char} :
    anyHas rs c = true ↔ ∃ r ∈ rs, r.first ≤ c.toNat ∧ c.toNat ≤ r.last := by
  simp [anyHas, has_iff]

end CodeRange

end PL0.Text
