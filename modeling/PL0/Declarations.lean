/-
The constants and variables that a block declares, in the order of their first declarations. A name stands
in the list once: declaring it again puts the new declaration into the old one's place. Main statements:
`get?_insert_self`, `get?_insert_other` and `names_insert`, and `exchange_eq` for the symbol that makes way.
-/

namespace PL0

/-- What a declared name stands for. -/
inductive Role where
  | constant (value : Int64)
  | variable
deriving DecidableEq, Repr

/-- A declaration: a name, what it stands for and the line it is declared on. -/
structure Symbol where
  name : String
  role : Role
  line : Nat
deriving DecidableEq, Repr

namespace Symbol

/-- Replaces the first symbol of the same name, or adds the symbol at the end. -/
def declare (s : Symbol) : List Symbol → List Symbol
  | [] => [s]
  | t :: ts => if t.name = s.name then s :: ts else t :: declare s ts

theorem map_name_declare (s : Symbol) (ts : List Symbol) :
    (declare s ts).map (·.name) =
      if s.name ∈ ts.map (·.name) then ts.map (·.name) else ts.map (·.name) ++ [s.name] := by
  induction ts with
  | nil => simp [declare]
  | cons t ts ih =>
    by_cases h : t.name = s.name
    · simp [declare, h]
    · have h' : s.name ≠ t.name := fun he => h he.symm
      simp only [declare, h, if_false, List.map_cons, ih, List.mem_cons, h', false_or]
      split <;> simp

theorem nodup_declare {s : Symbol} {ts : List Symbol} (h : (ts.map (·.name)).Nodup) :
    ((declare s ts).map (·.name)).Nodup := by
  rw [map_name_declare]
  split
  · exact h
  · rename_i hm
    exact List.nodup_append.2 ⟨h, by simp, by
      intro a ha b hb
      simp only [List.mem_singleton] at hb
      subst hb
      exact fun he => hm (he ▸ ha)⟩

theorem find?_declare_self (s : Symbol) (ts : List Symbol) :
    (declare s ts).find? (·.name == s.name) = some s := by
  induction ts with
  | nil => simp [declare]
  | cons t ts ih =>
    by_cases h : t.name = s.name
    · simp [declare, h]
    · simp [declare, h, ih]

theorem find?_declare_other {s : Symbol} {name : String} (hne : name ≠ s.name) (ts : List Symbol) :
    (declare s ts).find? (·.name == name) = ts.find? (·.name == name) := by
  induction ts with
  | nil => simp [declare, hne.symm]
  | cons t ts ih =>
    by_cases h : t.name = s.name
    · simp [declare, h, hne.symm]
    · simp only [declare, h, if_false, List.find?_cons, ih]

/-- Declares the symbol in a list and hands back the one that it replaces. -/
def exchange (s : Symbol) : List Symbol → Option Symbol × List Symbol
  | [] => (none, [s])
  | t :: ts => if t.name = s.name then (some t, s :: ts) else Prod.map id (t :: ·) (exchange s ts)

theorem exchange_eq (s : Symbol) (ts : List Symbol) :
    s.exchange ts = (ts.find? (·.name == s.name), s.declare ts) := by
  induction ts with
  | nil => rfl
  | cons t ts ih =>
    by_cases h : t.name = s.name
    · simp [exchange, declare, h]
    · simp [exchange, declare, h, ih]

end Symbol

/-- The declarations of a block, each name once. -/
structure Declarations where
  toList : List Symbol
  nodup : (toList.map (·.name)).Nodup
deriving DecidableEq

namespace Declarations

/-- No declarations. -/
def empty : Declarations := ⟨[], List.nodup_nil⟩

/-- Declares a symbol. -/
def insert (d : Declarations) (s : Symbol) : Declarations :=
  ⟨s.declare d.toList, Symbol.nodup_declare d.nodup⟩

/-- Declares a symbol and hands back the one of its name that it replaces. -/
def exchange (d : Declarations) (s : Symbol) : Option Symbol × Declarations :=
  ((s.exchange d.toList).1, ⟨(s.exchange d.toList).2, by rw [s.exchange_eq]; exact Symbol.nodup_declare d.nodup⟩)

/-- Declares symbols one after another. -/
def insertAll (d : Declarations) (ss : List Symbol) : Declarations := ss.foldl insert d

/-- The declarations that a list of symbols makes. -/
def ofList (ss : List Symbol) : Declarations := empty.insertAll ss

/-- The symbol of a name. -/
def get? (d : Declarations) (name : String) : Option Symbol := d.toList.find? (·.name == name)

/-- Whether the name is declared. -/
def contains (d : Declarations) (name : String) : Bool := (d.get? name).isSome

/-- How many names are declared. -/
def size (d : Declarations) : Nat := d.toList.length

/-- Whether nothing is declared. -/
def isEmpty (d : Declarations) : Bool := d.toList.isEmpty

/-- The declared names in order. -/
def names (d : Declarations) : List String := d.toList.map (·.name)

theorem get?_insert_self (d : Declarations) (s : Symbol) : (d.insert s).get? s.name = some s :=
  Symbol.find?_declare_self s d.toList

theorem get?_insert_other (d : Declarations) {s : Symbol} {name : String} (hne : name ≠ s.name) :
    (d.insert s).get? name = d.get? name :=
  Symbol.find?_declare_other hne d.toList

/-- A new name comes last; a name declared again keeps its place. -/
theorem names_insert (d : Declarations) (s : Symbol) :
    (d.insert s).names = if s.name ∈ d.names then d.names else d.names ++ [s.name] :=
  Symbol.map_name_declare s d.toList

theorem exchange_eq (d : Declarations) (s : Symbol) : d.exchange s = (d.get? s.name, d.insert s) := by
  simp [exchange, Symbol.exchange_eq, get?, insert]

end Declarations

end PL0
