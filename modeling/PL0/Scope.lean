/-
Scopes: a block and the blocks around it, from the inside outwards. A name is looked for in each block in
turn; in one block a declared symbol comes before a procedure, and of procedures with one name the first.
Main statement: `resolve?_child`, the walk one block at a time.
-/
import PL0.Program

namespace PL0

/-- The first procedure of a name in a block. -/
def Block.procedure? (b : Block) (name : String) : Option Procedure :=
  b.procedures.find? (·.name == name)

/-- What a name refers to. -/
inductive Binding where
  | symbol (s : Symbol)
  | procedure (p : Procedure)

/-- What a name refers to, and how many blocks further out it is declared. -/
structure Resolution where
  binding : Binding
  distance : Nat

/-- What a block itself declares under a name. -/
def Block.binding? (b : Block) (name : String) : Option Binding :=
  match b.symbols.get? name with
  | some s => some (.symbol s)
  | none => (b.procedure? name).map .procedure

namespace Resolution

/-- The same binding seen from one block further in. -/
def deeper (r : Resolution) : Resolution := { r with distance := r.distance + 1 }

/-- A resolution in words. -/
def describe (r : Resolution) : String :=
  let kind := match r.binding with
    | .symbol ⟨_, .constant value, _⟩ => "const = " ++ toString value
    | .symbol ⟨_, .variable, _⟩ => "var"
    | .procedure _ => "procedure"
  kind ++ ", distance " ++ toString r.distance

end Resolution

/-- A block and the blocks around it, the nearest first. -/
structure Scope where
  block : Block
  enclosing : List Block

namespace Scope

/-- The scope of a block that nothing encloses. -/
def root (b : Block) : Scope := ⟨b, []⟩

/-- The scope of a block directly inside. -/
def child (s : Scope) (b : Block) : Scope := ⟨b, s.block :: s.enclosing⟩

/-- How many blocks enclose the block. -/
def level (s : Scope) : Nat := s.enclosing.length

/-- Looks a name up in blocks from the inside outwards. -/
def find? (name : String) : List Block → Option Resolution
  | [] => none
  | b :: outer =>
    match b.binding? name with
    | some binding => some ⟨binding, 0⟩
    | none => (find? name outer).map Resolution.deeper

/-- What a name refers to in a scope. -/
def resolve? (s : Scope) (name : String) : Option Resolution := find? name (s.block :: s.enclosing)

/-- Whether a name refers to anything in a scope. -/
def isVisible (s : Scope) (name : String) : Bool := (s.resolve? name).isSome

/-- A block inside adds one to every distance, unless it declares the name itself. -/
theorem resolve?_child (s : Scope) (b : Block) (name : String) :
    (s.child b).resolve? name =
      match b.binding? name with
      | some binding => some ⟨binding, 0⟩
      | none => (s.resolve? name).map Resolution.deeper := rfl

end Scope

end PL0
