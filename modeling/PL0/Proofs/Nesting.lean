/-
Names follow the nesting of blocks. A name refers to what the nearest block around declares under it, and its distance
is the number of blocks between: the walk outwards stops at the first block that declares the name, so the blocks that
it has passed declare it not. In that block the symbol of the name comes before its first procedure. Main statement:
`Scope.resolve?_chain`.
-/
import Mathlib.Order.Bounds.Defs
import PL0.Proofs.Declarations.Insertion
import PL0.Scope

namespace PL0

/-! ## What one block declares -/

/-- The block declares the name. -/
def Block.Declares (b : Block) (name : String) : Prop :=
  name ∈ b.symbols.names ∨ name ∈ b.procedures.map (·.name)

/-- What a name stands for in a block that declares it. -/
inductive Block.Binds (b : Block) (name : String) : Binding → Prop
  | symbol {s : Symbol} (declared : s ∈ b.symbols.toList) (named : s.name = name) : b.Binds name (.symbol s)
  /-- A procedure is meant where no symbol has its name, and no procedure before it. -/
  | procedure {before after : List Procedure} {p : Procedure} (undeclared : name ∉ b.symbols.names)
      (declared : b.procedures = before ++ p :: after) (named : p.name = name)
      (first : name ∉ before.map (·.name)) : b.Binds name (.procedure p)

namespace Block

variable {b : Block} {name : String}

theorem procedure?_eq_some_iff {p : Procedure} : b.procedure? name = some p ↔
    ∃ before after, b.procedures = before ++ p :: after ∧ p.name = name ∧ name ∉ before.map (·.name) := by
  rw [procedure?, List.find?_eq_some_iff_append]
  constructor
  · rintro ⟨hn, before, after, he, hfirst⟩
    exact ⟨before, after, he, by simpa using hn, by simpa using hfirst⟩
  · rintro ⟨before, after, he, hn, hfirst⟩
    exact ⟨by simpa using hn, before, after, he, by simpa using hfirst⟩

theorem procedure?_eq_none_iff : b.procedure? name = none ↔ name ∉ b.procedures.map (·.name) := by
  simp [procedure?]

theorem binding?_eq_some_iff {binding : Binding} : b.binding? name = some binding ↔ b.Binds name binding := by
  rw [binding?]
  cases hs : b.symbols.get? name with
  | some s =>
    obtain ⟨hm, hn⟩ := Declarations.get?_eq_some_iff.1 hs
    constructor
    · rintro ⟨⟩
      exact .symbol hm hn
    · intro h
      cases h with
      | @symbol t ht hn' =>
        have hget := Declarations.get?_eq_some_iff.2 ⟨ht, hn'⟩
        rw [hs] at hget
        exact congrArg (Option.map Binding.symbol) hget
      | procedure hno _ _ _ => exact absurd (List.mem_map.2 ⟨s, hm, hn⟩) hno
  | none =>
    have hno := Declarations.get?_eq_none_iff.1 hs
    constructor
    · intro h
      obtain ⟨p, hp, rfl⟩ := Option.map_eq_some_iff.1 h
      obtain ⟨before, after, he, hn, hfirst⟩ := procedure?_eq_some_iff.1 hp
      exact .procedure hno he hn hfirst
    · intro h
      cases h with
      | symbol ht hn => exact absurd (List.mem_map.2 ⟨_, ht, hn⟩) hno
      | procedure _ he hn hfirst => rw [procedure?_eq_some_iff.2 ⟨_, _, he, hn, hfirst⟩, Option.map_some]

theorem binding?_eq_none_iff : b.binding? name = none ↔ ¬b.Declares name := by
  rw [binding?, Declares, not_or, ← Declarations.get?_eq_none_iff, ← procedure?_eq_none_iff]
  cases b.symbols.get? name <;> simp

theorem Binds.declares {binding : Binding} (h : b.Binds name binding) : b.Declares name := by
  by_contra hno
  rw [← binding?_eq_none_iff, binding?_eq_some_iff.2 h] at hno
  cases hno

end Block

/-! ## The walk outwards -/

namespace Scope

variable {name : String}

theorem find?_eq_none_iff {bs : List Block} : find? name bs = none ↔ ∀ b ∈ bs, ¬b.Declares name := by
  induction bs with
  | nil => simp [find?]
  | cons b outer ih =>
    rw [find?, List.forall_mem_cons, ← ih, ← Block.binding?_eq_none_iff]
    cases b.binding? name <;> simp

/-- The walk passes the blocks that do not declare the name, and counts them. -/
theorem split_of_find? {bs : List Block} {r : Resolution} (h : find? name bs = some r) :
    ∃ inner b outer, bs = inner ++ b :: outer ∧ inner.length = r.distance ∧
      (∀ c ∈ inner, ¬c.Declares name) ∧ b.Binds name r.binding := by
  induction bs generalizing r with
  | nil => cases h
  | cons b outer ih =>
    rw [find?] at h
    cases hb : b.binding? name with
    | some binding =>
      rw [hb] at h
      obtain rfl := Option.some.inj h
      exact ⟨[], b, outer, rfl, rfl, List.forall_mem_nil _, Block.binding?_eq_some_iff.1 hb⟩
    | none =>
      rw [hb] at h
      obtain ⟨r', hr, rfl⟩ := Option.map_eq_some_iff.1 h
      obtain ⟨inner, c, outer', rfl, hl, hno, hc⟩ := ih hr
      exact ⟨b :: inner, c, outer', rfl, congrArg (· + 1) hl,
        List.forall_mem_cons.2 ⟨Block.binding?_eq_none_iff.1 hb, hno⟩, hc⟩

/-- The blocks of a scope from the inside outwards. -/
def blocks (s : Scope) : List Block := s.block :: s.enclosing

/-- The first place in a list of blocks where the name is declared. -/
theorem isLeast_of_split {inner outer : List Block} {b : Block} (hno : ∀ c ∈ inner, ¬c.Declares name)
    (hb : b.Declares name) :
    IsLeast {d | ∃ c, (inner ++ b :: outer)[d]? = some c ∧ c.Declares name} inner.length := by
  refine ⟨⟨b, by simp, hb⟩, ?_⟩
  rintro d ⟨c, hd, hc⟩
  by_contra hlt
  rw [List.getElem?_append_left (Nat.lt_of_not_le hlt)] at hd
  exact hno c (List.mem_of_getElem? hd) hc

/-! ## Chains of scopes -/

/-- The scope of the last of the blocks, each of which is inside the one before it. -/
def chain (b : Block) (bs : List Block) : Scope := bs.foldl child (root b)

theorem blocks_foldl_child (s : Scope) (bs : List Block) : (bs.foldl child s).blocks = bs.reverse ++ s.blocks := by
  induction bs generalizing s with
  | nil => rfl
  | cons b bs ih =>
    rw [List.foldl_cons, ih, List.reverse_cons, List.append_assoc]
    rfl

theorem blocks_chain (b : Block) (bs : List Block) : (chain b bs).blocks = (b :: bs).reverse := by
  rw [chain, blocks_foldl_child, List.reverse_cons]
  rfl

theorem level_chain (b : Block) (bs : List Block) : (chain b bs).level = bs.length := by
  have h := congrArg List.length (blocks_chain b bs)
  rw [List.length_reverse] at h
  exact Nat.succ.inj h

/-- **Names follow the nesting of blocks.** In a chain of blocks a name refers to nothing where no block declares it.
Otherwise its distance is that of the nearest block that declares it, which is no further out than the chain is deep,
and it stands for what that block declares under it. A block inside only adds one to the distance, unless it declares
the name itself. -/
theorem resolve?_chain (b : Block) (bs : List Block) (name : String) :
    ((chain b bs).resolve? name = none ↔ ∀ c ∈ b :: bs, ¬c.Declares name) ∧
      (∀ r, (chain b bs).resolve? name = some r →
        IsLeast {d | ∃ c, (b :: bs).reverse[d]? = some c ∧ c.Declares name} r.distance ∧
          (∃ c, (b :: bs).reverse[r.distance]? = some c ∧ c.Binds name r.binding) ∧
          r.distance ≤ (chain b bs).level) ∧
      (chain b bs).level = bs.length ∧
      ((chain b bs).isVisible name = true ↔ ∃ c ∈ b :: bs, c.Declares name) ∧
      ∀ c, ¬c.Declares name →
        ((chain b bs).child c).resolve? name = ((chain b bs).resolve? name).map Resolution.deeper := by
  have hwalk : (chain b bs).resolve? name = find? name (b :: bs).reverse := by
    rw [← blocks_chain]
    rfl
  have hnone : (chain b bs).resolve? name = none ↔ ∀ c ∈ b :: bs, ¬c.Declares name := by
    rw [hwalk, find?_eq_none_iff]
    simp only [List.mem_reverse]
  refine ⟨hnone, fun r hr => ?_, level_chain b bs, ?_, fun c hc => ?_⟩
  · rw [hwalk] at hr
    obtain ⟨inner, c, outer, he, hl, hno, hc⟩ := split_of_find? hr
    have hlt : r.distance < (b :: bs).reverse.length := by
      rw [he, ← hl, List.length_append, List.length_cons]
      omega
    rw [List.length_reverse, List.length_cons] at hlt
    rw [he, ← hl, level_chain]
    exact ⟨isLeast_of_split hno hc.declares, ⟨c, by simp, hc⟩, by omega⟩
  · rw [isVisible, Option.isSome_iff_ne_none, ne_eq, hnone]
    simp only [not_forall, not_not, exists_prop]
  · rw [resolve?_child, Block.binding?_eq_none_iff.2 hc]

end Scope

end PL0
