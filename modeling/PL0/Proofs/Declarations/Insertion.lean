/-
Declarations as an insertion-ordered map. Whatever symbols are inserted one after another, each inserted name stands
in the list once, at the place of its first insertion and with the symbol of its last one; and an insertion hands back
what stood there and leaves all other entries where they are. Main statement: `ofList_keeps_insertion_order`.
-/
import Mathlib.Data.Finset.Dedup
import Mathlib.Data.Finset.Card
import PL0.Proofs.Declarations.Order

namespace PL0

/-- An insertion leaves the entries of all other names in their places. -/
theorem Symbol.getElem?_declare_of_ne {s t : Symbol} (h : t.name ≠ s.name) (ts : List Symbol) (i : Nat) :
    (s.declare ts)[i]? = some t ↔ ts[i]? = some t := by
  induction ts generalizing i with
  | nil =>
    have hst : s ≠ t := fun he => h (he ▸ rfl)
    cases i <;> simp [declare, hst]
  | cons u us ih =>
    rw [declare]
    split
    · rename_i hu
      have hst : s ≠ t := fun he => h (he ▸ rfl)
      have hut : u ≠ t := fun he => h (he ▸ hu)
      cases i <;> simp [hst, hut]
    · cases i with
      | zero => simp
      | succ i => simpa using ih i

namespace Declarations

/-! ## What each name stands for -/

/-- No symbol of the name comes after the symbol. -/
def LastOfName (ss : List Symbol) (s : Symbol) : Prop :=
  ∃ before after, ss = before ++ s :: after ∧ s.name ∉ after.map (·.name)

theorem latest?_eq_some_iff {ss : List Symbol} {name : String} {s : Symbol} :
    latest? ss name = some s ↔ s.name = name ∧ LastOfName ss s := by
  rw [latest?, List.find?_eq_some_iff_append]
  constructor
  · rintro ⟨hn, after, before, he, hnone⟩
    have hn : s.name = name := by simpa using hn
    refine ⟨hn, before.reverse, after.reverse, ?_, ?_⟩
    · simpa using congrArg List.reverse he
    · simpa [hn] using hnone
  · rintro ⟨rfl, before, after, rfl, hnone⟩
    exact ⟨by simp, after.reverse, before.reverse, by simp, by simpa using hnone⟩

theorem latest?_eq_none_iff {ss : List Symbol} {name : String} :
    latest? ss name = none ↔ name ∉ ss.map (·.name) := by
  simp [latest?]

theorem get?_eq_some_iff {d : Declarations} {name : String} {s : Symbol} :
    d.get? name = some s ↔ s ∈ d.toList ∧ s.name = name := by
  constructor
  · intro h
    exact ⟨List.mem_of_find?_eq_some h, by simpa using List.find?_some h⟩
  · rintro ⟨hm, rfl⟩
    rw [← d.filterMap_get?] at hm
    obtain ⟨name, -, hs⟩ := List.mem_filterMap.1 hm
    have hn : s.name = name := by simpa using List.find?_some hs
    rw [hn, hs]

theorem get?_eq_none_iff {d : Declarations} {name : String} : d.get? name = none ↔ name ∉ d.names := by
  simp [get?, names]

/-! ## Where each name stands -/

theorem nodup_names (d : Declarations) : d.names.Nodup := d.nodup

/-- Names without their repetitions stand in the order of their first places. -/
theorem pairwise_idxOf_eraseDups (names : List String) :
    names.eraseDups.Pairwise fun a b => names.idxOf a < names.idxOf b := by
  induction names using List.reverseRecOn with
  | nil => exact List.Pairwise.nil
  | append_singleton names name ih =>
    have hold : ∀ {a}, a ∈ names.eraseDups → (names ++ [name]).idxOf a = names.idxOf a := fun ha =>
      List.idxOf_append_of_mem (List.mem_eraseDups.1 ha)
    have hkept : names.eraseDups.Pairwise fun a b => (names ++ [name]).idxOf a < (names ++ [name]).idxOf b :=
      ih.imp_of_mem fun ha hb hlt => by rwa [hold ha, hold hb]
    rw [eraseDups_concat]
    split
    · exact hkept
    · rename_i hnew
      refine List.pairwise_append.2 ⟨hkept, List.pairwise_singleton _ name, fun a ha b hb => ?_⟩
      rw [List.mem_singleton.1 hb, hold ha, List.idxOf_append_of_notMem hnew]
      exact Nat.lt_add_right _ (List.idxOf_lt_length_of_mem (List.mem_eraseDups.1 ha))

/-! ## Tables after insertions -/

/-- The table is the insertion-ordered map of the symbols that were inserted. -/
structure InsertionOrdered (ss : List Symbol) (d : Declarations) : Prop where
  /-- Each inserted name stands in the table once, and no other name, -/
  count_names : ∀ name, d.names.count name = if name ∈ ss.map (·.name) then 1 else 0
  /-- in the order of the first insertions, -/
  order : d.names.Pairwise fun a b => (ss.map (·.name)).idxOf a < (ss.map (·.name)).idxOf b
  /-- with the symbol that was inserted last under it. -/
  last : ∀ s ∈ d.toList, LastOfName ss s
  /-- That symbol is what the name is found to stand for; -/
  found : ∀ name s, d.get? name = some s ↔ s.name = name ∧ LastOfName ss s
  /-- a name that was never inserted is not found. -/
  missing : ∀ name, d.get? name = none ↔ name ∉ ss.map (·.name)
  contains_iff : ∀ name, d.contains name = true ↔ ∃ s, d.get? name = some s
  isEmpty_iff : d.isEmpty = true ↔ d.size = 0
  /-- There are as many entries as different names. -/
  size_eq : d.size = (ss.map (·.name)).toFinset.card

theorem insertionOrdered_ofList (ss : List Symbol) : InsertionOrdered ss (ofList ss) where
  count_names name := by
    rw [(nodup_names _).count, names_ofList]
    simp only [List.mem_eraseDups]
  order := by
    rw [names_ofList]
    exact pairwise_idxOf_eraseDups _
  last s hs := by
    have hget : (ofList ss).get? s.name = some s := get?_eq_some_iff.2 ⟨hs, rfl⟩
    rw [get?_ofList] at hget
    exact (latest?_eq_some_iff.1 hget).2
  found name s := by rw [get?_ofList, latest?_eq_some_iff]
  missing name := by rw [get?_ofList, latest?_eq_none_iff]
  contains_iff name := by rw [contains, Option.isSome_iff_exists]
  isEmpty_iff := by rw [isEmpty, size, List.isEmpty_iff_length_eq_zero]
  size_eq := by
    have hlen : (ofList ss).size = (ofList ss).names.length := (List.length_map _).symm
    rw [hlen, ← List.toFinset_card_of_nodup (nodup_names _), names_ofList]
    refine congrArg Finset.card (Finset.ext fun name => ?_)
    rw [List.mem_toFinset, List.mem_toFinset, List.mem_eraseDups]

/-- **Tables keep the order of insertion.** After any insertions the table is the insertion-ordered map of the symbols
that were inserted; and one insertion more hands back what the name stood for and leaves the entries of all other names
in their places. -/
theorem ofList_keeps_insertion_order (ss : List Symbol) :
    InsertionOrdered ss (ofList ss) ∧
      ∀ s : Symbol, ((ofList ss).exchange s).1 = (ofList ss).get? s.name ∧
        ((ofList ss).exchange s).2 = ofList (ss ++ [s]) ∧
        ∀ (i : Nat) (t : Symbol), t.name ≠ s.name →
          (((ofList ss).exchange s).2.toList[i]? = some t ↔ (ofList ss).toList[i]? = some t) := by
  refine ⟨insertionOrdered_ofList ss, fun s => ?_⟩
  rw [exchange_eq, ofList_append_singleton]
  exact ⟨rfl, rfl, fun i t h => Symbol.getElem?_declare_of_ne h (ofList ss).toList i⟩

end Declarations

end PL0
