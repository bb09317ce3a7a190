/-
Histories of a yard: requests one after another. Main statements, all by induction on the history: the items in the
row and among what waits are those of the words that were taken (`items_afterAll`), the yard was completed if it was
asked to be while no parenthesis was open (`completed_history`), and an operator waits outside all parentheses where
the history strands one (`waitsOutside_history`).
-/
import Mathlib.Data.List.Induction
import PL0.Proofs.Yard.Request

namespace PL0

/-- How many parentheses are open after a history. -/
def openAfter (rs : List Request) : Nat := rs.foldl Request.depthAfter 0

/-- An operator came where no parenthesis was open, and where none was open nothing was closed since. -/
def Strands (rs : List Request) : Prop :=
  ∃ before r after, rs = before ++ r :: after ∧ r.Operates ∧ openAfter before = 0 ∧
    ∀ mid r' rest, after = mid ++ r' :: rest → r'.Closing → openAfter mid ≠ 0

namespace Yard

/-- The yard after requests one after another. -/
def afterAll (y : Yard) (rs : List Request) : Yard := rs.foldl after y

/-- The words that the yard takes. -/
def taken (y : Yard) : List Request → List Token
  | [] => []
  | r :: rs => (y.takes? r).toList ++ (y.after r).taken rs

theorem afterAll_append (y : Yard) (rs rs' : List Request) :
    y.afterAll (rs ++ rs') = (y.afterAll rs).afterAll rs' := List.foldl_append

theorem afterAll_concat (y : Yard) (rs : List Request) (r : Request) :
    y.afterAll (rs ++ [r]) = (y.afterAll rs).after r := List.foldl_concat ..

theorem items_taken_cons (y : Yard) (r : Request) (rs : List Request) :
    (y.taken (r :: rs)).filterMap Token.item? =
      y.takenItems r ++ ((y.after r).taken rs).filterMap Token.item? := by
  rw [taken, List.filterMap_append, takenItems]

/-- No item is lost: the words that were taken are in the row or wait. -/
theorem items_afterAll (y : Yard) (rs : List Request) :
    (y.afterAll rs).items.Perm ((y.taken rs).filterMap Token.item? ++ y.items) := by
  induction rs generalizing y with
  | nil => exact .refl _
  | cons r rs ih =>
    rw [items_taken_cons]
    calc ((y.after r).afterAll rs).items
        |>.Perm (((y.after r).taken rs).filterMap Token.item? ++ (y.after r).items) := ih (y.after r)
      _ |>.Perm (((y.after r).taken rs).filterMap Token.item? ++ (y.takenItems r ++ y.items)) :=
        (y.items_after r).append_left _
      _ |>.Perm (y.takenItems r ++ ((y.after r).taken rs).filterMap Token.item? ++ y.items) := by
        rw [← List.append_assoc]
        exact List.perm_append_comm.append_right _

theorem depth_afterAll (y : Yard) (rs : List Request) :
    (y.afterAll rs).depth = rs.foldl Request.depthAfter y.depth := by
  induction rs generalizing y with
  | nil => rfl
  | cons r rs ih => rw [List.foldl_cons, ← depth_after]; exact ih (y.after r)

theorem depth_history (rs : List Request) : (initial.afterAll rs).depth = openAfter rs := depth_afterAll initial rs

theorem completed_afterAll (y : Yard) (rs : List Request) : (y.afterAll rs).completed = true ↔ y.completed = true ∨
    ∃ before rest, rs = before ++ .complete :: rest ∧ before.foldl Request.depthAfter y.depth = 0 := by
  induction rs generalizing y with
  | nil => simp [afterAll]
  | cons r rs ih =>
    rw [show y.afterAll (r :: rs) = (y.after r).afterAll rs from rfl, ih, completed_after, depth_after, or_assoc]
    refine or_congr_right ⟨?_, ?_⟩
    · rintro (⟨rfl, hd⟩ | ⟨before, rest, rfl, hd⟩)
      · exact ⟨[], rs, rfl, hd⟩
      · exact ⟨r :: before, rest, rfl, hd⟩
    · rintro ⟨before, rest, he, hd⟩
      rcases before with _ | ⟨first, before⟩
      · cases he
        exact .inl ⟨rfl, hd⟩
      · cases he
        exact .inr ⟨before, rest, rfl, hd⟩

/-- A yard was completed if a completion came where no parenthesis was open. -/
theorem completed_history (rs : List Request) : (initial.afterAll rs).completed = true ↔
    ∃ before rest, rs = before ++ .complete :: rest ∧ openAfter before = 0 := by
  rw [completed_afterAll]
  exact or_iff_right nofun

theorem openAfter_after_operator {before : List Request} {r : Request} (hr : r.Operates) (hb : openAfter before = 0)
    (after : List Request) : openAfter (before ++ r :: after) = openAfter after := by
  cases r with
  | process t =>
    obtain ⟨op, item⟩ := hr
    rw [openAfter, List.foldl_append, List.foldl_cons, depthAfter_of_item? item]
    rw [openAfter] at hb
    rw [hb, openAfter]
  | complete => cases hr
  | tree => cases hr

/-- An operator is stranded by what a history does last: the last request hands one over outside all parentheses, or
one was stranded before and is not reached by the last request. -/
theorem strands_concat (rs : List Request) (r : Request) : Strands (rs ++ [r]) ↔
    (r.Operates ∧ openAfter rs = 0) ∨ (Strands rs ∧ ¬(r.Closing ∧ openAfter rs = 0)) := by
  constructor
  · rintro ⟨before, op, after, he, hop, hb, hkept⟩
    -- the last request is the operator itself, or one that did not reach it
    rcases List.eq_nil_or_concat' after with rfl | ⟨after, last, rfl⟩
    · obtain ⟨rfl, rfl⟩ : rs = before ∧ r = op := by simpa using List.append_inj' he rfl
      exact .inl ⟨hop, hb⟩
    · have he' : rs ++ [r] = (before ++ op :: after) ++ [last] := by rw [he]; simp
      obtain ⟨rfl, rfl⟩ : rs = before ++ op :: after ∧ r = last := by simpa using List.append_inj' he' rfl
      refine .inr ⟨⟨before, op, after, rfl, hop, hb, fun mid r' rest hm => ?_⟩, ?_⟩
      · exact hkept mid r' (rest ++ [r]) (by rw [hm]; simp)
      · rintro ⟨hc, hd⟩
        rw [openAfter_after_operator hop hb] at hd
        exact hkept after r [] rfl hc hd
  · rintro (⟨hop, hd⟩ | ⟨⟨before, op, after, rfl, hop, hb, hkept⟩, hr⟩)
    · exact ⟨rs, r, [], rfl, hop, hd, by simp⟩
    · refine ⟨before, op, after ++ [r], by simp, hop, hb, fun mid r' rest hm hc => ?_⟩
      rcases List.eq_nil_or_concat' rest with rfl | ⟨rest, last, rfl⟩
      · obtain ⟨rfl, rfl⟩ : after = mid ∧ r = r' := by simpa using List.append_inj' hm rfl
        rw [openAfter_after_operator hop hb] at hr
        exact fun hd => hr ⟨hc, hd⟩
      · have hm' : after ++ [r] = (mid ++ r' :: rest) ++ [last] := by rw [hm]; simp
        obtain ⟨rfl, -⟩ : after = mid ++ r' :: rest ∧ r = last := by simpa using List.append_inj' hm' rfl
        exact hkept mid r' rest rfl hc

/-- An operator waits outside all parentheses exactly where the history strands one. -/
theorem waitsOutside_history (rs : List Request) : (initial.afterAll rs).WaitsOutside ↔ Strands rs := by
  induction rs using List.reverseRecOn with
  | nil => simp [afterAll, WaitsOutside, initial, Strands]
  | append_singleton rs r ih => rw [afterAll_concat, waitsOutside_after, strands_concat, depth_history, ih]

end Yard

end PL0
