/-
The order of declarations. Whatever symbols are declared one after another, the list that results has each
name once, at the place of its first declaration and with the symbol of its last one. Main statement:
`ofList_eq_settled`.
-/
import Mathlib.Data.List.Basic
import Mathlib.Data.List.Induction
import PL0.Declarations

namespace PL0.Declarations

/-- The symbol that a list of symbols declares last under a name. -/
def latest? (ss : List Symbol) (name : String) : Option Symbol := ss.reverse.find? (·.name == name)

theorem name_of_latest? {ss : List Symbol} {name : String} {s : Symbol} (h : latest? ss name = some s) :
    s.name = name := by
  simpa using List.find?_some h

theorem insertAll_append (d : Declarations) (ss ss' : List Symbol) :
    d.insertAll (ss ++ ss') = (d.insertAll ss).insertAll ss' := List.foldl_append

theorem ofList_append_singleton (ss : List Symbol) (s : Symbol) :
    ofList (ss ++ [s]) = (ofList ss).insert s := insertAll_append empty ss [s]

/-- Without repetitions, a name that was there already adds nothing. -/
theorem eraseDups_concat (names : List String) (name : String) :
    (names ++ [name]).eraseDups = if name ∈ names then names.eraseDups else names.eraseDups ++ [name] := by
  rw [List.eraseDups_append]
  by_cases h : name ∈ names
  · have hr : [name].removeAll names = [] := by simpa [List.removeAll] using h
    rw [hr, List.eraseDups_nil, List.append_nil, if_pos h]
  · have hr : [name].removeAll names = [name] := by simpa [List.removeAll] using h
    rw [hr, if_neg h]
    rfl

theorem names_ofList (ss : List Symbol) : (ofList ss).names = (ss.map (·.name)).eraseDups := by
  induction ss using List.reverseRecOn with
  | nil => rfl
  | append_singleton ss s ih =>
    rw [ofList_append_singleton, names_insert, ih, List.map_append, List.map_singleton, eraseDups_concat]
    simp only [List.mem_eraseDups]

theorem get?_ofList (ss : List Symbol) (name : String) : (ofList ss).get? name = latest? ss name := by
  induction ss using List.reverseRecOn with
  | nil => rfl
  | append_singleton ss s ih =>
    rw [ofList_append_singleton]
    by_cases h : name = s.name
    · rw [h, get?_insert_self]
      simp [latest?]
    · rw [get?_insert_other _ h, ih]
      simp [latest?, Ne.symm h]

theorem nodup_filterMap {f : String → Option Symbol} (hf : ∀ {name s}, f name = some s → s.name = name)
    {names : List String} (hn : names.Nodup) : ((names.filterMap f).map (·.name)).Nodup := by
  induction names with
  | nil => exact List.nodup_nil
  | cons name names ih =>
    obtain ⟨hm, hn⟩ := List.nodup_cons.1 hn
    cases h : f name with
    | none => simpa [h] using ih hn
    | some s =>
      rw [List.filterMap_cons_some h, List.map_cons, List.nodup_cons]
      refine ⟨fun hs => hm ?_, ih hn⟩
      obtain ⟨s', hs', he⟩ := List.mem_map.1 hs
      obtain ⟨name', hn', hf'⟩ := List.mem_filterMap.1 hs'
      rw [← hf h, ← he, hf hf']
      exact hn'

/-- The symbols of a list, each name once: at the place of its first symbol, with its last one. -/
def settled (ss : List Symbol) : Declarations where
  toList := (ss.map (·.name)).eraseDups.filterMap (latest? ss)
  nodup := nodup_filterMap name_of_latest? (names_ofList ss ▸ (ofList ss).nodup)

theorem mem_of_mem_settled {ss : List Symbol} {s : Symbol} (h : s ∈ (settled ss).toList) : s ∈ ss := by
  obtain ⟨name, -, hl⟩ := List.mem_filterMap.1 h
  exact List.mem_reverse.1 (List.mem_of_find?_eq_some hl)

/-- A list of declarations is its names, each with its symbol. -/
theorem filterMap_get? (d : Declarations) : d.names.filterMap d.get? = d.toList := by
  obtain ⟨ss, hn⟩ := d
  induction ss with
  | nil => rfl
  | cons s ss ih =>
    obtain ⟨hs, hn'⟩ := List.nodup_cons.1 hn
    have hself : (⟨s :: ss, hn⟩ : Declarations).get? s.name = some s := by simp [get?]
    rw [names, List.map_cons, List.filterMap_cons_some hself]
    refine congrArg (s :: ·) (Eq.trans ?_ (ih hn'))
    refine List.filterMap_congr fun name hm => ?_
    have hne : s.name ≠ name := by
      rintro rfl
      exact hs hm
    simp [get?, hne]

/-- Symbols declared one after another settle. -/
theorem ofList_eq_settled (ss : List Symbol) : ofList ss = settled ss := by
  have h : (ofList ss).toList = (settled ss).toList := by
    rw [← filterMap_get?, names_ofList]
    exact List.filterMap_congr fun name _ => get?_ofList ss name
  cases hl : ofList ss with
  | mk l hn =>
    rw [hl] at h
    cases h
    rfl

end PL0.Declarations
