/-
What is written to a path is found there. Writing puts one file below a folder, and only where no folder stands, so
every walk that succeeded before still succeeds and ends where it did; the walk of the path itself now ends at the new
file. Main statement: `Folder.written_of_save`.
-/
import PL0.File.Folder

namespace PL0

/-! ## The last name of a path -/

namespace Path

theorem exists_split (c : Char) (ds : List Char) : ∃ part parts, split c ds = part :: parts := by
  cases ds with
  | nil => exact ⟨_, _, rfl⟩
  | cons d ds =>
    rw [split]
    split
    · exact ⟨_, _, rfl⟩
    · split <;> exact ⟨_, _, rfl⟩

/-- The last part of a text is empty only where the text is, or where the character between parts ends it. -/
theorem getLast?_split (c : Char) (ds : List Char) (h : (split c ds).getLast? = some []) :
    ds = [] ∨ ds.getLast? = some c := by
  induction ds with
  | nil => exact .inl rfl
  | cons d ds ih =>
    right
    obtain ⟨part, parts, hs⟩ := exists_split c ds
    rw [split, hs] at h
    rw [hs] at ih
    split at h
    · rename_i hd
      rw [List.getLast?_cons_cons] at h
      rcases ih h with rfl | hl
      · rw [hd]
        rfl
      · simp [List.getLast?_cons, hl]
    · cases parts with
      | nil => simp at h
      | cons part' parts =>
        simp only [List.getLast?_cons_cons] at h ih
        rcases ih h with rfl | hl
        · simp [split] at hs
        · simp [List.getLast?_cons, hl]

variable {path name : String}

/-- A path that no slash ends has its name as its last part. -/
theorem getLast?_parts (hne : path ≠ "") (hslash : endsInSlash path = false)
    (h : ((parts path).filter (· ≠ "")).getLast? = some name) : (parts path).getLast? = some name := by
  obtain ⟨part, others, hs⟩ := exists_split '/' path.toList
  obtain ⟨before, last, hp⟩ : ∃ before last, parts path = before ++ [last] := by
    have hparts : parts path ≠ [] := by simp [parts, hs]
    exact ⟨_, _, (List.dropLast_concat_getLast hparts).symm⟩
  have hlast : last ≠ "" := by
    rintro rfl
    have hempty : (split '/' path.toList).getLast? = some [] := by
      have := congrArg List.getLast? hp
      rw [parts, List.getLast?_map, List.getLast?_append] at this
      obtain ⟨cs, hcs, he⟩ := Option.map_eq_some_iff.1 (this.trans rfl : _ = some "")
      rw [hcs]
      simpa using he
    rcases getLast?_split '/' path.toList hempty with he | he
    · exact hne (by simpa using he)
    · simp [endsInSlash, he] at hslash
  rw [hp, List.filter_append] at h
  rw [hp]
  simpa [hlast] using h

/-- A name that is not a single dot is the last of the steps. -/
theorem steps_eq_dropLast_append (hdot : name ≠ ".") (h : ((parts path).filter (· ≠ "")).getLast? = some name) :
    steps path = (steps path).dropLast ++ [name] := by
  obtain ⟨before, hb⟩ := List.getLast?_eq_some_iff.1 h
  have hsteps : steps path = before.filter (· ≠ ".") ++ [name] := by
    have hfilter : steps path = ((parts path).filter (· ≠ "")).filter (· ≠ ".") := by
      rw [steps, List.filter_filter]
      congr 1
      funext p
      simp [Bool.and_comm]
    rw [hfilter, hb, List.filter_append]
    simp [hdot]
  rw [hsteps, List.dropLast_concat]

end Path

/-- A test that refuses is passed. -/
theorem ite_error_eq_ok_iff {ε α : Type} {p : Prop} [Decidable p] {e : ε} {r : Except ε α} {a : α} :
    (if p then .error e else r) = .ok a ↔ ¬p ∧ r = .ok a := by
  by_cases hp : p <;> simp [hp]

namespace Folder

variable {f : Folder} {names : List String} {bytes : ByteArray}

/-! ## What a new file changes -/

theorem entryAt?_put (hne : names ≠ []) (s : Spot) :
    (f.put names bytes).entryAt? s = if s = .inside names then some (.file bytes) else f.entryAt? s := by
  cases s with
  | outside ns => rfl
  | inside ns =>
    cases ns with
    | nil => rw [if_neg (by simpa using hne.symm)]; rfl
    | cons n ns =>
      by_cases h : n :: ns = names
      · subst h
        rw [if_pos rfl]
        exact find?_put_self f _ bytes
      · rw [if_neg (by simpa using h)]
        exact find?_put_other f h bytes

theorem isSome_entryAt?_put (hne : names ≠ []) {s : Spot} (h : (f.entryAt? s).isSome = true) :
    ((f.put names bytes).entryAt? s).isSome = true := by
  rw [entryAt?_put hne]
  split
  · rfl
  · exact h

theorem entryAt?_of_step {s t : Spot} {n : String} (h : f.step s n = .ok t) : f.entryAt? s = some .folder := by
  rw [step] at h
  split at h
  · assumption
  all_goals cases h

/-- A step that succeeds still succeeds when a file is put where no folder stands. -/
theorem step_put (hne : names ≠ []) (hfree : f.entryAt? (.inside names) ≠ some .folder) {s t : Spot} {n : String}
    (h : f.step s n = .ok t) : (f.put names bytes).step s n = .ok t := by
  have hs := entryAt?_of_step h
  have hput : (f.put names bytes).entryAt? s = some .folder := by
    rw [entryAt?_put hne, if_neg, hs]
    rintro rfl
    exact hfree hs
  simp only [step, hs] at h
  simp only [step, hput]
  by_cases hup : n = ".."
  · rwa [if_pos hup] at h ⊢
  rw [if_neg hup] at h ⊢
  obtain ⟨hfits, h⟩ := ite_error_eq_ok_iff.1 h
  rw [if_neg hfits]
  by_cases hthere : (f.entryAt? (below s n)).isSome = true
  · rw [if_pos hthere] at h
    rwa [if_pos (isSome_entryAt?_put hne hthere)]
  · rw [if_neg hthere] at h
    cases h

theorem foldlM_step_put (hne : names ≠ []) (hfree : f.entryAt? (.inside names) ≠ some .folder) {s t : Spot}
    {ns : List String} (h : ns.foldlM f.step s = .ok t) : ns.foldlM (f.put names bytes).step s = .ok t := by
  induction ns generalizing s with
  | nil => exact h
  | cons n ns ih =>
    rw [List.foldlM_cons] at h ⊢
    cases hstep : f.step s n with
    | error fault => rw [hstep] at h; cases h
    | ok s' =>
      rw [hstep] at h
      rw [step_put hne hfree hstep]
      exact ih h

/-! ## Where a path to be written leads -/

/-- A path leads to a name in a folder that exists, and no folder stands under the name. -/
structure Leads (f : Folder) (path name : String) (parent : Spot) : Prop where
  allowed : checkPath path = .ok ()
  walked : (Path.steps path).dropLast.foldlM f.step (origin path) = .ok parent
  folder : f.entryAt? parent = some .folder
  fits : ¬maxNameBytes < name.utf8ByteSize
  free : f.entryAt? (below parent name) ≠ some .folder
  steps_eq : Path.steps path = (Path.steps path).dropLast ++ [name]
  last : (Path.parts path).getLast? = some name
  proper : name ≠ "" ∧ name ≠ "." ∧ name ≠ ".."

variable {path name : String} {parent : Spot}

theorem ne_empty_of_checkPath (h : checkPath path = .ok ()) : path ≠ "" := by
  rintro rfl
  cases h

theorem exists_leads_of_target {spot : Spot} (h : f.target path = .ok spot) :
    ∃ name parent, Leads f path name parent ∧ spot = below parent name := by
  rw [target] at h
  cases hallowed : checkPath path with
  | error fault => rw [hallowed] at h; cases h
  | ok =>
    rw [hallowed] at h
    simp only [bind, Except.bind] at h
    split at h
    · cases h
    · split at h
      · cases h
      · split at h <;> cases h
    · split at h
      · cases h
      · split at h <;> cases h
    · rename_i name hdot hup hname
      cases hwalked : (Path.steps path).dropLast.foldlM f.step (origin path) with
      | error fault => rw [hwalked] at h; cases h
      | ok parent =>
        rw [hwalked] at h
        dsimp only at h
        split at h
        · rename_i hfolder
          simp only [ite_error_eq_ok_iff] at h
          obtain ⟨hslash, hfits, hfree, hspot⟩ := h
          have hlast := Path.getLast?_parts (ne_empty_of_checkPath hallowed) (by simpa using hslash) hname
          have hmem : name ∈ (Path.parts path).filter (· ≠ "") := by
            obtain ⟨before, hb⟩ := List.getLast?_eq_some_iff.1 hname
            exact hb ▸ List.mem_append_right _ List.mem_cons_self
          have hne : name ≠ "" := by simpa using (List.mem_filter.1 hmem).2
          exact ⟨name, parent, ⟨hallowed, hwalked, hfolder, hfits, hfree,
            Path.steps_eq_dropLast_append hdot hname, hlast, hne, hdot, hup⟩, (Except.ok.inj hspot).symm⟩
        · cases h

/-- After a file is put where a path leads, walking the path ends at it. -/
theorem walk_put (bytes : ByteArray) (h : Leads f path name parent) (hspot : below parent name = .inside names) :
    names ≠ [] ∧ (f.put names bytes).walk path = .ok (.inside names) := by
  have hne : names ≠ [] := by
    cases parent <;> cases hspot
    simp
  have hfree : f.entryAt? (.inside names) ≠ some .folder := hspot ▸ h.free
  have hparent : (f.put names bytes).entryAt? parent = some .folder := by
    rw [entryAt?_put hne, if_neg, h.folder]
    rintro rfl
    exact hfree h.folder
  have hstep : (f.put names bytes).step parent name = .ok (.inside names) := by
    simp only [step, hparent]
    rw [if_neg h.proper.2.2, if_neg h.fits, hspot, entryAt?_put hne, if_pos rfl]
    rfl
  have hwalk : (Path.steps path).foldlM (f.put names bytes).step (origin path) = .ok (.inside names) := by
    rw [h.steps_eq, List.foldlM_append, foldlM_step_put hne hfree h.walked]
    show (f.put names bytes).step parent name >>= pure = _
    rw [hstep]
    rfl
  refine ⟨hne, ?_⟩
  simp only [walk, h.allowed, hwalk, h.last, bind, Except.bind]
  split
  · rename_i hempty
    exact absurd (Option.some.inj hempty) h.proper.1
  · rename_i hdot
    exact absurd (Option.some.inj hdot) h.proper.2.1
  · rfl

theorem load_put {text : String} (h : Leads f path name parent) (hspot : below parent name = .inside names) :
    (f.put names text.toUTF8).load path = .ok text := by
  obtain ⟨hne, hwalk⟩ := walk_put text.toUTF8 h hspot
  have hvalid : String.fromUTF8? text.toUTF8 = some text := dif_pos text.isValidUTF8
  simp only [load, hwalk, bind, Except.bind]
  rw [entryAt?_put hne, if_pos rfl]
  simp only [hvalid]

/-! ## Writing -/

/-- What a folder becomes when a text is written to a path: the file that the path leads to holds the text, and nothing
else is different. What lies outside the folder is not kept. -/
inductive Written (f : Folder) (path text : String) : Folder → Prop
  | inside {names : List String} {f' : Folder} (leads : f.target path = .ok (.inside names))
      (loads : f'.load path = .ok text)
      (found : ∀ names', f'.find? names' = if names' = names then some (.file text.toUTF8) else f.find? names') :
      Written f path text f'
  | outside {names : List String} (leads : f.target path = .ok (.outside names)) : Written f path text f

theorem find?_put (f : Folder) (names names' : List String) (bytes : ByteArray) :
    (f.put names bytes).find? names' = if names' = names then some (.file bytes) else f.find? names' := by
  split
  · rename_i he
    rw [he, find?_put_self]
  · rename_i hne
    rw [find?_put_other f hne]

/-- **Writing.** A text that can be written is what is then loaded from the same path, and nothing else is different. -/
theorem written_of_save {text : String} {f' : Folder} (h : f.save path text = .ok f') : Written f path text f' := by
  rw [save] at h
  cases ht : f.target path with
  | error fault => rw [ht] at h; cases h
  | ok spot =>
    rw [ht] at h
    obtain ⟨name, parent, hleads, rfl⟩ := exists_leads_of_target ht
    cases hspot : below parent name with
    | inside names =>
      replace h : (.ok (f.put names text.toUTF8) : Except FileFault Folder) = .ok f' := by rwa [hspot] at h
      obtain rfl := Except.ok.inj h
      exact .inside (hspot ▸ ht) (load_put hleads hspot) fun names' => find?_put f names names' _
    | outside names =>
      replace h : (.ok f : Except FileFault Folder) = .ok f' := by rwa [hspot] at h
      obtain rfl := Except.ok.inj h
      exact .outside (hspot ▸ ht)

end Folder

end PL0
