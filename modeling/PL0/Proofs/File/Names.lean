/-
Names of files. A name is its stem alone, or its stem, a dot and an extension in which there is no dot; which of the
two is told by the dots behind its first character. A new extension takes the place of the old one, so that two names
become one where they have one stem. Main statements: `Path.replaceExtension_eq_append_iff` and
`Path.replaceExtension_eq_iff`; and `Folder.load_of_written_twice`, by which what is written under one name stays as it
is when another name is written.
-/
import Mathlib.Data.List.TakeWhile
import PL0.Proofs.File.Writing

namespace PL0

namespace Path

/-! ## Paths of one name -/

theorem notMem_of_mem_split {c : Char} {part ds : List Char} (h : part ∈ split c ds) : c ∉ part := by
  induction ds generalizing part with
  | nil => simp_all [split]
  | cons d ds ih =>
    obtain ⟨first, others, hs⟩ := exists_split c ds
    rw [hs] at ih
    rw [split, hs] at h
    split at h
    · rcases List.mem_cons.1 h with rfl | h
      · exact List.not_mem_nil
      · exact ih h
    · rename_i hd
      rcases List.mem_cons.1 h with rfl | h
      · exact List.not_mem_cons_of_ne_of_not_mem (Ne.symm hd) (ih List.mem_cons_self)
      · exact ih (List.mem_cons_of_mem _ h)

theorem split_of_notMem {c : Char} {ds : List Char} (h : c ∉ ds) : split c ds = [ds] := by
  induction ds with
  | nil => rfl
  | cons d ds ih =>
    rw [List.mem_cons, not_or] at h
    rw [split, ih h.2, if_neg (Ne.symm h.1)]

/-- What can stand between two slashes of a path. -/
structure IsPart (name : String) : Prop where
  ne_empty : name ≠ ""
  slash_notMem : '/' ∉ name.toList

variable {path name extension : String}

theorem IsPart.parts_eq (h : IsPart name) : parts name = [name] := by
  rw [parts, split_of_notMem h.slash_notMem, List.map_singleton, String.ofList_toList]

theorem IsPart.steps_eq (h : IsPart name) (hdot : name ≠ ".") : steps name = [name] := by
  rw [steps, h.parts_eq]
  simp [h.ne_empty, hdot]

/-- A part of a path is a name unless it is made of one dot or of two. -/
theorem IsPart.fileName?_eq (h : IsPart name) :
    fileName? name = if name = "." ∨ name = ".." then none else some name := by
  rw [fileName?, steps, h.parts_eq]
  by_cases hdot : name = "."
  · simp [hdot]
  · by_cases hdots : name = ".." <;> simp [h.ne_empty, hdot, hdots]

theorem isPart_of_fileName? (h : fileName? path = some name) : IsPart name ∧ name ≠ "." ∧ name ≠ ".." := by
  rw [fileName?] at h
  split at h
  · rename_i last hlast
    obtain ⟨hup, hname⟩ := Option.ite_none_left_eq_some.1 h
    obtain rfl := Option.some.inj hname
    obtain ⟨hm, hstep⟩ := List.mem_filter.1 (List.mem_of_getLast? hlast)
    simp only [ne_eq, decide_not, Bool.and_eq_true, Bool.not_eq_true', decide_eq_false_iff_not] at hstep
    obtain ⟨part, hpart, rfl⟩ := List.mem_map.1 hm
    exact ⟨⟨hstep.1, by simpa using notMem_of_mem_split hpart⟩, hstep.2, hup⟩
  · cases h

/-! ## Stems and extensions -/

theorem notMem_of_splitAtLastDot {name : List Char} (h : splitAtLastDot name = none) : '.' ∉ name := by
  intro hm
  rw [splitAtLastDot] at h
  split at h
  · rename_i hdrop
    have hall := List.dropWhile_eq_nil_iff.1 hdrop '.' (List.mem_reverse.2 hm)
    simp at hall
  · cases h

/-- How a name falls apart: there is a dot behind its first character, or it is its stem. -/
theorem stemAndExtension_cases (name : String) :
    (stemAndExtension name = (name, none) ∧ '.' ∉ name.toList.tail) ∨
      ∃ stem extension, stemAndExtension name = (stem, some extension) ∧ name = stem ++ "." ++ extension ∧
        stem ≠ "" ∧ '.' ∉ extension.toList := by
  rw [stemAndExtension]
  cases hs : splitAtLastDot name.toList with
  | none =>
    exact .inl ⟨rfl, fun hm => notMem_of_splitAtLastDot hs (List.mem_of_mem_tail hm)⟩
  | some parts =>
    obtain ⟨stem, extension⟩ := parts
    obtain ⟨hname, hdot⟩ := splitAtLastDot_append hs
    cases stem with
    | nil =>
      refine .inl ⟨rfl, ?_⟩
      rw [← hname]
      exact hdot
    | cons c cs =>
      refine .inr ⟨String.ofList (c :: cs), String.ofList extension, rfl, ?_, by simp, by simpa using hdot⟩
      apply String.toList_injective
      simp [← hname]

/-- A name is its own stem where no dot is behind its first character. -/
theorem stemAndExtension_fst_eq_iff : (stemAndExtension name).1 = name ↔ '.' ∉ name.toList.tail := by
  rcases stemAndExtension_cases name with ⟨hs, hdot⟩ | ⟨stem, extension, hs, rfl, hne, -⟩
  · rw [hs]
    exact ⟨fun _ => hdot, fun _ => rfl⟩
  · rw [hs]
    cases hcs : stem.toList with
    | nil => exact absurd (String.toList_eq_nil_iff.1 hcs) hne
    | cons c cs =>
      constructor
      · intro he
        have hlen := congrArg (List.length ∘ String.toList) he
        simp at hlen
      · intro hno
        exact absurd (by simp [hcs]) hno

theorem isPart_stem (h : IsPart name) : IsPart (stemAndExtension name).1 := by
  rcases stemAndExtension_cases name with ⟨hs, -⟩ | ⟨stem, extension, hs, rfl, hne, -⟩
  · rwa [hs]
  · rw [hs]
    exact ⟨hne, fun hm => h.slash_notMem (by simp [hm])⟩

/-- The name of a path with an extension is its stem, a dot and the extension. -/
theorem exists_stem_of_extension? (h : extension? path = some extension) :
    ∃ stem, IsPart stem ∧ fileName? path = some (stem ++ "." ++ extension) ∧ stem? path = some stem := by
  obtain ⟨name, hname, hext⟩ := Option.bind_eq_some_iff.1 h
  have hstem := isPart_stem (isPart_of_fileName? hname).1
  rcases stemAndExtension_cases name with ⟨hs, -⟩ | ⟨stem, extension', hs, rfl, -, -⟩
  · rw [hs] at hext
    cases hext
  · rw [hs] at hext hstem
    obtain rfl := Option.some.inj hext
    exact ⟨stem, hstem, hname, by rw [stem?, hname, Option.map_some, hs]⟩

/-! ## Other extensions -/

variable {name' : String}

/-- A part of a path with another extension: it stays as it is if it is no name, and otherwise its stem goes on with
the extension. -/
theorem IsPart.replaceExtension_cases (h : IsPart name) (extension : String) :
    (stem? name = none ∧ replaceExtension name extension = name ∧ (name = "." ∨ name = "..")) ∨
      (name ≠ "." ∧ ∃ stem, stem? name = some stem ∧ replaceExtension name extension = stem ++ "." ++ extension ∧
        IsPart stem ∧ (stem = name ↔ '.' ∉ name.toList.tail)) := by
  rw [replaceExtension, stem?, h.fileName?_eq]
  by_cases hdots : name = "." ∨ name = ".."
  · rw [if_pos hdots]
    exact .inl ⟨rfl, rfl, hdots⟩
  · rw [if_neg hdots]
    exact .inr ⟨fun he => hdots (.inl he), _, rfl, rfl, isPart_stem h, stemAndExtension_fst_eq_iff⟩

theorem isPart_replaceExtension (h : IsPart name) (hext : '/' ∉ extension.toList) :
    IsPart (replaceExtension name extension) := by
  rcases h.replaceExtension_cases extension with ⟨-, hr, -⟩ | ⟨-, stem, -, hr, hstem, -⟩
  · rwa [hr]
  · rw [hr]
    exact ⟨by simp, by simp [hstem.slash_notMem, hext]⟩

theorem length_append_dot (stem extension : String) :
    (stem ++ "." ++ extension).length = stem.length + 1 + extension.length := by
  rw [String.length_append, String.length_append]
  rfl

/-- A part of a path goes on with the new extension where no dot is behind its first character, unless it is a dot. -/
theorem IsPart.replaceExtension_eq_append_iff (h : IsPart name) :
    replaceExtension name extension = name ++ "." ++ extension ↔ name ≠ "." ∧ '.' ∉ name.toList.tail := by
  rcases h.replaceExtension_cases extension with ⟨-, hr, hdots⟩ | ⟨hdot, stem, -, hr, -, hstem⟩
  · have hne : name ≠ name ++ "." ++ extension := fun he => by
      have hlen := congrArg String.length he
      rw [length_append_dot] at hlen
      omega
    rw [hr]
    rcases hdots with rfl | rfl
    · exact iff_of_false hne (by decide)
    · exact iff_of_false hne (by decide)
  · rw [hr, String.append_left_inj, String.append_left_inj, hstem]
    exact ⟨fun hno => ⟨hdot, hno⟩, And.right⟩

/-- One dot and two dots are too short for a stem with an extension. -/
theorem dots_ne_append {dots stem : String} (hdots : dots = "." ∨ dots = "..") (hstem : stem ≠ "")
    (hext : extension ≠ "") : dots ≠ stem ++ "." ++ extension := by
  intro he
  have hlen := congrArg String.length he
  have hs := mt String.length_eq_zero_iff.1 hstem
  have hx := mt String.length_eq_zero_iff.1 hext
  have hd : dots.length ≤ 2 := by rcases hdots with rfl | rfl <;> decide
  rw [length_append_dot] at hlen
  omega

/-- Two parts of paths become one where they have one stem. -/
theorem IsPart.replaceExtension_eq_iff (h : IsPart name) (h' : IsPart name') (hext : extension ≠ "") :
    replaceExtension name extension = replaceExtension name' extension ↔
      name = name' ∨ ∃ stem, stem? name = some stem ∧ stem? name' = some stem := by
  have hapart : stem? name ≠ stem? name' → name ≠ name' := fun hne he => hne (congrArg stem? he)
  rcases h.replaceExtension_cases extension with ⟨hn, hr, hdots⟩ | ⟨-, stem, hn, hr, hstem, -⟩ <;>
    rcases h'.replaceExtension_cases extension with ⟨hn', hr', hdots'⟩ | ⟨-, stem', hn', hr', hstem', -⟩ <;>
    rw [hr, hr', hn, hn']
  · simp
  · simp [dots_ne_append hdots hstem'.ne_empty hext, hapart (by simp [hn, hn'])]
  · simp [(dots_ne_append hdots' hstem.ne_empty hext).symm, hapart (by simp [hn, hn'])]
  · rw [String.append_left_inj, String.append_left_inj]
    constructor
    · rintro rfl
      exact .inr ⟨stem, rfl, rfl⟩
    · rintro (rfl | ⟨t, ht, ht'⟩)
      · exact Option.some.inj (hn.symm.trans hn')
      · exact Option.some.inj (ht.trans ht'.symm)

end Path

/-! ## Files next to each other -/

namespace Folder

variable {f f' : Folder} {path path' : String}

theorem origin_of_isPart (hp : Path.IsPart path) : origin path = .inside [] := by
  refine if_neg fun habs => hp.slash_notMem (List.mem_of_head? ?_)
  simpa [Path.isAbsolute] using habs

/-- A path of one part that can be written leads to the file of this name. -/
theorem target_of_isPart (hp : Path.IsPart path) {spot : Spot} (h : f.target path = .ok spot) :
    spot = .inside [path] ∧ path ≠ "." ∧ path ≠ ".." := by
  obtain ⟨name, parent, hleads, rfl⟩ := exists_leads_of_target h
  have hlast := hleads.last
  rw [hp.parts_eq] at hlast
  obtain rfl : path = name := Option.some.inj hlast
  have hparent := hleads.walked
  rw [hp.steps_eq hleads.proper.2.1, origin_of_isPart hp] at hparent
  cases hparent
  exact ⟨rfl, hleads.proper.2⟩

/-- Walking a name takes one step. -/
theorem walk_of_isPart (hp : Path.IsPart path) (hdot : path ≠ ".") :
    f.walk path = (checkPath path).bind fun _ => f.step (.inside []) path := by
  simp only [walk, hp.steps_eq hdot, origin_of_isPart hp, hp.parts_eq, List.foldlM_cons, List.foldlM_nil,
    List.getLast?_singleton, bind_pure]
  cases checkPath path with
  | error fault => rfl
  | ok =>
    cases f.step (.inside []) path with
    | error fault => rfl
    | ok spot =>
      simp only [bind, Except.bind]
      split
      · rename_i hempty
        exact absurd (Option.some.inj hempty) hp.ne_empty
      · rename_i hd
        exact absurd (Option.some.inj hd) hdot
      · rfl

/-- The step to a name is told by what stands under it. -/
theorem step_of_ne (hdots : path ≠ "..") : f.step (.inside []) path =
    if maxNameBytes < path.utf8ByteSize then .error .nameTooLong
    else if (f.find? [path]).isSome then .ok (.inside [path]) else .error .missing := by
  rw [step]
  exact if_neg hdots

theorem eq_inside_of_walk (hp : Path.IsPart path) (hdots : path ≠ "." ∧ path ≠ "..") {spot : Spot}
    (h : f.walk path = .ok spot) : spot = .inside [path] := by
  rw [walk_of_isPart hp hdots.1, step_of_ne hdots.2] at h
  cases hc : checkPath path with
  | error fault => rw [hc] at h; cases h
  | ok =>
    rw [hc] at h
    obtain ⟨-, h⟩ := ite_error_eq_ok_iff.1 h
    split at h <;> cases h
    rfl

/-- What is loaded under a name is told by what stands under it. -/
theorem load_congr (hp : Path.IsPart path) (hdots : path ≠ "." ∧ path ≠ "..")
    (h : f.find? [path] = f'.find? [path]) : f.load path = f'.load path := by
  have hentry : f.entryAt? (.inside [path]) = f'.entryAt? (.inside [path]) := h
  have hwalk : f.walk path = f'.walk path := by
    rw [walk_of_isPart hp hdots.1, walk_of_isPart hp hdots.1, step_of_ne hdots.2, step_of_ne hdots.2, h]
  rw [load, load, hwalk]
  cases hs : f'.walk path with
  | error fault => rfl
  | ok spot =>
    obtain rfl := eq_inside_of_walk hp hdots hs
    simp only [bind, Except.bind, hentry]

/-- What is written under a name is found there after another name is written, and is replaced where the same is. -/
theorem load_of_written_twice {text text' : String} {f₁ f₂ : Folder} (hp : Path.IsPart path)
    (hp' : Path.IsPart path') (h : f.Written path text f₁) (h' : f₁.Written path' text' f₂) :
    f₂.load path = .ok (if path = path' then text' else text) := by
  cases h with
  | outside leads => cases (target_of_isPart hp leads).1
  | inside leads loads found =>
    cases h' with
    | outside leads' => cases (target_of_isPart hp' leads').1
    | inside leads' loads' found' =>
      by_cases he : path = path'
      · rw [if_pos he, he, loads']
      · obtain ⟨hnames, -⟩ := target_of_isPart hp' leads'
        obtain rfl := Spot.inside.inj hnames
        rw [if_neg he, ← loads]
        refine load_congr hp (target_of_isPart hp leads).2 ?_
        rw [found', if_neg (by simpa using he)]

end Folder

end PL0
