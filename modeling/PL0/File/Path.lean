/-
Paths: names joined by slashes. The name of a path is its last part that is neither empty nor a single dot;
two dots are no name. An extension is what follows the last dot of a name, unless that dot begins it. Main
statement: `splitAtLastDot_append`, a name is its stem, the dot and its extension.
-/

namespace PL0.Path

/-- The parts of a text between the characters `c`. -/
def split (c : Char) : List Char → List (List Char)
  | [] => [[]]
  | d :: ds =>
    if d = c then [] :: split c ds
    else
      match split c ds with
      | [] => [[d]]
      | part :: parts => (d :: part) :: parts

/-- The parts of a path, also the empty ones. -/
def parts (path : String) : List String := (split '/' path.toList).map String.ofList

/-- Whether the path starts at the root. -/
def isAbsolute (path : String) : Bool := path.toList.head? = some '/'

/-- Whether a slash ends the path, so that it can only name a folder. -/
def endsInSlash (path : String) : Bool := path.toList.getLast? = some '/'

/-- The parts of a path that lead somewhere. -/
def steps (path : String) : List String := (parts path).filter fun p => p ≠ "" && p ≠ "."

/-- The name of what a path leads to. -/
def fileName? (path : String) : Option String :=
  match (steps path).getLast? with
  | some name => if name = ".." then none else some name
  | none => none

/-- The characters before and after the last dot. -/
def splitAtLastDot (name : List Char) : Option (List Char × List Char) :=
  match name.reverse.dropWhile (· ≠ '.') with
  | [] => none
  | _ :: before => some (before.reverse, (name.reverse.takeWhile (· ≠ '.')).reverse)

/-- The stem of a name and its extension. -/
def stemAndExtension (name : String) : String × Option String :=
  match splitAtLastDot name.toList with
  | none | some ([], _) => (name, none)
  | some (stem, extension) => (String.ofList stem, some (String.ofList extension))

/-- The extension of a path's name. -/
def extension? (path : String) : Option String :=
  (fileName? path).bind fun name => (stemAndExtension name).2

/-- The stem of a path's name. -/
def stem? (path : String) : Option String := (fileName? path).map fun name => (stemAndExtension name).1

/-- A name with its extension replaced. What has no name is kept as it is. -/
def replaceExtension (name extension : String) : String :=
  match stem? name with
  | some stem => stem ++ "." ++ extension
  | none => name

theorem splitAtLastDot_append {name stem extension : List Char}
    (h : splitAtLastDot name = some (stem, extension)) :
    stem ++ '.' :: extension = name ∧ '.' ∉ extension := by
  unfold splitAtLastDot at h
  split at h
  · simp at h
  · rename_i dot before hd
    simp only [Option.some.injEq, Prod.mk.injEq] at h
    obtain ⟨rfl, rfl⟩ := h
    have hdot : dot = '.' := by
      have := List.head?_dropWhile_not (· ≠ '.') name.reverse
      rw [hd] at this
      simpa using this
    constructor
    · have := List.takeWhile_append_dropWhile (p := (· ≠ '.')) (l := name.reverse)
      rw [hd, hdot] at this
      have := congrArg List.reverse this
      simpa using this
    · intro hm
      have := List.all_eq_true.1 (List.all_takeWhile (l := name.reverse) (p := (· ≠ '.'))) '.'
        (by simpa using hm)
      simp at this

end PL0.Path
