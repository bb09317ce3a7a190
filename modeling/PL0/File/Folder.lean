/-
A folder of files, as a command sees it that is run in it. Files and folders below it are known by the names
on the way to them; of what lies outside only the folders of every system and the null device are known.
A path is walked name by name, and the first name that cannot be walked decides the fault. Main statement:
`find?_put_self` and `find?_put_other`, what is found after a file was put.
-/
import PL0.File.Path

namespace PL0

/-- Why a file cannot be read or written. -/
inductive FileFault where
  | missing | notFolder | isFolder | nameTooLong | nulInName | notText
  | other (message : String)
deriving DecidableEq, Repr

/-- A file fault in words. -/
def FileFault.message : FileFault → String
  | missing => "No such file or directory (os error 2)"
  | notFolder => "Not a directory (os error 20)"
  | isFolder => "Is a directory (os error 21)"
  | nameTooLong => "File name too long (os error 36)"
  | nulInName => "file name contained an unexpected NUL byte"
  | notText => "stream did not contain valid UTF-8"
  | other message => message

/-- What stands under a name. -/
inductive Entry where
  | file (bytes : ByteArray)
  | folder

instance : DecidableEq Entry
  | .file a, .file b => decidable_of_iff (a.data = b.data)
    ⟨fun h => congrArg Entry.file (ByteArray.ext h), fun h => congrArg ByteArray.data (Entry.file.inj h)⟩
  | .folder, .folder => .isTrue rfl
  | .file _, .folder => .isFalse nofun
  | .folder, .file _ => .isFalse nofun

/-- The files and folders below a folder, each with the names on the way to it. -/
structure Folder where
  entries : List (List String × Entry)

/-- Where a path leads: below the folder, or outside it. -/
inductive Spot where
  | inside (names : List String)
  | outside (names : List String)
deriving DecidableEq, Repr

/-- The longest name in bytes, and the longest path. -/
def maxNameBytes : Nat := 255

/-- The bytes that a path must stay below. -/
def maxPathBytes : Nat := 4096

/-- The folders that are known outside. -/
def outsideFolders : List (List String) := [[], ["dev"], ["tmp"]]

/-- The device that holds nothing and keeps nothing. -/
def nullDevice : List String := ["dev", "null"]

namespace Folder

/-- What stands below the folder under a way of names. -/
def find? (f : Folder) (names : List String) : Option Entry := f.entries.lookup names

/-- Puts a file under a way of names, in the place of an older one. -/
def putEntry (names : List String) (bytes : ByteArray) :
    List (List String × Entry) → List (List String × Entry)
  | [] => [(names, .file bytes)]
  | e :: es => if e.1 = names then (names, .file bytes) :: es else e :: putEntry names bytes es

/-- Puts a file below the folder. -/
def put (f : Folder) (names : List String) (bytes : ByteArray) : Folder :=
  ⟨putEntry names bytes f.entries⟩

/-- What stands at a spot. -/
def entryAt? (f : Folder) : Spot → Option Entry
  | .inside [] => some .folder
  | .inside names => f.find? names
  | .outside names =>
    if names ∈ outsideFolders then some .folder
    else if names = nullDevice then some (.file .empty)
    else none

/-- The spot of a name in a folder, whether anything stands there or not. -/
def below : Spot → String → Spot
  | .inside names, name => .inside (names ++ [name])
  | .outside names, name => .outside (names ++ [name])

/-- The folder that holds a spot. -/
def above : Spot → Spot
  | .inside [] => .outside []
  | .inside names => .inside names.dropLast
  | .outside names => .outside names.dropLast

/-- Walks one name further. -/
def step (f : Folder) (s : Spot) (name : String) : Except FileFault Spot :=
  match f.entryAt? s with
  | some .folder =>
    if name = ".." then .ok (above s)
    else if maxNameBytes < name.utf8ByteSize then .error .nameTooLong
    else if (f.entryAt? (below s name)).isSome then .ok (below s name)
    else .error .missing
  | some (.file _) => .error .notFolder
  | none => .error .missing

/-- Where walking a path starts. -/
def origin (path : String) : Spot := if Path.isAbsolute path then .outside [] else .inside []

/-- What no path may be, wherever it leads. -/
def checkPath (path : String) : Except FileFault Unit :=
  if '\x00' ∈ path.toList then .error .nulInName
  else if path = "" then .error .missing
  else if maxPathBytes ≤ path.utf8ByteSize then .error .nameTooLong
  else .ok ()

/-- Walks a path. A slash or a dot at its end asks for a folder. -/
def walk (f : Folder) (path : String) : Except FileFault Spot := do
  checkPath path
  let spot ← (Path.steps path).foldlM f.step (origin path)
  match f.entryAt? spot, (Path.parts path).getLast? with
  | some (.file _), some "" | some (.file _), some "." => .error .notFolder
  | _, _ => .ok spot

/-- Whether anything stands at a path. -/
def isThere (f : Folder) (path : String) : Bool :=
  match f.walk path with
  | .ok _ => true
  | .error _ => false

/-- The text of the file at a path. -/
def load (f : Folder) (path : String) : Except FileFault String := do
  let spot ← f.walk path
  match f.entryAt? spot with
  | some (.file bytes) =>
    match String.fromUTF8? bytes with
    | some text => .ok text
    | none => .error .notText
  | some .folder => .error .isFolder
  | none => .error .missing

/-- The spot that a path to be written leads to, if it can hold a file. -/
def target (f : Folder) (path : String) : Except FileFault Spot := do
  checkPath path
  match ((Path.parts path).filter (· ≠ "")).getLast? with
  | none => .error .isFolder
  | some "." | some ".." => do
    let spot ← (Path.steps path).foldlM f.step (origin path)
    match f.entryAt? spot with
    | some .folder => .error .isFolder
    | _ => .error .notFolder
  | some name => do
    let spot ← (Path.steps path).dropLast.foldlM f.step (origin path)
    match f.entryAt? spot with
    | some .folder =>
      if Path.endsInSlash path then .error .isFolder
      else if maxNameBytes < name.utf8ByteSize then .error .nameTooLong
      else if f.entryAt? (below spot name) = some .folder then .error .isFolder
      else .ok (below spot name)
    | _ => .error .notFolder

/-- Writes a text to the file at a path. What lies outside is not kept. -/
def save (f : Folder) (path text : String) : Except FileFault Folder := do
  match ← f.target path with
  | .inside names => .ok (f.put names text.toUTF8)
  | .outside _ => .ok f

theorem find?_put_self (f : Folder) (names : List String) (bytes : ByteArray) :
    (f.put names bytes).find? names = some (.file bytes) := by
  simp only [find?, put]
  induction f.entries with
  | nil => simp [putEntry]
  | cons e es ih =>
    obtain ⟨key, entry⟩ := e
    by_cases he : key = names
    · simp [putEntry, he]
    · have he' : (names == key) = false := by simpa using fun h => he h.symm
      simp [putEntry, he, List.lookup_cons, he', ih]

theorem find?_put_other (f : Folder) {names names' : List String} (hne : names' ≠ names)
    (bytes : ByteArray) : (f.put names bytes).find? names' = f.find? names' := by
  have hne' : (names' == names) = false := by simpa using hne
  simp only [find?, put]
  induction f.entries with
  | nil => simp [putEntry, List.lookup_cons, hne']
  | cons e es ih =>
    obtain ⟨key, entry⟩ := e
    by_cases he : key = names
    · simp [putEntry, he, List.lookup_cons, hne']
    · simp [putEntry, he, List.lookup_cons, ih]

end Folder

end PL0
