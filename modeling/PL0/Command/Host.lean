/-
What the command needs of the system it runs on: files, an interpreter of JavaScript, a place to print to
and a clock. `World` is a system held as a value, with a folder of files and a transcript of what was
printed.
-/
import PL0.Fault
import PL0.File.Folder

namespace PL0.Command

/-- A system on which the command can run. -/
class Host (m : Type → Type) where
  /-- Whether anything stands at a path. -/
  isThere (path : String) : m Bool
  /-- The text of the file at a path. -/
  load (path : String) : m (Except FileFault String)
  /-- Writes a text to the file at a path. -/
  save (path text : String) : m (Except FileFault Unit)
  /-- Runs the JavaScript of the file at a path; gives the code it ends with. -/
  interpret (path : String) : m (Except FileFault Nat)
  /-- Prints a text. -/
  tell (text : String) : m Unit
  /-- The time in thousandths of a second. -/
  clock : m Nat

/-- A system held as a value. An interpreter, if there is one, prints a text and ends with a code. -/
structure World where
  folder : Folder
  interpreter : Option (String → String × Nat)
  transcript : String

/-- What is done to a world. -/
abbrev WorldM := StateM World

namespace World

/-- Prints a text. -/
def tell (w : World) (text : String) : World := { w with transcript := w.transcript ++ text }

end World

/-- In a world no time passes. -/
instance : Host WorldM where
  isThere path := fun w => (w.folder.isThere path, w)
  load path := fun w => (w.folder.load path, w)
  save path text := fun w =>
    match w.folder.save path text with
    | .ok folder => (.ok (), { w with folder })
    | .error fault => (.error fault, w)
  interpret path := fun w =>
    match w.interpreter with
    | some run => (.ok (run path).2, w.tell (run path).1)
    | none => (.error .missing, w)
  tell text := fun w => ((), w.tell text)
  clock := fun w => (0, w)

/-- The name that a program's file ends in. -/
def sourceExtension : String := "pl0"

/-- The text of a program's file. The file's name has to say that it is one. -/
def loadSource {m : Type → Type} [Monad m] [Host m] (path : String) : ExceptT Fault m String := do
  if Path.extension? path = some sourceExtension then
    match ← ExceptT.lift (Host.load path) with
    | .ok text => return text
    | .error fault => throw (.system fault.message)
  else throw .wrongExtension

end PL0.Command
