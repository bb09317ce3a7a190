/-
The command line: the command run on the system itself. Programs cannot be started from here, so running
a result with an interpreter is refused.
-/
import PL0.Command.Run

namespace PL0

/-- The fault of a system's error. -/
def FileFault.ofError : IO.Error → FileFault
  | .noFileOrDirectory .. => .missing
  | .inappropriateType _ 20 _ => .notFolder
  | .inappropriateType _ 21 _ => .isFolder
  | .invalidArgument _ 36 _ | .resourceExhausted _ 36 _ => .nameTooLong
  | e => .other (toString e)

namespace Command

/-- The system itself. -/
instance : Host IO where
  isThere path := do
    try
      discard (IO.FS.realPath path)
      return true
    catch _ => return false
  load path := do
    try
      match String.fromUTF8? (← IO.FS.readBinFile path) with
      | some text => return .ok text
      | none => return .error .notText
    catch e => return .error (.ofError e)
  save path text := do
    try
      IO.FS.writeFile path text
      return .ok ()
    catch e => return .error (.ofError e)
  interpret _ := return .error (.other "no programs can be started")
  tell text := do (← IO.getStdout).putStr text
  clock := IO.monoMsNow

end Command

end PL0

/-- Runs the command with the given arguments. -/
def main (args : List String) : IO UInt32 := do
  let ending ← PL0.Command.run (.ofArguments args)
  (← IO.getStderr).putStr ending.complaint
  return ending.code.toUInt32
