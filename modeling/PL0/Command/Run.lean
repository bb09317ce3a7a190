/-
The run of the command: a program's file is read, scanned, parsed and written as JavaScript, and on request
each phase is reported and the result is run. Only the result's file is ever written, and only once the
whole text is there.
-/
import PL0.Command.Host
import PL0.Command.Options
import PL0.Outline
import PL0.Translate

namespace PL0.Command

open Text (padLeft thousandths)

/-- The name that the command prints. -/
def commandName : String := "pl0js"

/-- How long the phases took, in thousandths of a second. -/
structure Times where
  scan : Nat
  parse : Nat
  emit : Nat
  run : Nat
  total : Nat

/-- How large a program is. -/
structure Sizes where
  tokens : Nat
  nodes : Nat
  lines : Nat

/-- A program's translation with its times and sizes. -/
structure Translation where
  code : String
  times : Times
  sizes : Sizes

/-- How the command ends: its code, and what it complains of. -/
structure Ending where
  code : Nat
  complaint : String
deriving DecidableEq, Repr

/-- All went well. -/
def Ending.success : Ending := ⟨0, ""⟩

/-- Something went wrong. -/
def Ending.failure (complaint : String) : Ending := ⟨1, "Error: " ++ complaint ++ "\n"⟩

/-- The path of the result: the one asked for, or the input's stem with the extension of JavaScript in place
of any extension that the stem has. -/
def Options.outputPath (o : Options) : String :=
  match o.output with
  | some path => path
  | none => Path.replaceExtension ((Path.stem? o.path).getD "") "js"

/-- How JavaScript is to be written. -/
def Options.config (o : Options) : JavaScript.Config :=
  { JavaScript.Config.standard with indentWidth := o.indent, truncateDivision := o.on .truncDiv }

/-! ## Reports -/

/-- The listing of tokens. -/
def listing (tokens : List Token) : String :=
  "\nTokens:\n" ++
    String.join (tokens.map fun t => "  " ++ padLeft 4 ' ' (toString t.line) ++ ": " ++ t.display ++ "\n")

/-- A row of the table of times. -/
def timeRow (phase : String) (time : Nat) : String :=
  "| " ++ phase ++ " | " ++ padLeft 9 ' ' (thousandths time) ++ " |\n"

/-- The tables of times and sizes. -/
def statistics (t : Translation) : String :=
  let rule := "+---------------------+-----------+\n"
  "\nCompilation Statistics:\n" ++ rule ++ "| Phase               | Time (s)  |\n" ++ rule ++
    timeRow "Lexical Analysis   " t.times.scan ++ timeRow "Parsing            " t.times.parse ++
    timeRow "Code Emission      " t.times.emit ++ timeRow "Execution          " t.times.run ++ rule ++
    timeRow "Total Time         " t.times.total ++ rule ++
    "\nCode Metrics:\n" ++
    "  - Tokens:             " ++ toString t.sizes.tokens ++ "\n" ++
    "  - AST Nodes:          " ++ toString t.sizes.nodes ++ "\n" ++
    "  - JavaScript Lines:   " ++ toString t.sizes.lines ++ "\n"

/-- The report of a phase: how long it took and what it made. -/
def phaseReport (phase : String) (time : Nat) (made : String) : String :=
  phase ++ " completed in " ++ thousandths time ++ "s\n  " ++ made ++ "\n"

/-! ## Phases -/

section

variable {m : Type → Type} [Monad m] [Host m]

/-- Prints a text if a condition holds. -/
def tellIf (b : Bool) (text : String) : ExceptT Fault m Unit := do
  if b then ExceptT.lift (Host.tell text)

/-- Goes on with a result, or fails with its fault. -/
def orFail {α : Type} (r : Except Fault α) : ExceptT Fault m α :=
  match r with
  | .ok a => pure a
  | .error fault => throw fault

/-- The time now. -/
def now : ExceptT Fault m Nat := ExceptT.lift Host.clock

/-- Reads a program's file and translates it, with the reports that are asked for. -/
def translateFile (o : Options) : ExceptT Fault m Translation := do
  let start ← now
  tellIf (o.on .verbose) (commandName ++ " " ++ version ++ ": starting translation of " ++ o.path ++ "\n")
  unless ← ExceptT.lift (Host.isThere o.path) do throw (.noInput o.path)
  let source ← loadSource o.path
  tellIf (o.on .verbose) ("Read " ++ toString source.utf8ByteSize ++ " bytes from input file\n")
  let scanStart ← now
  let tokens ← orFail (scan source)
  let scanTime := (← now) - scanStart
  tellIf (o.on .verbose)
    (phaseReport "Lexical analysis" scanTime ("Generated " ++ toString tokens.length ++ " tokens"))
  tellIf (o.on .printTokens) (listing tokens)
  let parseStart ← now
  let program ← orFail (parseProgram tokens)
  let parseTime := (← now) - parseStart
  tellIf (o.on .verbose)
    (phaseReport "Parsing" parseTime ("Built " ++ toString program.nodeCount ++ " AST nodes"))
  tellIf (o.on .showAst) ("\nAbstract Syntax Tree:\n" ++ program.outline)
  let emitStart ← now
  let code ← orFail (JavaScript.emit o.config program)
  let emitTime := (← now) - emitStart
  let sizes := ⟨tokens.length, program.nodeCount, Text.lineCount code⟩
  tellIf (o.on .verbose)
    (phaseReport "Code emission" emitTime ("Generated " ++ toString sizes.lines ++ " lines of JavaScript"))
  tellIf (o.on .printJs) ("\nGenerated JavaScript:\n" ++ code ++ "\n")
  let total := (← now) - start
  tellIf (o.on .verbose) ("Translation completed in " ++ thousandths total ++ "s\n")
  return ⟨code, ⟨scanTime, parseTime, emitTime, 0, total⟩, sizes⟩

/-- Runs a written result; gives how long that took. -/
def execute (o : Options) : ExceptT Fault m Nat := do
  let start ← now
  tellIf (o.on .verbose) ("Running " ++ o.outputPath ++ " with node\n")
  match ← ExceptT.lift (Host.interpret o.outputPath) with
  | .error fault => throw (.notStarted fault.message)
  | .ok 0 => return (← now) - start
  | .ok code => throw (.exited code)

/-- Reports on a result that is written and, if it was asked for, was run. -/
def finish (o : Options) (t : Translation) : m Ending := do
  if o.on .timing then Host.tell (statistics t)
  if o.on .verbose then Host.tell "Translation successful!\n"
  return .success

/-- Writes a result, and runs it if that is asked for. -/
def deliver (o : Options) (t : Translation) : m Ending := do
  match ← Host.save o.outputPath t.code with
  | .error fault =>
    return .failure ("Failed to write output file '" ++ o.outputPath ++ "': " ++ fault.message)
  | .ok () => do
    if o.on .verbose then Host.tell ("JavaScript written to: " ++ o.outputPath ++ "\n")
    if o.on .run then
      match ← (execute o).run with
      | .error fault => return .failure ("Execution failed: " ++ fault.message)
      | .ok time =>
        finish o { t with times := { t.times with run := time, total := t.times.total + time } }
    else finish o t

/-- Translates a file. -/
def perform (o : Options) : m Ending := do
  match ← (translateFile o).run with
  | .error fault => return .failure ("Translation failed: " ++ fault.message)
  | .ok t => deliver o t

/-- What the command does for a request. -/
def run : Request → m Ending
  | .translate o => perform o
  | .help => do
    Host.tell usage
    return .success
  | .version => do
    Host.tell (commandName ++ " " ++ version ++ "\n")
    return .success
  | .misuse => return ⟨2, usage⟩

end

end PL0.Command
