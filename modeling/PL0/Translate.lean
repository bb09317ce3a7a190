/-
Translation of a text of PL/0 into a text of JavaScript: scan, parse and emit.
-/
import PL0.Cursor
import PL0.JavaScript.Emitter
import PL0.Scan

namespace PL0

/-- The program of a text. -/
def readSource (source : String) : Except Fault Program := do
  let tokens ← scan source
  parseProgram tokens

/-- The text in JavaScript of a text of PL/0. -/
def translate (config : JavaScript.Config) (source : String) : Except Fault String := do
  let program ← readSource source
  JavaScript.emit config program

/-- The release of this translator. -/
def version : String := "0.1.0"

end PL0
