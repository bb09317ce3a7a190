/-
The arguments of the command. They are read from the left: options may stand in any order around the one
path, short ones may be written together, a value follows its option in the same word or in the next, and
two dashes end the options. The first word that decides the matter does: a misuse, or a request for help
or for the release. Nothing may be given twice.
-/
import PL0.JavaScript.Code
import PL0.Text.Decimal

namespace PL0.Command

/-- What can be switched on. -/
inductive Switch where
  | printTokens | showAst | printJs | verbose | timing | truncDiv | run
deriving DecidableEq, Repr

/-- What takes a value. -/
inductive Setting where
  | output | indent
deriving DecidableEq, Repr

/-- What the name of an option stands for. -/
inductive Choice where
  | switch (s : Switch)
  | setting (s : Setting)
  | help
  | version
deriving DecidableEq, Repr

/-- The names that stand after two dashes. -/
def longNames : List (String × Choice) :=
  [("output", .setting .output), ("print-tokens", .switch .printTokens), ("show-ast", .switch .showAst),
   ("print-js", .switch .printJs), ("verbose", .switch .verbose), ("timing", .switch .timing),
   ("indent", .setting .indent), ("trunc-div", .switch .truncDiv), ("run", .switch .run),
   ("help", .help), ("version", .version)]

/-- The letters that stand after one dash. -/
def shortNames : List (Char × Choice) :=
  [('o', .setting .output), ('p', .switch .printJs), ('v', .switch .verbose), ('t', .switch .timing),
   ('r', .switch .run), ('h', .help), ('V', .version)]

/-- What the command is asked to translate, and how. -/
structure Options where
  path : String
  output : Option String
  indent : Nat
  on : Switch → Bool

/-- What the arguments ask for. -/
inductive Request where
  | translate (options : Options)
  | help
  | version
  | misuse

/-- What the words so far have given. -/
structure Draft where
  path : Option String
  output : Option String
  indent : Option Nat
  on : Switch → Bool

/-- The largest width that can be asked for. -/
def maxIndent : Nat := 18446744073709551615

/-- A width: digits, with or without a plus sign before them. -/
def width? (text : String) : Option Nat :=
  let digits := match text.toList with
    | '+' :: digits => digits
    | digits => digits
  if digits ≠ [] ∧ digits.all Char.isDigit ∧ Text.decimalValue digits ≤ maxIndent then
    some (Text.decimalValue digits)
  else none

namespace Draft

/-- Nothing is given yet. -/
def empty : Draft := ⟨none, none, none, fun _ => false⟩

/-- Gives the path, which may not be empty. -/
def setPath (d : Draft) (path : String) : Option Draft :=
  if d.path.isNone ∧ path ≠ "" then some { d with path := some path } else none

/-- Switches something on. -/
def raise (d : Draft) (s : Switch) : Option Draft :=
  if d.on s then none else some { d with on := fun t => t = s || d.on t }

/-- Gives a setting its value. -/
def assign (d : Draft) (s : Setting) (value : String) : Option Draft :=
  match s with
  | .output =>
    if d.output.isNone ∧ value ≠ "" then some { d with output := some value } else none
  | .indent =>
    match d.indent, width? value with
    | none, some n => some { d with indent := some n }
    | _, _ => none

/-- What was asked for, now that the words are at their end. -/
def request (d : Draft) : Request :=
  match d.path with
  | some path => .translate ⟨path, d.output, d.indent.getD JavaScript.Config.standard.indentWidth, d.on⟩
  | none => .misuse

end Draft

/-- What one word has come to: the draft goes on, perhaps with a setting that waits for its value in the
next word, or the request is decided. -/
inductive Progress where
  | going (d : Draft) (waiting : Option Setting)
  | decided (r : Request)

namespace Progress

/-- Goes on with a draft, unless what was given was not acceptable. -/
def ofDraft? : Option Draft → Progress
  | some d => going d none
  | none => decided .misuse

end Progress

/-- Reads what stands after two dashes: a name, or a name, an equals sign and a value. -/
def readLong (d : Draft) (text : List Char) : Progress :=
  let name := String.ofList (text.takeWhile (· ≠ '='))
  match longNames.lookup name, text.dropWhile (· ≠ '=') with
  | some (.switch s), [] => .ofDraft? (d.raise s)
  | some (.setting s), [] => .going d (some s)
  | some (.setting s), _ :: value => .ofDraft? (d.assign s (String.ofList value))
  | some .help, [] => .decided .help
  | some .version, [] => .decided .version
  | _, _ => .decided .misuse

/-- Reads what stands after one dash: letters, of which one that takes a value is the last. -/
def readShort (d : Draft) : List Char → Progress
  | [] => .going d none
  | c :: cs =>
    match shortNames.lookup c with
    | some (.switch s) =>
      match d.raise s with
      | some d => readShort d cs
      | none => .decided .misuse
    | some (.setting s) =>
      match cs with
      | [] => .going d (some s)
      | '=' :: value => .ofDraft? (d.assign s (String.ofList value))
      | value => .ofDraft? (d.assign s (String.ofList value))
    | some .help => .decided .help
    | some .version => .decided .version
    | none => .decided .misuse

/-- Reads one word that is not the value of the option before it. -/
def readWord (d : Draft) (word : String) : Progress :=
  match word.toList with
  | '-' :: '-' :: text => readLong d text
  | '-' :: c :: cs => readShort d (c :: cs)
  | _ => .ofDraft? (d.setPath word)

/-- Whether a word is an option by its form. A single dash is not. -/
def isOption (word : String) : Bool :=
  match word.toList with
  | '-' :: _ :: _ => true
  | _ => false

/-- Reads words among which there are no options. -/
def readPaths (d : Draft) : List String → Request
  | [] => d.request
  | word :: words =>
    match d.setPath word with
    | some d => readPaths d words
    | none => .misuse

/-- Reads words, the first of which may be the value that a setting waits for. -/
def readWords : Draft → Option Setting → List String → Request
  | d, none, [] => d.request
  | _, some _, [] => .misuse
  | d, some s, word :: words =>
    if isOption word then .misuse
    else
      match d.assign s word with
      | some d => readWords d none words
      | none => .misuse
  | d, none, word :: words =>
    if word = "--" then readPaths d words
    else
      match readWord d word with
      | .going d waiting => readWords d waiting words
      | .decided r => r

/-- What the arguments ask for. -/
def Request.ofArguments (args : List String) : Request := readWords .empty none args

/-- How the command is used. -/
def usage : String :=
  "Usage: pl0js [OPTIONS] <PATH>\n\n" ++
  "  -o, --output <OUTPUT>  Output file path (defaults to the input's name with .js)\n" ++
  "      --print-tokens     Print the token stream\n" ++
  "      --show-ast         Show the tree after parsing\n" ++
  "  -p, --print-js         Print the generated JavaScript\n" ++
  "  -v, --verbose          Report every phase\n" ++
  "  -t, --timing           Show times and sizes\n" ++
  "      --indent <INDENT>  Spaces per nesting level [default: 2]\n" ++
  "      --trunc-div        Truncate quotients to whole numbers\n" ++
  "  -r, --run              Run the generated program with node\n" ++
  "  -h, --help             Print help\n" ++
  "  -V, --version          Print version\n"

end PL0.Command
