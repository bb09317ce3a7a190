/-
The walk that writes a node. Text is put out piece by piece after what is there; the depth is raised before what
stands inside and lowered after it. A node that has no text ends the walk on the spot: what was put out stays, and
the depth is not lowered again.
-/
import PL0.JavaScript.Emitter

namespace PL0

namespace JavaScript

/-- A part of a walk: what it does to an emitter, and the fault at which the walk ends. -/
abbrev Walk := ExceptT Fault (StateM Emitter) Unit

namespace Walk

/-- Puts out a text. -/
def put (s : String) : Walk := modify fun e => { e with output := e.output ++ s }

/-- Puts out a text that is wanted. -/
def putIf (wanted : Bool) (s : String) : Walk := if wanted then put s else pure ()

/-- What follows stands one level deeper. -/
def deepen : Walk := modify fun e => { e with depth := e.depth + 1 }

/-- What follows stands one level higher. -/
def rise : Walk := modify fun e => { e with depth := e.depth - 1 }

/-- Puts out the blanks before a line. -/
def pad : Walk := do put (Text.indent (← get).depth (← get).config.indentWidth)

/-- Puts out a whole line. -/
def line (s : String) : Walk := do
  pad
  put s
  put "\n"

end Walk

end JavaScript

open JavaScript Walk

/-- Writes an expression. -/
def Expr.walk : Expr → Walk
  | .operand (.number value) => put (literal value)
  | .operand (.ident name) => put (rename name)
  | .unary op inner =>
    if op.isUnary then do
      put "("
      put op.symbol
      inner.walk
      put ")"
    else throw (.binaryInUnary op.label)
  | .binary op left right =>
    if op.isUnary then throw (.unaryInBinary op.label)
    else do
      let truncate := (← get).config.truncateDivision && op = .divide
      putIf truncate "Math.trunc("
      put "("
      left.walk
      put op.symbol
      right.walk
      put ")"
      putIf truncate ")"

/-- Writes a condition. -/
def Condition.walk : Condition → Walk
  | .odd inner => do
    put "(("
    inner.walk
    put " % 2) === 1)"
  | .compare rel left right => do
    put "("
    left.walk
    put (" " ++ relation rel ++ " ")
    right.walk
    put ")"

namespace Statement

mutual

/-- Writes a statement. -/
def walk : Statement → Walk
  | compound body => do
    line "\x7b"
    walkInside body
    line "\x7d"
  | assign name value => do
    pad
    put (rename name ++ " = ")
    value.walk
    put ";\n"
  | call name => line (rename name ++ "();")
  | write value => do
    pad
    put ((← get).config.printFunction ++ "(")
    value.walk
    put ");\n"
  | ifThen cond body => do
    pad
    put "if ("
    cond.walk
    put ")"
    walkBody body
  | whileDo cond body => do
    pad
    put "while ("
    cond.walk
    put ")"
    walkBody body
termination_by s => (sizeOf s, 0)

/-- Writes the body of an `if` or a `while`: the braces of a compound open on the line of the head, and any other
statement stands on lines of its own. -/
def walkBody : Statement → Walk
  | compound body => do
    put " \x7b\n"
    walkInside body
    line "\x7d"
  | single => do
    put "\n"
    deepen
    walk single
    rise
termination_by s => (sizeOf s, 1)

/-- Writes the statements of a compound. -/
def walkInside (body : List Statement) : Walk := do
  deepen
  walkAll body
  rise
termination_by (sizeOf body, 1)

/-- Writes statements one after another. -/
def walkAll : List Statement → Walk
  | [] => pure ()
  | first :: others => do
    walk first
    walkAll others
termination_by ss => (sizeOf ss, 0)

end

end Statement

mutual

/-- Writes a block. -/
def Block.walk : Block → Walk
  | ⟨symbols, procedures, statement⟩ => do
    symbols.toList.forM fun s => line s.code
    Procedure.walkAll procedures
    statement.walk

/-- Writes a procedure. -/
def Procedure.walk : Procedure → Walk
  | ⟨name, block⟩ => do
    line ("function " ++ rename name ++ "() \x7b")
    deepen
    block.walk
    rise
    line "\x7d"

/-- Writes procedures one after another. -/
def Procedure.walkAll : List Procedure → Walk
  | [] => pure ()
  | first :: others => do
    first.walk
    Procedure.walkAll others

end

/-- Writes a program. -/
def Program.walk (p : Program) : Walk := do
  put (prologue ++ "\n")
  deepen
  p.block.walk
  rise
  put (epilogue ++ "\n")

namespace JavaScript

/-- Writes a node. -/
def Node.walk : Node → Walk
  | program p => p.walk
  | block b => b.walk
  | procedure p => p.walk
  | statement s => s.walk
  | condition c => c.walk
  | expr e => e.walk

namespace Emitter

/-- Walks from where an emitter stands. -/
def walk (e : Emitter) (w : Walk) : Except Fault Unit × Emitter := (ExceptT.run w).run e

/-- Writes a node where an emitter stands. -/
def visit (e : Emitter) (n : Node) : Except Fault Unit × Emitter := e.walk n.walk

/-- Forgets what was written, and writes a program. -/
def visitAfresh (e : Emitter) (p : Program) : Except Fault Unit × Emitter :=
  e.walk do
    modify fun e => { e with output := "", depth := 0 }
    p.walk

end Emitter

/-- One thing that an emitter is asked for. -/
inductive Step where
  | visit (n : Node)
  | afresh (p : Program)

namespace Emitter

/-- Takes a step. -/
def step (e : Emitter) : Step → Except Fault Unit × Emitter
  | .visit n => e.visit n
  | .afresh p => e.visitAfresh p

/-- An emitter after steps, whether they succeeded or not. -/
def after (e : Emitter) (steps : List Step) : Emitter := steps.foldl (fun e s => (e.step s).2) e

end Emitter

end JavaScript

end PL0
