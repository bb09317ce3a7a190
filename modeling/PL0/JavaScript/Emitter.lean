/-
Emitters: nodes of a program written one after another onto one text. What a node is written as depends on the
configuration and on the depth at which it stands; a node that is cut has the text up to the cut. A whole program
stands at depth zero, and it has a text only if nothing in it is cut.
-/
import PL0.JavaScript.Code

namespace PL0.JavaScript

/-- The nodes that can be written. -/
inductive Node where
  | program (p : Program)
  | block (b : Block)
  | procedure (p : Procedure)
  | statement (s : Statement)
  | condition (c : Condition)
  | expr (e : Expr)

/-- What a node writes at a depth. -/
def Node.emission (config : Config) (depth : Nat) : Node → Emission
  | program p => .ofLines config.indentWidth (p.code config depth)
  | block b => .ofLines config.indentWidth (b.code config depth)
  | procedure p => .ofLines config.indentWidth (p.code config depth)
  | statement s => .ofLines config.indentWidth (s.code config depth)
  | condition c => .ofFragment depth (c.code config)
  | expr e => .ofFragment depth (e.code config)

/-- A text that is being written, and the depth at which the next node goes. -/
structure Emitter where
  config : Config
  output : String
  depth : Nat
deriving DecidableEq, Repr

/-- Before anything is written. -/
def Emitter.start (config : Config) : Emitter := ⟨config, "", 0⟩

/-- A program's text in JavaScript. -/
def emit (config : Config) (p : Program) : Except Fault String :=
  match (Node.program p).emission config 0 with
  | ⟨text, none⟩ => .ok text
  | ⟨_, some cut⟩ => .error cut.fault

end PL0.JavaScript
