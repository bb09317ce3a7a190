/-
Laid-out lines: each line has a depth, and is written after as many blanks as its depth times the width
of one level. A text laid out in lines is the lines one after another, each closed by a line feed.
-/

namespace PL0.Text

/-- One line of a laid-out text: the depth it stands at and what it holds. -/
structure Line (α : Type) where
  depth : Nat
  content : α
deriving DecidableEq, Repr

/-- The blanks before a line at a depth, with levels of the given width. -/
def indent (depth width : Nat) : String := String.ofList (List.replicate (depth * width) ' ')

namespace Line

/-- A line of text, written out. -/
def render (width : Nat) (l : Line String) : String := indent l.depth width ++ l.content ++ "\n"

/-- Lines of text, written out one after another. -/
def renderAll (width : Nat) (ls : List (Line String)) : String := String.join (ls.map (render width))

end Line

end PL0.Text
