/-
Fragments of emitted text. A node that cannot be written leaves its fault in the place of its text, and
what is written ends at the first fault: it is cut. Main statements: the text and the fault of fragments
side by side (`text_append`, `fault?_append`), and what lines one after another write (`ofLines_append`).
-/
import PL0.Fault
import PL0.Text.Layout

namespace PL0.JavaScript

open Text (Line)

/-- A piece of text, or the fault of a node that has none. -/
inductive Chunk where
  | text (s : String)
  | fault (f : Fault)
deriving DecidableEq, Repr

/-- Pieces of text side by side. -/
abbrev Fragment := List Chunk

namespace Fragment

/-- What is written of a fragment: the text up to the first fault. -/
def text : Fragment → String
  | [] => ""
  | .text s :: rest => s ++ text rest
  | .fault _ :: _ => ""

/-- The fault at which a fragment is cut. -/
def fault? : Fragment → Option Fault
  | [] => none
  | .text _ :: rest => fault? rest
  | .fault f :: _ => some f

theorem fault?_append (a b : Fragment) : fault? (a ++ b) = (fault? a).or (fault? b) := by
  induction a with
  | nil => rfl
  | cons c a ih => cases c with
    | text s => exact ih
    | fault f => rfl

theorem text_append (a b : Fragment) :
    text (a ++ b) = if (fault? a).isNone then text a ++ text b else text a := by
  induction a with
  | nil => simp [text, fault?]
  | cons c a ih => cases c with
    | text s =>
      show s ++ text (a ++ b) = if (fault? a).isNone then (s ++ text a) ++ text b else s ++ text a
      rw [ih]
      split <;> simp [String.append_assoc]
    | fault f => simp [text, fault?]

end Fragment

/-- Where a text was cut: the fault, and the depth of the line that it cut. -/
structure Cut where
  fault : Fault
  depth : Nat
deriving DecidableEq, Repr

/-- A text, and the place where it was cut, if it was. -/
structure Emission where
  text : String
  cut : Option Cut
deriving DecidableEq, Repr

namespace Emission

/-- Nothing written. -/
def empty : Emission := ⟨"", none⟩

/-- A text written whole. -/
def whole (text : String) : Emission := ⟨text, none⟩

/-- One emission after another. Nothing follows a cut. -/
def append (a b : Emission) : Emission :=
  match a.cut with
  | none => ⟨a.text ++ b.text, b.cut⟩
  | some _ => a

/-- A fragment written at a depth. -/
def ofFragment (depth : Nat) (f : Fragment) : Emission := ⟨f.text, f.fault?.map (⟨·, depth⟩)⟩

/-- A line written whole, with its line feed, or up to its fault. -/
def ofLine (width : Nat) (l : Line Fragment) : Emission :=
  (whole (Text.indent l.depth width)).append
    ((ofFragment l.depth l.content).append (whole "\n"))

/-- Lines written one after another. -/
def ofLines (width : Nat) : List (Line Fragment) → Emission
  | [] => empty
  | l :: ls => (ofLine width l).append (ofLines width ls)

theorem append_assoc (a b c : Emission) : (a.append b).append c = a.append (b.append c) := by
  obtain ⟨ta, ca⟩ := a
  obtain ⟨tb, cb⟩ := b
  cases ca with
  | some k => rfl
  | none => cases cb with
    | some k => rfl
    | none => simp [append, String.append_assoc]

theorem empty_append (a : Emission) : empty.append a = a := by
  simp [append, empty]

theorem append_empty (a : Emission) : a.append empty = a := by
  obtain ⟨t, c⟩ := a
  cases c <;> simp [append, empty]

theorem ofLines_append (width : Nat) (a b : List (Line Fragment)) :
    ofLines width (a ++ b) = (ofLines width a).append (ofLines width b) := by
  induction a with
  | nil => exact (empty_append _).symm
  | cons l a ih => simp only [List.cons_append, ofLines, ih, append_assoc]

end Emission

end PL0.JavaScript
