/-
Lines as they are written. A text that is laid out in lines falls apart into them again: each line ends where
the first line feed stands, and what it holds begins after its blanks. Main statement:
`texts_eq_of_written_eq`.
-/
import PL0.JavaScript.Fragment
import PL0.Proofs.Front

namespace PL0.JavaScript

open Text (Line)

/-- What is written of lines without a fault. -/
def written (width : Nat) (lines : List (Line Fragment)) : List Char :=
  lines.flatMap fun l => List.replicate (l.depth * width) ' ' ++ (l.content.text.toList ++ ['\n'])

theorem ofLine_of_fault?_eq_none {width : Nat} {l : Line Fragment} (h : l.content.fault? = none) :
    Emission.ofLine width l = .whole (Text.indent l.depth width ++ (l.content.text ++ "\n")) := by
  simp [Emission.ofLine, Emission.ofFragment, Emission.append, Emission.whole, h]

theorem ofLines_of_fault?_eq_none {width : Nat} {lines : List (Line Fragment)}
    (h : ∀ l ∈ lines, l.content.fault? = none) :
    Emission.ofLines width lines = .whole (String.ofList (written width lines)) := by
  induction lines with
  | nil => rfl
  | cons l lines ih =>
    rw [Emission.ofLines, ofLine_of_fault?_eq_none (h l List.mem_cons_self),
      ih fun l hl => h l (List.mem_cons_of_mem _ hl)]
    refine congrArg (Emission.mk · none) (String.toList_injective ?_)
    simp [Emission.whole, written, Text.indent]

/-- A content that is laid out on one line and begins where it is put. -/
def Clean (f : Fragment) : Prop := '\n' ∉ f.text.toList ∧ ∀ c ∈ f.text.toList.head?, c ≠ ' '

/-- What is written of clean lines tells what they hold. -/
theorem texts_eq_of_written_eq {width width' : Nat} : ∀ {lines lines' : List (Line Fragment)},
    (∀ l ∈ lines, Clean l.content) → (∀ l ∈ lines', Clean l.content) →
    written width lines = written width' lines' →
    lines.map (·.content.text.toList) = lines'.map (·.content.text.toList)
  | [], [], _, _, _ => rfl
  | [], l' :: lines', _, _, h => by simp [written] at h
  | l :: lines, [], _, _, h => by simp [written] at h
  | l :: lines, l' :: lines', hc, hc', h => by
    obtain ⟨hl, hls⟩ := List.forall_mem_cons.1 hc
    obtain ⟨hl', hls'⟩ := List.forall_mem_cons.1 hc'
    simp only [written, List.flatMap_cons, List.append_assoc, List.singleton_append] at h
    obtain ⟨-, ht, hrest⟩ := line_append_inj hl hl' h
    rw [List.map_cons, List.map_cons, ht, texts_eq_of_written_eq hls hls' hrest]

end PL0.JavaScript
