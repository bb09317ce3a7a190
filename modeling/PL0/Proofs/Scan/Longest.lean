/-
The longest lexeme. A lexeme that goes on with the next character is the beginning of a longer text that has a
form, so reading a lexeme until it does not go on reads the longest text of any form that stands at the front.
Main statement: `Lexeme.first?_eq_some_iff`.
-/
import PL0.Proofs.Scan.Front

namespace PL0.Lexeme

variable {lx : Lexeme} {cs rest : List Char} {c : Char}

/-- The lexeme stands at the front of the text, and nothing longer that has a form stands there. -/
structure Longest (lx : Lexeme) (cs : List Char) : Prop where
  fits : lx.form.Fits lx.text
  front : lx.text <+: cs
  length_le : ∀ form text, Form.Fits form text → text <+: cs → text.length ≤ lx.text.length

/-- A lexeme that goes on with a character becomes, with that character, a text that has a form. -/
theorem exists_fits_of_goesOn (h : lx.form.Fits lx.text) (hc : lx.goesOn c = true) :
    ∃ form : Form, form.Fits (lx.text ++ [c]) := by
  obtain ⟨form, text⟩ := lx
  have hsingle : ∀ {p : Char → Bool}, p c = true → ∀ d ∈ [c], p d = true := by
    intro p hp d hd
    rwa [List.mem_singleton.1 hd]
  cases form with
  | blank => exact ⟨.blank, by simp, List.forall_mem_append.2 ⟨h.2, hsingle hc⟩⟩
  | comment => cases hc
  | word =>
    obtain ⟨d, ds, rfl, hd, hds⟩ := h
    exact ⟨.word, d, ds ++ [c], rfl, hd, List.forall_mem_append.2 ⟨hds, hsingle hc⟩⟩
  | number => exact ⟨.number, by simp, List.forall_mem_append.2 ⟨h.2, hsingle hc⟩⟩
  | symbol kind =>
    obtain ⟨s, hs, he⟩ := List.any_eq_true.1 hc
    exact ⟨.symbol s.2, by rw [← beq_iff_eq.1 he]; exact hs⟩

/-- The lexeme that is read is at least as long as any other that stands at the front. By induction on what
the other leaves: if it goes on, a longer one takes its place. -/
theorem exists_first?_of_fits (rest : List Char) : ∀ lx : Lexeme, lx.form.Fits lx.text →
    ∃ lx' rest', first? (lx.text ++ rest) = some (lx', rest') ∧ lx.text.length ≤ lx'.text.length := by
  induction rest with
  | nil =>
    intro lx h
    exact ⟨lx, [], first?_of_fits h (by simp), Nat.le_refl _⟩
  | cons c rest ih =>
    intro lx h
    by_cases hc : lx.goesOn c = true
    · obtain ⟨form, hf⟩ := exists_fits_of_goesOn h hc
      obtain ⟨lx', rest', h', hl⟩ := ih ⟨form, lx.text ++ [c]⟩ hf
      simp only [List.append_assoc, List.singleton_append, List.length_append, List.length_singleton] at h' hl
      exact ⟨lx', rest', h', by omega⟩
    · refine ⟨lx, c :: rest, first?_of_fits h ?_, Nat.le_refl _⟩
      intro d hd
      cases hd
      exact Bool.eq_false_iff.2 hc

theorem longest_of_first? (h : first? cs = some (lx, rest)) : lx.Longest cs where
  fits := first?_fits h
  front := ⟨rest, first?_append h⟩
  length_le := by
    intro form text hf ht
    obtain ⟨rest', rfl⟩ := ht
    obtain ⟨lx', rest'', h', hl⟩ := exists_first?_of_fits rest' ⟨form, text⟩ hf
    rw [h] at h'
    cases h'
    exact hl

/-- The longest lexeme does not go on. -/
theorem Longest.goesOn_eq_false (h : lx.Longest (lx.text ++ rest)) : ∀ c ∈ rest.head?, lx.goesOn c = false := by
  intro c hc
  by_contra hg
  obtain ⟨rest', rfl⟩ : ∃ rest', rest = c :: rest' := List.head?_eq_some_iff.1 hc
  obtain ⟨form, hf⟩ := exists_fits_of_goesOn h.fits (Bool.not_eq_false _ ▸ hg)
  have hl := h.length_le form (lx.text ++ [c]) hf ⟨rest', by simp⟩
  rw [List.length_append, List.length_singleton] at hl
  omega

/-- What is read at the front of a text is its longest lexeme. -/
theorem first?_eq_some_iff : first? cs = some (lx, rest) ↔ cs = lx.text ++ rest ∧ lx.Longest cs := by
  constructor
  · intro h
    exact ⟨(first?_append h).symm, longest_of_first? h⟩
  · rintro ⟨rfl, h⟩
    exact first?_of_fits h.fits h.goesOn_eq_false

end PL0.Lexeme
