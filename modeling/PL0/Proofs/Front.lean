/-
Lists that are split where a property first fails, and texts that are split where a line ends. Main statements:
`takeWhile_append_of_front` and `line_append_inj`.
-/

namespace PL0

variable {α : Type} {p : α → Bool}

/-- If the property holds of a whole list and not of what comes next, the list is the longest such beginning. -/
theorem takeWhile_append_of_front {xs rest : List α} (h : ∀ a ∈ xs, p a = true)
    (hr : ∀ a ∈ rest.head?, p a = false) : (xs ++ rest).takeWhile p = xs := by
  rw [List.takeWhile_append_of_pos h]
  cases rest with
  | nil => simp
  | cons a rest => simp [hr a rfl]

theorem dropWhile_append_of_front {xs rest : List α} (h : ∀ a ∈ xs, p a = true)
    (hr : ∀ a ∈ rest.head?, p a = false) : (xs ++ rest).dropWhile p = rest := by
  rw [List.dropWhile_append_of_pos h]
  cases rest with
  | nil => rfl
  | cons a rest => simp [hr a rfl]

theorem of_mem_takeWhile {xs : List α} {a : α} (h : a ∈ xs.takeWhile p) : p a = true :=
  List.all_eq_true.1 List.all_takeWhile a h

theorem of_mem_head?_dropWhile {xs : List α} {a : α} (h : a ∈ (xs.dropWhile p).head?) : p a = false := by
  have hn := List.head?_dropWhile_not p xs
  rw [Option.mem_def.1 h] at hn
  simpa using hn

theorem append_inj_of_front {xs xs' rest rest' : List α} (h : ∀ a ∈ xs, p a = true)
    (h' : ∀ a ∈ xs', p a = true) (hr : ∀ a ∈ rest.head?, p a = false) (hr' : ∀ a ∈ rest'.head?, p a = false)
    (he : xs ++ rest = xs' ++ rest') : xs = xs' ∧ rest = rest' := by
  have hx : xs = xs' := by
    rw [← takeWhile_append_of_front h hr, he, takeWhile_append_of_front h' hr']
  subst hx
  exact ⟨rfl, List.append_cancel_left he⟩

/-- Lists that stand before the first of some element are told by what they make up with it. -/
theorem append_cons_inj [DecidableEq α] {a : α} {xs xs' rest rest' : List α} (h : a ∉ xs) (h' : a ∉ xs')
    (he : xs ++ a :: rest = xs' ++ a :: rest') : xs = xs' ∧ rest = rest' := by
  have hne : ∀ {xs : List α}, a ∉ xs → ∀ b ∈ xs, decide (b ≠ a) = true := by
    rintro xs hxs b hb
    refine decide_eq_true ?_
    rintro rfl
    exact hxs hb
  have hend : ∀ rest : List α, ∀ b ∈ (a :: rest).head?, decide (b ≠ a) = false := by simp
  obtain ⟨hx, hr⟩ := append_inj_of_front (hne h) (hne h') (hend rest) (hend rest') he
  exact ⟨hx, (List.cons.inj hr).2⟩

/-- A text in which no line ends and that begins with no blank. -/
def OneLine (cs : List Char) : Prop := '\n' ∉ cs ∧ ∀ c ∈ cs.head?, c ≠ ' '

theorem OneLine.newline_not_mem {cs : List Char} (h : OneLine cs) (n : Nat) : '\n' ∉ List.replicate n ' ' ++ cs := by
  simp [h.1]

/-- A line tells how many blanks it begins with, what it holds and what follows it. -/
theorem line_append_inj {n n' : Nat} {cs cs' rest rest' : List Char} (h : OneLine cs) (h' : OneLine cs')
    (he : List.replicate n ' ' ++ (cs ++ '\n' :: rest) = List.replicate n' ' ' ++ (cs' ++ '\n' :: rest')) :
    n = n' ∧ cs = cs' ∧ rest = rest' := by
  have hblank : ∀ n : Nat, ∀ c ∈ List.replicate n ' ', decide (c = ' ') = true := by
    intro n c hc
    exact decide_eq_true (List.eq_of_mem_replicate hc)
  have hfirst : ∀ {cs : List Char}, OneLine cs → ∀ c ∈ cs.head?, decide (c = ' ') = false :=
    fun hcs c hc => decide_eq_false (hcs.2 c hc)
  rw [← List.append_assoc, ← List.append_assoc] at he
  obtain ⟨hline, hrest⟩ := append_cons_inj (h.newline_not_mem n) (h'.newline_not_mem n') he
  obtain ⟨hn, hcs⟩ := append_inj_of_front (hblank n) (hblank n') (hfirst h) (hfirst h') hline
  exact ⟨by simpa using congrArg List.length hn, hcs, hrest⟩

end PL0
