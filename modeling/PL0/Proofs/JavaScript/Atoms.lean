/-
Atoms: the words and marks of expressions in JavaScript. There are whole numbers, names, operators, parentheses and
dots, and a text with anything else has no atoms. Texts are put together from operands, which end where no character
of a name follows (`Spells`). Main statements: what operands side by side, in parentheses or behind an operator are
made of (`Spells.append`, `Spells.parens`, `Spells.behind`).
-/
import PL0.Proofs.JavaScript.Expression

namespace PL0.JavaScript

/-- The operators between two operands. -/
inductive Operation where
  | add | subtract | multiply | divide | remainder
  | less | lessEqual | greater | greaterEqual | same | different
deriving DecidableEq, Repr

/-- The operators as they are written. -/
def operations : List (List Char × Operation) :=
  [(['+'], .add), (['-'], .subtract), (['*'], .multiply), (['/'], .divide), (['%'], .remainder), (['<'], .less),
   (['<', '='], .lessEqual), (['>'], .greater), (['>', '='], .greaterEqual), (['=', '=', '='], .same),
   (['!', '=', '='], .different)]

inductive Atom where
  | number (value : Nat)
  | name (text : String)
  | operation (op : Operation)
  | opening | closing | dot
deriving DecidableEq, Repr

/-- The characters of operators. -/
def operatorParts : List Char := ['+', '-', '*', '/', '%', '<', '>', '=', '!', '&', '|', '^', '~', '?']

def isOperatorPart (c : Char) : Bool := operatorParts.contains c

/-- What a run of characters is that make up a name or a number. A number is written without needless zeros. -/
def Atom.ofName? (run : List Char) : Option Atom :=
  if run.all Char.isDigit then
    if run = Nat.toDigits 10 (Text.decimalValue run) then some (number (Text.decimalValue run)) else none
  else if run.head?.any Char.isDigit then none
  else some (name (String.ofList run))

/-- What a run of characters is that make up an operator. -/
def Atom.ofOperator? (run : List Char) : Option Atom := (operations.lookup run).map operation

/-- The atoms of a text. Each is as long as it can be. -/
def atoms? : List Char → Option (List Atom)
  | [] => some []
  | c :: cs =>
    if Text.isBlank c then atoms? cs
    else if c = '(' then (atoms? cs).map (.opening :: ·)
    else if c = ')' then (atoms? cs).map (.closing :: ·)
    else if c = '.' then (atoms? cs).map (.dot :: ·)
    else if isNamePart c then
      (Atom.ofName? (c :: cs.takeWhile isNamePart)).bind fun a => (atoms? (cs.dropWhile isNamePart)).map (a :: ·)
    else if isOperatorPart c then
      (Atom.ofOperator? (c :: cs.takeWhile isOperatorPart)).bind fun a =>
        (atoms? (cs.dropWhile isOperatorPart)).map (a :: ·)
    else none
termination_by cs => cs.length
decreasing_by
  all_goals
    have hn := List.length_dropWhile_le isNamePart cs
    have ho := List.length_dropWhile_le isOperatorPart cs
    simp only [List.length_cons]
    omega

/-! ## Texts in two parts -/

section

variable {rest : List Char}

theorem atoms?_nil : atoms? [] = some [] := by rw [atoms?]

theorem atoms?_blank : atoms? (' ' :: rest) = atoms? rest := by
  rw [atoms?, if_pos (by decide)]

theorem atoms?_opening : atoms? ('(' :: rest) = (atoms? rest).map (.opening :: ·) := by
  rw [atoms?, if_neg (by decide), if_pos rfl]

theorem atoms?_closing : atoms? (')' :: rest) = (atoms? rest).map (.closing :: ·) := by
  rw [atoms?, if_neg (by decide), if_neg (by decide), if_pos rfl]

theorem atoms?_dot : atoms? ('.' :: rest) = (atoms? rest).map (.dot :: ·) := by
  rw [atoms?, if_neg (by decide), if_neg (by decide), if_neg (by decide), if_pos rfl]

/-- The text does not go on an operator. -/
def Aside (rest : List Char) : Prop := ∀ c ∈ rest.head?, isOperatorPart c = false

theorem aside_cons {c : Char} (h : isOperatorPart c = false) (rest : List Char) : Aside (c :: rest) := by
  intro d hd
  cases hd
  exact h

/-- What an operator stands before goes on no operator. -/
theorem aside_of_isNamePart {run : List Char} (hne : run ≠ []) (hrun : ∀ c ∈ run, isNamePart c = true)
    (rest : List Char) : Aside (run ++ rest) := by
  have hall : (operatorParts.all fun d => !isNamePart d) = true := by decide
  obtain ⟨c, cs, rfl⟩ := List.exists_cons_of_ne_nil hne
  refine aside_cons (Bool.eq_false_iff.2 fun hc => ?_) _
  have hn := List.all_eq_true.1 hall c (List.contains_iff_mem.1 hc)
  rw [hrun c List.mem_cons_self] at hn
  cases hn

theorem isBlank_eq_false_of_isNamePart {c : Char} (h : isNamePart c = true) : Text.isBlank c = false := by
  rw [isNamePart, Bool.or_eq_true, decide_eq_true_eq] at h
  rcases h with h | rfl
  · exact isBlank_eq_false_of_isWordPart h
  · decide

theorem isNamePart_toDigits (n : Nat) : ∀ c ∈ Nat.toDigits 10 n, isNamePart c = true := fun c hc => by
  simp [isNamePart, isWordPart_of_isDigit ((fits_toDigits n).2 c hc)]

/-- A name or a number ends where no character of a name follows. -/
theorem atoms?_name {run : List Char} (hne : run ≠ []) (hrun : ∀ c ∈ run, isNamePart c = true) (hr : Apart rest) :
    atoms? (run ++ rest) = (Atom.ofName? run).bind fun a => (atoms? rest).map (a :: ·) := by
  obtain ⟨c, cs, rfl⟩ := List.exists_cons_of_ne_nil hne
  obtain ⟨hc, hcs⟩ := List.forall_mem_cons.1 hrun
  have hother : ∀ d, isNamePart d = false → c ≠ d := by
    rintro d hd rfl
    exact absurd hc (by simp [hd])
  rw [List.cons_append, atoms?, if_neg (by simp [isBlank_eq_false_of_isNamePart hc]), if_neg (hother _ (by decide)),
    if_neg (hother _ (by decide)), if_neg (hother _ (by decide)), if_pos hc, takeWhile_append_of_front hcs hr,
    dropWhile_append_of_front hcs hr]

/-- An operator ends where no character of an operator follows. -/
theorem atoms?_operator {run : List Char} (hne : run ≠ []) (hrun : ∀ c ∈ run, isOperatorPart c = true)
    (hr : Aside rest) :
    atoms? (run ++ rest) = (Atom.ofOperator? run).bind fun a => (atoms? rest).map (a :: ·) := by
  obtain ⟨c, cs, rfl⟩ := List.exists_cons_of_ne_nil hne
  obtain ⟨hc, hcs⟩ := List.forall_mem_cons.1 hrun
  have hother : (operatorParts.all fun d =>
      !Text.isBlank d && d != '(' && d != ')' && d != '.' && !isNamePart d) = true := by decide
  have hmem : c ∈ operatorParts := List.contains_iff_mem.1 hc
  have hc' := List.all_eq_true.1 hother c hmem
  simp only [Bool.and_eq_true, Bool.not_eq_true', bne_iff_ne] at hc'
  obtain ⟨⟨⟨⟨hblank, hopening⟩, hclosing⟩, hdot⟩, hname⟩ := hc'
  rw [List.cons_append, atoms?, if_neg (by simp [hblank]), if_neg hopening, if_neg hclosing, if_neg hdot,
    if_neg (by simp [hname]), if_pos hc, takeWhile_append_of_front hcs hr, dropWhile_append_of_front hcs hr]

end

/-! ## Operands -/

def parens (as : List Atom) : List Atom := .opening :: (as ++ [.closing])

/-- The call of `Math.trunc`. -/
def truncateCall (as : List Atom) : List Atom := .name "Math" :: .dot :: .name "trunc" :: parens as

/-- The text is made of the atoms, whatever follows that goes on no word. -/
def Spells (cs : List Char) (as : List Atom) : Prop :=
  ∀ rest, Apart rest → atoms? (cs ++ rest) = (atoms? rest).map (as ++ ·)

namespace Spells

variable {cs ds : List Char} {as bs : List Atom}

theorem atoms?_eq (h : Spells cs as) : atoms? cs = some as := by
  have hall := h [] apart_nil
  rwa [List.append_nil, atoms?_nil, Option.map_some, List.append_nil] at hall

/-- A number or a name. -/
theorem run {a : Atom} (hne : cs ≠ []) (hcs : ∀ c ∈ cs, isNamePart c = true) (ha : Atom.ofName? cs = some a) :
    Spells cs [a] := by
  intro rest hr
  rw [atoms?_name hne hcs hr, ha]
  rfl

theorem number (n : Nat) : Spells (Nat.toDigits 10 n) [.number n] := by
  have hdigit : (Nat.toDigits 10 n).all Char.isDigit = true := List.all_eq_true.2 (fits_toDigits n).2
  refine run Nat.toDigits_ne_nil (isNamePart_toDigits n) ?_
  rw [Atom.ofName?, if_pos hdigit, decimalValue_toDigits, if_pos rfl]

theorem name {s : String} {c : Char} (hs : s.toList = c :: cs) (hc : c.isDigit = false)
    (hall : ∀ c ∈ s.toList, isNamePart c = true) : Spells s.toList [.name s] := by
  refine run (by simp [hs]) hall ?_
  rw [Atom.ofName?, if_neg (by simp [hs, hc]), if_neg (by simp [hs, hc]), String.ofList_toList]

theorem append (h : Spells cs as) (h' : Spells ds bs) (hd : ∀ rest, Apart rest → Apart (ds ++ rest)) :
    Spells (cs ++ ds) (as ++ bs) := by
  intro rest hr
  rw [List.append_assoc, h _ (hd rest hr), h' rest hr, Option.map_map]
  simp [Function.comp_def]

theorem dot (h : Spells cs as) : Spells ('.' :: cs) (.dot :: as) := by
  intro rest hr
  rw [List.cons_append, atoms?_dot, h rest hr, Option.map_map]
  rfl

theorem blank (h : Spells cs as) : Spells (' ' :: cs) as := by
  intro rest hr
  rw [List.cons_append, atoms?_blank, h rest hr]

theorem parens (h : Spells cs as) : Spells ('(' :: (cs ++ [')'])) (parens as) := by
  intro rest hr
  rw [List.cons_append, List.append_assoc, List.singleton_append, atoms?_opening, h _ (apart_cons (by decide) rest),
    atoms?_closing, Option.map_map, Option.map_map]
  simp [JavaScript.parens, Function.comp_def]

/-- An operator in front of an operand. -/
theorem behind {run : List Char} {op : Operation} (hop : (run, op) ∈ operations)
    (hcs : ∀ rest, Apart rest → Aside (cs ++ rest)) (h : Spells cs as) :
    Spells (run ++ cs) (.operation op :: as) := by
  have hall : ∀ o ∈ operations, o.1 ≠ [] ∧ o.1.all isOperatorPart = true ∧ operations.lookup o.1 = some o.2 := by decide
  obtain ⟨hne, hrun, hlookup⟩ := hall _ hop
  intro rest hr
  rw [List.append_assoc, atoms?_operator hne (List.all_eq_true.1 hrun) (hcs rest hr), Atom.ofOperator?, hlookup,
    h rest hr, Option.map_some, Option.bind_some, Option.map_map]
  rfl

/-- An operand in parentheses behind `Math.trunc`. -/
theorem call (h : Spells cs as) : Spells ("Math.trunc".toList ++ '(' :: (cs ++ [')'])) (truncateCall as) := by
  have hmath : Spells "Math".toList [.name "Math"] := name rfl (by decide) (List.all_eq_true.1 (by decide))
  have htrunc : Spells "trunc".toList [.name "trunc"] := name rfl (by decide) (List.all_eq_true.1 (by decide))
  have hparens : ∀ rest, Apart rest → Apart ('(' :: (cs ++ [')']) ++ rest) := fun _ _ => apart_cons (by decide) _
  exact hmath.append (htrunc.append h.parens hparens).dot fun _ _ => apart_cons (by decide) _

end Spells

end PL0.JavaScript
