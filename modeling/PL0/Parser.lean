/-
Readers of phrases. A parser takes words from the front of a list and ends in one of three ways: with a
value, with a fault, or because the bound on its recursion was met. The words not yet taken are left in
the first two cases, also after a fault. Main statements: the `run` of every elementary parser, and
`leaves_bind`, by which what a phrase leaves is found part by part.
-/
import PL0.Fault
import PL0.Token

namespace PL0

/-- How the reading of a phrase ends. -/
inductive Outcome (α : Type) where
  | done (value : α) (rest : List Token)
  | failed (fault : Fault) (rest : List Token)
  | exhausted
deriving Repr

/-- Goes on with what was read. -/
def Outcome.andThen {α β : Type} (o : Outcome α) (f : α → List Token → Outcome β) : Outcome β :=
  match o with
  | done a rest => f a rest
  | failed fault rest => failed fault rest
  | exhausted => exhausted

/-- A reader of a phrase. `endLine` is the line that a fault names when no word with a line is left. -/
structure Parser (α : Type) where
  run : (endLine : Nat) → List Token → Outcome α

/-- What stands after the last word, again and again. -/
def endOfInput : Token := .eof 0

/-- The word at the front. -/
def frontOf (ts : List Token) : Token := ts.headD endOfInput

@[simp] theorem frontOf_cons (t : Token) (ts : List Token) : frontOf (t :: ts) = t := rfl

/-- The line to name for the word at the front. -/
def lineOf (endLine : Nat) (ts : List Token) : Nat :=
  if (frontOf ts).kind = .eof ∧ (frontOf ts).line = 0 then endLine else (frontOf ts).line

namespace Parser

variable {α β : Type}

instance : Monad Parser where
  pure a := ⟨fun _ ts => .done a ts⟩
  bind p f := ⟨fun endLine ts => (p.run endLine ts).andThen fun a rest => (f a).run endLine rest⟩

/-- Stops, for the bound on the recursion is met. -/
def exhausted : Parser α := ⟨fun _ _ => .exhausted⟩

/-- Refuses for a reason. -/
def fail (fault : Fault) : Parser α := ⟨fun _ ts => .failed fault ts⟩

/-- Reads nothing and goes on with a result, or refuses with its fault. -/
def ofExcept : Except Fault α → Parser α
  | .ok a => pure a
  | .error fault => fail fault

/-- The word at the front, which stays there. -/
def peek : Parser Token := ⟨fun _ ts => .done (frontOf ts) ts⟩

/-- The word at the front, taken. At the end of the words nothing is left to take. -/
def advance : Parser Token := ⟨fun _ ts => .done (frontOf ts) ts.tail⟩

/-- Takes the word at the front if it is of the kind. -/
def accept? (kind : TokenKind) : Parser (Option Token) :=
  ⟨fun _ ts => if (frontOf ts).kind = kind then .done (some (frontOf ts)) ts.tail else .done none ts⟩

/-- Refuses the phrase at the front, for a reason that quotes the word there and its line. -/
def refuse (reason : String → Nat → Fault) : Parser α :=
  ⟨fun endLine ts => .failed (reason (frontOf ts).lexeme (lineOf endLine ts)) ts⟩

/-- Refuses the word at the front, for something else was expected. -/
def unexpected (expected : String) : Parser α := refuse (.unexpected expected)

/-- Takes the word at the front, which must be of the kind. -/
def expect (kind : TokenKind) : Parser Token := do
  match ← accept? kind with
  | some t => return t
  | none => unexpected kind.describe

/-! ## Running the elementary parsers -/

variable {endLine : Nat} {ts : List Token}

theorem run_pure (a : α) : (pure a : Parser α).run endLine ts = .done a ts := rfl

theorem run_bind (p : Parser α) (f : α → Parser β) :
    (p >>= f).run endLine ts = (p.run endLine ts).andThen fun a rest => (f a).run endLine rest := rfl

theorem run_peek_bind (f : Token → Parser β) :
    (peek >>= f).run endLine ts = (f (frontOf ts)).run endLine ts := rfl

theorem run_advance_bind (f : Token → Parser β) :
    (advance >>= f).run endLine ts = (f (frontOf ts)).run endLine ts.tail := rfl

theorem run_accept?_bind (kind : TokenKind) (f : Option Token → Parser β) :
    (accept? kind >>= f).run endLine ts =
      if (frontOf ts).kind = kind then (f (some (frontOf ts))).run endLine ts.tail
      else (f none).run endLine ts := by
  by_cases h : (frontOf ts).kind = kind <;> simp [run_bind, accept?, h, Outcome.andThen]

theorem run_expect (kind : TokenKind) :
    (expect kind).run endLine ts =
      if (frontOf ts).kind = kind then .done (frontOf ts) ts.tail
      else .failed (.unexpected kind.describe (frontOf ts).lexeme (lineOf endLine ts)) ts :=
  run_accept?_bind kind _

end Parser

/-! ## What a parser leaves -/

namespace Outcome

variable {α β : Type} {ts : List Token}

/-- The outcome is settled and leaves a tail of the words `ts`, shorter by at least `n` if a value was
read. -/
def Leaves (ts : List Token) (n : Nat) : Outcome α → Prop
  | done _ rest => rest <:+ ts ∧ rest.length + n ≤ ts.length
  | failed _ rest => rest <:+ ts
  | exhausted => False

theorem Leaves.ne_exhausted {o : Outcome α} {n : Nat} (h : o.Leaves ts n) : o ≠ exhausted := by
  rintro rfl; exact h

theorem Leaves.mono {o : Outcome α} {m n : Nat} (h : o.Leaves ts n) (hmn : m ≤ n) :
    o.Leaves ts m := by
  cases o with
  | done a rest => exact ⟨h.1, by have := h.2; omega⟩
  | failed f rest => exact h
  | exhausted => exact h

theorem Leaves.of_tail {o : Outcome α} {n : Nat} (h : o.Leaves ts.tail n)
    (hlt : ts.tail.length + 1 ≤ ts.length) : o.Leaves ts (n + 1) := by
  cases o with
  | done a rest => exact ⟨h.1.trans (List.tail_suffix _), by have := h.2; omega⟩
  | failed f rest => exact List.IsSuffix.trans h (List.tail_suffix _)
  | exhausted => exact h

end Outcome

namespace Parser

open Outcome

variable {α β : Type} {endLine : Nat} {ts : List Token}

/-- What two phrases leave, one after the other. -/
theorem leaves_bind {p : Parser α} {f : α → Parser β} {m n : Nat}
    (hp : (p.run endLine ts).Leaves ts m)
    (hf : ∀ a rest, rest.length + m ≤ ts.length → ((f a).run endLine rest).Leaves rest n) :
    ((p >>= f).run endLine ts).Leaves ts (m + n) := by
  rw [run_bind]
  cases h : p.run endLine ts with
  | done a rest =>
    rw [h] at hp
    have hq := hf a rest hp.2
    show Leaves ts (m + n) ((f a).run endLine rest)
    cases h' : (f a).run endLine rest with
    | done b rest' =>
      rw [h'] at hq
      exact ⟨hq.1.trans hp.1, by have := hp.2; have := hq.2; omega⟩
    | failed fault rest' => rw [h'] at hq; exact List.IsSuffix.trans hq hp.1
    | exhausted => rw [h'] at hq; exact hq.elim
  | failed fault rest => rw [h] at hp; exact hp
  | exhausted => rw [h] at hp; exact hp.elim

theorem leaves_pure (a : α) : ((pure a : Parser α).run endLine ts).Leaves ts 0 :=
  ⟨List.suffix_rfl, Nat.le_refl _⟩

theorem leaves_fail (fault : Fault) (n : Nat) :
    ((fail fault : Parser α).run endLine ts).Leaves ts n :=
  List.suffix_rfl (l := ts)

theorem leaves_refuse (reason : String → Nat → Fault) (n : Nat) :
    ((refuse reason : Parser α).run endLine ts).Leaves ts n :=
  List.suffix_rfl (l := ts)

theorem leaves_ofExcept (r : Except Fault α) : ((ofExcept r).run endLine ts).Leaves ts 0 := by
  cases r with
  | ok a => exact leaves_pure a
  | error f => exact leaves_fail f 0

/-- A word that is not the end of the input is there to be taken. -/
theorem length_tail_lt (h : (frontOf ts).kind ≠ .eof) : ts.tail.length + 1 ≤ ts.length := by
  cases ts with
  | nil => exact absurd rfl h
  | cons t ts => simp

theorem leaves_advance_bind {f : Token → Parser β} {n : Nat} (h : (frontOf ts).kind ≠ .eof)
    (hf : ts.tail.length + 1 ≤ ts.length →
      ((f (frontOf ts)).run endLine ts.tail).Leaves ts.tail n) :
    ((advance >>= f).run endLine ts).Leaves ts (n + 1) :=
  (hf (length_tail_lt h)).of_tail (length_tail_lt h)

/-- What is left after a word that may or may not be there. -/
theorem leaves_accept?_bind {kind : TokenKind} (hk : kind ≠ .eof) {f : Option Token → Parser β}
    {n : Nat}
    (hsome : ts.tail.length + 1 ≤ ts.length →
      ((f (some (frontOf ts))).run endLine ts.tail).Leaves ts.tail n)
    (hnone : ((f none).run endLine ts).Leaves ts n) :
    ((accept? kind >>= f).run endLine ts).Leaves ts n := by
  rw [run_accept?_bind]
  split
  · rename_i h
    have hlt : ts.tail.length + 1 ≤ ts.length := length_tail_lt (by rw [h]; exact hk)
    exact ((hsome hlt).of_tail hlt).mono (Nat.le_succ n)
  · exact hnone

theorem leaves_expect {kind : TokenKind} (hk : kind ≠ .eof) :
    ((expect kind).run endLine ts).Leaves ts 1 := by
  rw [run_expect]
  split
  · rename_i h
    exact ⟨List.tail_suffix _, length_tail_lt (by rw [h]; exact hk)⟩
  · exact List.suffix_rfl (l := ts)

theorem leaves_expect_eof : ((expect .eof).run endLine ts).Leaves ts 0 := by
  rw [run_expect]
  split
  · exact ⟨List.tail_suffix _, by simp⟩
  · exact List.suffix_rfl (l := ts)

end Parser

end PL0
