/-
The place of a fault. A program is refused at the first word that is wrong: the words before it begin a program,
no program begins with them and it, and it is the word that the fault quotes. Main statement:
`refused_at_first_misplaced`.
-/
import PL0.Proofs.Reading.Foresight
import PL0.Proofs.Reading.Refusal
import PL0.Proofs.Scan.Append

namespace PL0

open Grammar

theorem Outcome.settle_eq_error {α : Type} {o : Outcome α} {h : o ≠ .exhausted} {fault : Fault}
    {rest : List Token} (he : o.settle h = (.error fault, rest)) : o = .failed fault rest := by
  cases o with
  | done a r => cases he
  | failed fault' r =>
    cases he
    rfl
  | exhausted => exact absurd rfl h

theorem Cursor.run_of_readProgram {c c' : Cursor} {fault : Fault} (h : c.readProgram = (.error fault, c')) :
    (program c.bound).run c.endLine c.ahead = .failed fault c'.ahead := by
  have hs := Prod.ext_iff.1 h
  refine Outcome.settle_eq_error (h := c.program_ne_exhausted) (Prod.ext hs.1 ?_)
  exact congrArg Cursor.ahead hs.2

variable {ts rest : List Token}

theorem valued_of_scan {source : String} (h : scan source = .ok ts) : Valued ts :=
  fun t ht => (value_ne_none_iff_of_scanFrom h t ht).2

theorem lineOf_of_pos {t : Token} (ht : 0 < t.line) (endLine : Nat) (rest : List Token) :
    lineOf endLine (t :: rest) = t.line := by
  rw [lineOf, frontOf_cons, if_neg]
  rintro ⟨-, h⟩
  omega

/-- What begins a program goes on to one that is accepted. -/
theorem parseProgram_of_beginning {d : Phrase.Program} {read missing : List Token}
    (h : d.words = read ++ missing) : ∃ p, parseProgram (read ++ missing) = .ok p := by
  refine ⟨d.tree, parseProgram_of_phrase d ?_⟩
  have he : beforeEnd (d.words ++ []) = d.words := beforeEnd_append d.kind_ne_eof rfl
  rw [← h, ← List.append_nil d.words, he, List.append_nil]

/-- Nothing that goes on with the words up to the one at which a program was refused is accepted. A bound that
is large enough for both is used to read both. -/
theorem parseProgram_ne_ok_of_refused {n endLine : Nat} {fault : Fault} {read : List Token} {t : Token}
    (h : (program n).run endLine (read ++ t :: rest) = .failed fault (t :: rest)) (more : List Token)
    (p : Program) : parseProgram (read ++ t :: more) ≠ .ok p := by
  intro hp
  obtain ⟨d, hd, -⟩ := phrase_of_parseProgram hp
  obtain ⟨after, hts, hafter⟩ := exists_beforeEnd_append (read ++ t :: more)
  rw [← hd] at hts
  let m : Nat := max n (3 * d.words.length + 4)
  have hdone : (program m).run endLine (d.words ++ after) = .done d.tree after.tail :=
    run_program d (Nat.le_max_right _ _) hafter
  obtain ⟨read', hread, hfailed⟩ := (follows_program (m := m) (Nat.le_max_left _ _)).failed h
  obtain rfl : read = read' := List.append_cancel_right hread
  obtain ⟨fault', hf⟩ := hfailed endLine more
  rw [hts, hdone] at hf
  cases hf

/-- **The place of a fault.** If the tokens of a text are refused as a program, they are refused at a token such
that some program begins with the tokens before it, none begins with these and it, and the fault quotes it. -/
theorem refused_at_first_misplaced {source : String} {tokens : List Token} {fault : Fault} {c : Cursor}
    (hs : scan source = .ok tokens) (hr : (Cursor.ofTokens tokens).readProgram = (.error fault, c)) :
    ∃ read t rest, tokens = read ++ t :: rest ∧ c.ahead = t :: rest ∧
      (∃ more p, parseProgram (read ++ more) = .ok p) ∧
      (∀ ts p, read ++ [t] <+: ts → parseProgram ts ≠ .ok p) ∧
      fault.Quotes t.lexeme t.line := by
  have hrun := Cursor.run_of_readProgram hr
  obtain ⟨⟨read, missing, d, hread, hd⟩, hq⟩ := stops_program (valued_of_scan hs) hrun
  have hts : tokens = read ++ c.ahead := hread
  cases hc : c.ahead with
  | nil =>
    -- all tokens would have been read, the end of the input with them
    exfalso
    obtain ⟨words, line, hw⟩ := exists_scanFrom_eq_append hs
    rw [hc, List.append_nil] at hts
    refine d.kind_ne_eof (.eof line) ?_ rfl
    rw [hd, ← hts, hw]
    simp
  | cons t rest =>
    rw [hc] at hts hq hrun
    have hline : 0 < t.line := line_le_of_scanFrom hs t (by simp [hts])
    have hstop : (program (Cursor.ofTokens tokens).bound).run (Cursor.ofTokens tokens).endLine
        (read ++ t :: rest) = .failed fault (t :: rest) := by
      rw [← hts]
      exact hrun
    refine ⟨read, t, rest, hts, rfl, ⟨missing, parseProgram_of_beginning hd⟩, ?_, ?_⟩
    · rintro ts p ⟨more, rfl⟩
      rw [List.append_assoc]
      exact parseProgram_ne_ok_of_refused hstop more p
    · rwa [frontOf_cons, lineOf_of_pos hline] at hq

/-- A sum in parentheses that are still open. -/
def openSum : List Token :=
  [.plain .write "!" 1, .plain .lparen "(" 1, ⟨.number, "1", some 1, 1⟩, .plain .plus "+" 1,
    ⟨.number, "2", some 2, 2⟩]

/-- The dot comes before the parenthesis is closed. -/
theorem refused_at_first_misplaced_dot :
    scan "! (1 +\n2." = .ok (openSum ++ [.plain .dot "." 2, .eof 2]) ∧
      (∃ more p, parseProgram (openSum ++ more) = .ok p) ∧
      (∀ ts p, openSum ++ [.plain .dot "." 2] <+: ts → parseProgram ts ≠ .ok p) ∧
      (Fault.unclosedAt "." 2).Quotes "." 2 := by
  have hs : scan "! (1 +\n2." = .ok (openSum ++ [.plain .dot "." 2, .eof 2]) := by cbv
  have hr : (Cursor.ofTokens (openSum ++ [.plain .dot "." 2, .eof 2])).readProgram =
      (.error (.unclosedAt "." 2), ⟨[.plain .dot "." 2, .eof 2], 2⟩) := by cbv
  obtain ⟨read, t, rest, hts, ha, hmore, hnone, hq⟩ := refused_at_first_misplaced hs hr
  cases ha
  obtain rfl : openSum = read := List.append_cancel_right hts
  exact ⟨hs, hmore, hnone, hq⟩

end PL0
