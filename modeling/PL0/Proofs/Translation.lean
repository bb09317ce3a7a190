/-
What becomes of a text. It is translated, or it is refused for one of six causes, all of which lie in the text:
the yards on which expressions are built take all that is handed to them, and what is read can be written. Main
statement: `translate_eq_ok_or_refused`.
-/
import PL0.Proofs.JavaScript.Faithful
import PL0.Proofs.Reading.Calls
import PL0.Proofs.Reading.FirstFault

namespace PL0

namespace Fault

/-- The causes for which a text has no tokens. -/
def scanKinds : List Kind := [.unrecognized, .unterminatedComment, .numberTooLarge]

/-- The causes for which tokens are no program. -/
def readingKinds : List Kind := [.unexpected, .malformed, .unbalanced]

theorem Quotes.kind_mem {lexeme : String} {line : Nat} {fault : Fault} (h : fault.Quotes lexeme line) :
    fault.kind ∈ readingKinds := by
  cases h with
  | unexpected expected => exact (by decide : Kind.unexpected ∈ readingKinds)
  | unclosedAt => exact (by decide : Kind.unbalanced ∈ readingKinds)
  | notARelation => exact (by decide : Kind.malformed ∈ readingKinds)

end Fault

open Fault

theorem kind_unreadableAt_mem (p : Place) (cs : List Char) : (unreadableAt p cs).kind ∈ scanKinds := by
  unfold unreadableAt
  split
  · exact (by decide : Kind.unterminatedComment ∈ scanKinds)
  · exact (by decide : Kind.unrecognized ∈ scanKinds)

theorem Lexeme.kind_mem_of_token?_eq_error {lx : Lexeme} {line : Nat} {fault : Fault}
    (h : lx.token? line = .error fault) : fault.kind ∈ scanKinds := by
  obtain ⟨form, text⟩ := lx
  cases form with
  | number =>
    simp only [token?] at h
    split at h
    · cases h
    · cases h
      exact (by decide : Kind.numberTooLarge ∈ scanKinds)
  | blank | comment | word | symbol => cases h

theorem kind_mem_of_scanFrom_eq_error {p : Place} {cs : List Char} {fault : Fault}
    (h : scanFrom p cs = .error fault) : fault.kind ∈ scanKinds := by
  induction p, cs using scanFrom.induct with
  | case1 p =>
    rw [scanFrom_nil] at h
    cases h
  | case2 p cs hne hf =>
    rw [scanFrom_of_first?_eq_none hne hf] at h
    cases h
    exact kind_unreadableAt_mem p cs
  | case3 p cs hne lx rest hf _ ih =>
    rw [scanFrom_of_first? hf] at h
    cases ht : lx.token? p.line with
    | error fault' =>
      rw [ht] at h
      cases h
      exact Lexeme.kind_mem_of_token?_eq_error ht
    | ok token =>
      cases hs : scanFrom (p.after lx.text) rest with
      | error fault' =>
        rw [ht, hs] at h
        cases h
        exact ih hs
      | ok ts =>
        rw [ht, hs] at h
        cases h

theorem kind_mem_of_parseProgram_eq_error {tokens : List Token} {fault : Fault} (hv : Valued tokens)
    (h : parseProgram tokens = .error fault) : fault.kind ∈ readingKinds := by
  have hr : (Cursor.ofTokens tokens).readProgram = (.error fault, (Cursor.ofTokens tokens).readProgram.2) :=
    Prod.ext h rfl
  exact (Grammar.stops_program hv (Cursor.run_of_readProgram hr)).quotes.kind_mem

/-- **What becomes of a text.** It is translated, or it is refused because it has no tokens or its tokens are no
program. Wherever among its tokens an expression is read, no call on a yard fails, and every program that is
read can be written. -/
theorem translate_eq_ok_or_refused (config : JavaScript.Config) (source : String) :
    ((∃ text, translate config source = .ok text) ∨
      ∃ fault, translate config source = .error fault ∧ fault.kind ∈ scanKinds ++ readingKinds) ∧
    (∀ tokens, scan source = .ok tokens → ∀ ts, ts <:+ tokens → ∀ n endLine,
      (Watched.tree n).parser = Grammar.tree n ∧ ∀ call ∈ (Watched.tree n).calls endLine ts, call.Succeeds) ∧
    ∀ program, readSource source = .ok program → ∃ text, JavaScript.emit config program = .ok text := by
  have hemit : ∀ program, readSource source = .ok program →
      ∃ text, JavaScript.emit config program = .ok text := by
    intro program h
    exact ⟨_, emit_of_plain (plain_of_readSource h)⟩
  have hcalls : ∀ tokens, scan source = .ok tokens → ∀ ts, ts <:+ tokens → ∀ n endLine,
      (Watched.tree n).parser = Grammar.tree n ∧
        ∀ call ∈ (Watched.tree n).calls endLine ts, call.Succeeds := by
    intro tokens hs ts hts n endLine
    have hv : Valued ts := fun t ht => valued_of_scan hs t (hts.subset ht)
    exact ⟨Watched.parser_tree n, Watched.succeeds_of_mem_calls hv⟩
  refine ⟨?_, hcalls, hemit⟩
  cases hs : scan source with
  | error fault =>
    right
    refine ⟨fault, ?_, List.mem_append_left _ (kind_mem_of_scanFrom_eq_error hs)⟩
    rw [translate, readSource, hs]
    rfl
  | ok tokens =>
    cases hp : parseProgram tokens with
    | error fault =>
      right
      refine ⟨fault, ?_, List.mem_append_right _ (kind_mem_of_parseProgram_eq_error (valued_of_scan hs) hp)⟩
      rw [translate, readSource, hs]
      show (parseProgram tokens >>= _) = _
      rw [hp]
      rfl
    | ok program =>
      left
      have hread : readSource source = .ok program := by
        rw [readSource, hs]
        exact hp
      obtain ⟨text, ht⟩ := hemit program hread
      exact ⟨text, by rw [translate, hread]; exact ht⟩

end PL0
