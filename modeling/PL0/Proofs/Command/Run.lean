/-
The command against the functions that it is made of, and runs that differ in their reports alone. The run goes
through the phases one by one and does not call `translate`; still what it writes is what `translate` gives for the
text of the file, and where that fails no file is touched. Both are said of all options, in whatever words they were
asked for. Main statements: `perform_translates`, `perform_alike`.
-/
import Mathlib
import PL0.Proofs.Command.Outcome
import PL0.Proofs.File.Writing

namespace PL0.Command

/-! ## The run and the translation of the file -/

/-- What loading a program's file and translating its text give, one after the other. -/
def Options.result (o : Options) (w : World) : Except Fault String := do
  let source ← ((loadSource o.path : ExceptT Fault WorldM String).run.run w).1
  translate { JavaScript.Config.standard with indentWidth := o.indent, truncateDivision := o.on .truncDiv } source

theorem result_eq (o : Options) (w : World) : o.result w = source w.folder o.path >>= translate o.config := by
  rw [Options.result, run_loadSource]
  rfl

theorem isThere_of_source {f : Folder} {path text : String} (h : source f path = .ok text) :
    f.isThere path = true := by
  unfold source at h
  split at h
  · cases hwalk : f.walk path with
    | ok spot => simp [Folder.isThere, hwalk]
    | error fault =>
      rw [Folder.load, hwalk] at h
      cases h
  · cases h

/-- The code of a run's translation is the result of loading and translating, if there is an input. -/
theorem code_translation (o : Options) (w : World) : (o.translation w.folder).map (·.code) =
    if w.folder.isThere o.path = true then o.result w else .error (.noInput o.path) := by
  rw [Options.translation, result_eq]
  split
  · cases source w.folder o.path with
    | error fault => rfl
    | ok text =>
      show Except.map _ (scan text >>= _) = (scan text >>= _) >>= _
      cases scan text with
      | error fault => rfl
      | ok tokens =>
        show Except.map _ (parseProgram tokens >>= _) = parseProgram tokens >>= _
        cases parseProgram tokens with
        | error fault => rfl
        | ok program =>
          show Except.map _ (JavaScript.emit o.config program >>= _) = JavaScript.emit o.config program
          cases JavaScript.emit o.config program <;> rfl
  · rfl

theorem translation_eq_ok {o : Options} {w : World} {js : String} (h : o.result w = .ok js) :
    ∃ t, o.translation w.folder = .ok t ∧ t.code = js := by
  have hthere : w.folder.isThere o.path = true := by
    rw [result_eq] at h
    cases hs : source w.folder o.path with
    | ok text => exact isThere_of_source hs
    | error fault => rw [hs] at h; cases h
  have hcode := code_translation o w
  rw [if_pos hthere, h] at hcode
  cases ht : o.translation w.folder with
  | ok t => exact ⟨t, rfl, by rw [ht] at hcode; exact Except.ok.inj hcode⟩
  | error fault => rw [ht] at hcode; cases hcode

theorem translation_eq_error {o : Options} {w : World}
    (h : (∃ fault, o.result w = .error fault) ∨ w.folder.isThere o.path = false) :
    ∃ fault, o.translation w.folder = .error fault := by
  have hcode := code_translation o w
  cases ht : o.translation w.folder with
  | error fault => exact ⟨fault, rfl⟩
  | ok t =>
    rw [ht] at hcode
    split at hcode
    · rename_i hthere
      rcases h with ⟨fault, hr⟩ | hno
      · rw [hr] at hcode
        cases hcode
      · rw [hno] at hthere
        cases hthere
    · cases hcode

/-- A result was to be run, and no interpreter could be started or it failed. -/
def Options.RunFails (o : Options) (w : World) : Prop :=
  o.on .run = true ∧ ∀ run, w.interpreter = some run → (run o.outputPath).2 ≠ 0

theorem execution_some (o : Options) (run : String → String × Nat) : o.execution (some run) =
    if (run o.outputPath).2 = 0 then .ok 0 else .error (.exited (run o.outputPath).2) := by
  rw [Options.execution, interpretation]
  cases (run o.outputPath).2 <;> rfl

theorem code_ending (o : Options) (w : World) :
    (o.RunFails w → (o.ending w.interpreter).code = 1) ∧ (¬o.RunFails w → (o.ending w.interpreter).code = 0) := by
  rw [Options.RunFails, Options.ending]
  by_cases hon : o.on .run = true
  · rw [if_pos hon]
    cases hi : w.interpreter with
    | none => exact ⟨fun _ => rfl, fun hno => absurd ⟨hon, nofun⟩ hno⟩
    | some run =>
      rw [execution_some]
      by_cases hcode : (run o.outputPath).2 = 0
      · rw [if_pos hcode]
        exact ⟨fun hfails => absurd hcode (hfails.2 run rfl), fun _ => rfl⟩
      · rw [if_neg hcode]
        exact ⟨fun _ => rfl, fun hno => absurd ⟨hon, fun _ he => Option.some.inj he ▸ hcode⟩ hno⟩
  · rw [if_neg hon]
    exact ⟨fun hfails => absurd hfails.1 hon, fun _ => rfl⟩

/-- **The command translates as the library does, and it fails cleanly.** Where loading the input and translating its
text fails, or where there is no input, the run ends with code 1 and leaves every file as it was. Where they give a
text, either the output path cannot be written, with the same end; or what is written is that text, no other file is
different, and the run ends with code 0 unless the result was to be run and that failed. -/
theorem perform_translates (o : Options) (w : World) :
    ∃ ending w', (perform o : WorldM Ending).run w = (ending, w') ∧
      ((∃ fault, o.result w = .error fault) ∨ w.folder.isThere o.path = false →
        ending.code = 1 ∧ w'.folder = w.folder) ∧
      ∀ js, o.result w = .ok js →
        (∃ fault, w.folder.save o.outputPath js = .error fault ∧ ending.code = 1 ∧ w'.folder = w.folder) ∨
        w.folder.Written o.outputPath js w'.folder ∧
          (o.RunFails w → ending.code = 1) ∧ (¬o.RunFails w → ending.code = 0) := by
  obtain ⟨text, hrun⟩ := comesTo_perform o w
  refine ⟨_, _, hrun, fun hfails => ?_, fun js hjs => ?_⟩
  · obtain ⟨fault, ht⟩ := translation_eq_error hfails
    rw [Options.outcome, ht]
    exact ⟨rfl, rfl⟩
  · obtain ⟨t, ht, rfl⟩ := translation_eq_ok hjs
    rw [Options.outcome, ht]
    cases hsave : w.folder.save o.outputPath t.code with
    | error fault =>
      left
      simp only [Options.delivery, hsave]
      exact ⟨fault, rfl, rfl, rfl⟩
    | ok folder =>
      right
      simp only [Options.delivery, hsave]
      exact ⟨Folder.written_of_save hsave, code_ending o w⟩

/-- A folder with one program, and an interpreter that ends with code 3. -/
def workshop : World :=
  ⟨⟨[(["a.pl0"], .file "! 7 / 2.".toUTF8)]⟩, some fun path => ("ran " ++ path ++ "\n", 3), ""⟩

/-- The script that the program is translated to. -/
def halves : String := ";(function () \x7b\n  console.log(Math.trunc((7/2)));\n\x7d());\n"

/-- The program is to be translated to `b.js` with quotients cut, and the script is to be run. -/
def order : Options := ⟨"a.pl0", some "b.js", 2, fun s => s ∈ [Switch.truncDiv, .run, .verbose]⟩

/-- The script is written, and its run fails. -/
theorem perform_translates_workshop : ∃ ending w', order.result workshop = .ok halves ∧
    (perform order : WorldM Ending).run workshop = (ending, w') ∧ ending.code = 1 ∧
      w'.folder.load "b.js" = .ok halves := by
  have hresult : order.result workshop = .ok halves := by cbv
  have htarget : workshop.folder.target "b.js" = .ok (.inside ["b.js"]) := rfl
  obtain ⟨ending, w', hrun, -, hwritten⟩ := perform_translates order workshop
  refine ⟨ending, w', hresult, hrun, ?_⟩
  rcases hwritten halves hresult with ⟨fault, hsave, -⟩ | ⟨hwritten, hfails, -⟩
  · rw [Folder.save, show order.outputPath = "b.js" from rfl, htarget] at hsave
    cases hsave
  · have hcode : ending.code = 1 := hfails ⟨rfl, fun run he => Option.some.inj he ▸ (by decide : 3 ≠ 0)⟩
    generalize w'.folder = folder at hwritten ⊢
    cases hwritten with
    | inside _ loads _ => exact ⟨hcode, loads⟩
    | outside leads =>
      rw [show order.outputPath = "b.js" from rfl, htarget] at leads
      cases leads

/-! ## Reports -/

/-- What is switched on only to report. -/
def Switch.reports : Switch → Bool
  | printTokens | showAst | printJs | verbose | timing => true
  | truncDiv | run => false

/-- Options that differ in nothing but the reports. -/
structure Options.Alike (o o' : Options) : Prop where
  path : o.path = o'.path
  output : o.output = o'.output
  indent : o.indent = o'.indent
  on : ∀ s, s.reports = false → o.on s = o'.on s

theorem outcome_alike {o o' : Options} (h : o.Alike o') (w : World) : o.outcome w = o'.outcome w := by
  have hconfig : o.config = o'.config := by rw [Options.config, Options.config, h.indent, h.on .truncDiv rfl]
  have hpath : o.outputPath = o'.outputPath := by rw [Options.outputPath, Options.outputPath, h.output, h.path]
  have htranslation : o.translation w.folder = o'.translation w.folder := by
    rw [Options.translation, Options.translation, h.path, hconfig]
  have hending : o.ending w.interpreter = o'.ending w.interpreter := by
    rw [Options.ending, Options.ending, Options.execution, Options.execution, hpath, h.on .run rfl]
  have hdelivery : ∀ code, o.delivery w code = o'.delivery w code := fun code => by
    rw [Options.delivery, Options.delivery, hpath, hending]
  simp only [Options.outcome, htranslation, hdelivery]

/-- **Reports change nothing.** Two runs with options that differ in nothing but the reports end alike, with the same
code and the same complaint, and leave the same files. -/
theorem perform_alike {o o' : Options} (halike : o.Alike o') (w : World) :
    ∃ ending w₁ w₂, (perform o : WorldM Ending).run w = (ending, w₁) ∧
      (perform o' : WorldM Ending).run w = (ending, w₂) ∧ w₁.folder = w₂.folder := by
  obtain ⟨text, hrun⟩ := comesTo_perform o w
  obtain ⟨text', hrun'⟩ := comesTo_perform o' w
  rw [← outcome_alike halike w] at hrun'
  exact ⟨_, _, _, hrun, hrun', rfl⟩

/-- The same order with all reports. -/
def loudOrder : Options := { order with on := fun s => s.reports || order.on s }

/-- One report, and all of them. -/
theorem perform_alike_order : order.Alike loudOrder ∧ ∃ ending w₁ w₂,
    (perform order : WorldM Ending).run workshop = (ending, w₁) ∧
      (perform loudOrder : WorldM Ending).run workshop = (ending, w₂) ∧ w₁.folder = w₂.folder := by
  have halike : order.Alike loudOrder := ⟨rfl, rfl, rfl, fun s hs => by simp [loudOrder, hs]⟩
  exact ⟨halike, perform_alike halike workshop⟩

end PL0.Command
