/-
Where results go that are given no path. A result is named after the stem of its input, but the extension of JavaScript
takes the place of what follows the last dot of the stem. So the name is the stem with the extension where the stem has
no dot of its own, and inputs of different names share a result where their stems have one stem: the later run then
writes over the result of the earlier one. Main statement: `outputPath_eq_iff`.
-/
import PL0.Proofs.Command.Run
import PL0.Proofs.File.Names

namespace PL0.Command

/-- The file name of the input is that of a program, and the result is given no path. -/
structure Options.Unnamed (o : Options) : Prop where
  accepted : Path.extension? o.path = some sourceExtension
  unasked : o.output = none

theorem outputPath_of_stem {o : Options} {stem : String} (ho : o.output = none) (hs : Path.stem? o.path = some stem) :
    o.outputPath = Path.replaceExtension stem "js" := by
  simp only [Options.outputPath, ho, hs, Option.getD_some]

/-- A run that ends well has written its result. -/
theorem written_of_perform {o : Options} {w w' : World} {ending : Ending}
    (h : (perform o : WorldM Ending).run w = (ending, w')) (hcode : ending.code = 0) :
    ∃ js, o.result w = .ok js ∧ w.folder.Written o.outputPath js w'.folder := by
  obtain ⟨text, hrun⟩ := comesTo_perform o w
  obtain ⟨rfl, rfl⟩ := Prod.mk.inj (h.symm.trans hrun)
  have hresult := code_translation o w
  cases ht : o.translation w.folder with
  | error fault =>
    rw [Options.outcome, ht] at hcode
    cases hcode
  | ok t =>
    have houtcome : o.outcome w = o.delivery w t.code := by rw [Options.outcome, ht]
    rw [ht] at hresult
    split at hresult
    · refine ⟨t.code, hresult.symm, ?_⟩
      rw [houtcome] at hcode ⊢
      cases hsave : w.folder.save o.outputPath t.code with
      | error fault =>
        simp only [Options.delivery, hsave] at hcode
        cases hcode
      | ok folder =>
        simp only [Options.delivery, hsave]
        exact Folder.written_of_save hsave
    · cases hresult

/-- A run that does not run its result ends well where the result can be written. -/
theorem exists_perform {o : Options} {w : World} {js : String} {folder : Folder} (hjs : o.result w = .ok js)
    (hsave : w.folder.save o.outputPath js = .ok folder) (hrun : o.on .run = false) :
    ∃ w', (perform o : WorldM Ending).run w = (.success, w') ∧ w'.folder = folder := by
  obtain ⟨t, ht, rfl⟩ := translation_eq_ok hjs
  have houtcome : o.outcome w = (.success, folder) := by
    rw [Options.outcome, ht]
    simp [Options.delivery, hsave, Options.ending, hrun]
  obtain ⟨text, hperform⟩ := comesTo_perform o w
  rw [houtcome] at hperform
  exact ⟨_, hperform, rfl⟩

/-- **Results without a path.** The result of an accepted input is named after the stem of the input exactly where the
stem has no dot behind its first character and is not a dot itself. Two inputs have one result exactly where their
stems are equal or have one stem; and of two runs that end well, one after the other, the first leaves its result, and
the second writes over it exactly then. -/
theorem outputPath_eq_iff {o o' : Options} (ho : o.Unnamed) (ho' : o'.Unnamed) :
    ∃ stem stem', Path.fileName? o.path = some (stem ++ "." ++ sourceExtension) ∧
      Path.fileName? o'.path = some (stem' ++ "." ++ sourceExtension) ∧
      Path.stem? o.path = some stem ∧ Path.stem? o'.path = some stem' ∧
      (o.outputPath = stem ++ ".js" ↔ stem ≠ "." ∧ '.' ∉ stem.toList.tail) ∧
      (o.outputPath = o'.outputPath ↔
        stem = stem' ∨ ∃ core, Path.stem? stem = some core ∧ Path.stem? stem' = some core) ∧
      ∀ w w₁ w₂ ending ending', (perform o : WorldM Ending).run w = (ending, w₁) → ending.code = 0 →
        (perform o' : WorldM Ending).run w₁ = (ending', w₂) → ending'.code = 0 →
        ∃ js js', o.result w = .ok js ∧ o'.result w₁ = .ok js' ∧
          w₂.folder.load o.outputPath = .ok (if o.outputPath = o'.outputPath then js' else js) := by
  obtain ⟨stem, hp, hname, hstem⟩ := Path.exists_stem_of_extension? ho.accepted
  obtain ⟨stem', hp', hname', hstem'⟩ := Path.exists_stem_of_extension? ho'.accepted
  have hout := outputPath_of_stem ho.unasked hstem
  have hout' := outputPath_of_stem ho'.unasked hstem'
  refine ⟨stem, stem', hname, hname', hstem, hstem', ?_, ?_, ?_⟩
  · have hjs : stem ++ ".js" = stem ++ "." ++ "js" := by
      rw [String.append_assoc]
      rfl
    rw [hout, hjs, hp.replaceExtension_eq_append_iff]
  · rw [hout, hout', hp.replaceExtension_eq_iff hp' (by decide)]
  · intro w w₁ w₂ ending ending' hrun hcode hrun' hcode'
    obtain ⟨js, hjs, hwritten⟩ := written_of_perform hrun hcode
    obtain ⟨js', hjs', hwritten'⟩ := written_of_perform hrun' hcode'
    have hpart : Path.IsPart o.outputPath := hout ▸ Path.isPart_replaceExtension hp (by decide)
    have hpart' : Path.IsPart o'.outputPath := hout' ▸ Path.isPart_replaceExtension hp' (by decide)
    exact ⟨js, js', hjs, hjs', Folder.load_of_written_twice hpart hpart' hwritten hwritten'⟩

/-- Nothing but the path is given. -/
def bare (path : String) : Options := ⟨path, none, 2, fun _ => false⟩

/-- A folder with two programs. -/
def shelf : World := ⟨⟨[(["a.pl0"], .file "! 1.".toUTF8), (["a.b.pl0"], .file "! 2.".toUTF8)]⟩, none, ""⟩

/-- The scripts that the programs are translated to. -/
def scripts : String × String :=
  (";(function () \x7b\n  console.log(1);\n\x7d());\n", ";(function () \x7b\n  console.log(2);\n\x7d());\n")

/-- Both programs are translated, and the second script takes the place of the first. -/
theorem outputPath_eq_iff_shelf :
    (bare "a.pl0").Unnamed ∧ (bare "a.b.pl0").Unnamed ∧ (bare "a.b.pl0").outputPath = "a.js" ∧
      ∃ ending w₁ ending' w₂,
        (perform (bare "a.pl0") : WorldM Ending).run shelf = (ending, w₁) ∧ ending.code = 0 ∧
        (perform (bare "a.b.pl0") : WorldM Ending).run w₁ = (ending', w₂) ∧ ending'.code = 0 ∧
        w₂.folder.load "a.js" = .ok scripts.2 := by
  have ho : (bare "a.pl0").Unnamed := ⟨rfl, rfl⟩
  have ho' : (bare "a.b.pl0").Unnamed := ⟨rfl, rfl⟩
  have hresult : (bare "a.pl0").result shelf = .ok scripts.1 := by
    have hsource : source shelf.folder (bare "a.pl0").path = .ok "! 1." := rfl
    rw [result_eq, hsource]
    cbv
  have hsave : shelf.folder.save (bare "a.pl0").outputPath scripts.1 =
      .ok (shelf.folder.put ["a.js"] scripts.1.toUTF8) := rfl
  obtain ⟨w₁, hrun, hfolder⟩ := exists_perform hresult hsave rfl
  have hresult' : (bare "a.b.pl0").result w₁ = .ok scripts.2 := by
    have hsource : source (shelf.folder.put ["a.js"] scripts.1.toUTF8) (bare "a.b.pl0").path = .ok "! 2." := rfl
    rw [result_eq, hfolder, hsource]
    cbv
  have hsave' : w₁.folder.save (bare "a.b.pl0").outputPath scripts.2 =
      .ok (w₁.folder.put ["a.js"] scripts.2.toUTF8) := by
    rw [hfolder]
    rfl
  obtain ⟨w₂, hrun', -⟩ := exists_perform hresult' hsave' rfl
  obtain ⟨stem, stem', -, -, -, -, -, -, hruns⟩ := outputPath_eq_iff ho ho'
  obtain ⟨js, js', -, hjs', hlast⟩ := hruns _ _ _ _ _ hrun rfl hrun' rfl
  obtain rfl := Except.ok.inj (hresult'.symm.trans hjs')
  exact ⟨ho, ho', rfl, _, w₁, _, w₂, hrun, rfl, hrun', rfl, hlast⟩

/-- The script of `a.b.pl0` is not `a.b.js`. -/
theorem outputPath_without_extension :
    ¬∀ (o : Options) (stem : String), o.Unnamed → Path.stem? o.path = some stem → o.outputPath = stem ++ ".js" := by
  intro h
  have hstem : (bare "a.b.pl0").outputPath = "a.b" ++ ".js" := h _ _ ⟨rfl, rfl⟩ rfl
  exact absurd hstem (by decide)

end PL0.Command
