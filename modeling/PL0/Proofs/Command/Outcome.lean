/-
What a run of the command comes to, reports aside. Most of what a run does is to look at the world and to print; such
a part of a run gives its result and leaves the world as it is but for the transcript. So the reports can be left out
phase by phase, and what remains is a function of the files and of the interpreter: how the run ends, and the folder
that it leaves. Main statement: `comesTo_perform`.
-/
import PL0.Command.Run

namespace PL0.Command

namespace World

theorem tell_empty (w : World) : w.tell "" = w := by simp [tell]

theorem tell_tell (w : World) (text text' : String) : (w.tell text).tell text' = w.tell (text ++ text') := by
  simp [tell, String.append_assoc]

theorem interpreter_tell (w : World) (text : String) : (w.tell text).interpreter = w.interpreter := rfl

end World

/-! ## Results, folders and reports -/

/-- What is done gives a result and leaves a folder, and all else that it does to a world is to print. -/
def ComesTo {α : Type} (x : WorldM α) (w : World) (a : α) (f : Folder) : Prop :=
  ∃ text, x.run w = (a, { w with folder := f }.tell text)

namespace ComesTo

variable {α β : Type} {w : World} {a : α} {b : β} {f f' : Folder}

theorem pure (a : α) (w : World) : ComesTo (pure a) w a w.folder := ⟨"", by rw [World.tell_empty]; rfl⟩

theorem tell (text : String) (w : World) : ComesTo (Host.tell text) w () w.folder := ⟨text, rfl⟩

theorem bind {x : WorldM α} {k : α → WorldM β} (hx : ComesTo x w a f)
    (hk : ∀ text, ComesTo (k a) ({ w with folder := f }.tell text) b f') : ComesTo (x >>= k) w b f' := by
  obtain ⟨text, hx⟩ := hx
  obtain ⟨text', hk⟩ := hk text
  refine ⟨text ++ text', ?_⟩
  rw [StateT.run_bind, hx, ← World.tell_tell]
  exact hk

/-- A report before what follows. -/
theorem report {reported : Bool} {text : String} {k : Unit → WorldM α}
    (h : ∀ text, ComesTo (k ()) (w.tell text) a f) :
    ComesTo (if reported = true then Host.tell text >>= k else k ()) w a f := by
  cases reported with
  | false => exact w.tell_empty ▸ h ""
  | true => exact (ComesTo.tell text w).bind h

end ComesTo

/-- What is done gives a result or fails, and it only prints. -/
def Yields {α : Type} (x : ExceptT Fault WorldM α) (w : World) (r : Except Fault α) : Prop := ComesTo x.run w r w.folder

namespace Yields

variable {α β : Type} {w : World}

theorem pure (a : α) (w : World) : Yields (pure a) w (.ok a) := ComesTo.pure _ _

theorem throw (fault : Fault) (w : World) : Yields (throw fault : ExceptT Fault WorldM α) w (.error fault) :=
  ComesTo.pure _ _

theorem bind {x : ExceptT Fault WorldM α} {k : α → ExceptT Fault WorldM β} {r : Except Fault α}
    {g : α → Except Fault β} (hx : Yields x w r) (hk : ∀ a text, Yields (k a) (w.tell text) (g a)) :
    Yields (x >>= k) w (r >>= g) := by
  rw [Yields, ExceptT.run_bind]
  refine ComesTo.bind hx fun text => ?_
  cases r with
  | error fault => exact ComesTo.pure _ _
  | ok a => exact hk a text

/-- What cannot fail, before what follows. -/
theorem next {x : ExceptT Fault WorldM α} {k : α → ExceptT Fault WorldM β} {a : α} {r : Except Fault β}
    (hx : Yields x w (.ok a)) (hk : ∀ text, Yields (k a) (w.tell text) r) : Yields (x >>= k) w r := by
  rw [Yields, ExceptT.run_bind]
  exact ComesTo.bind hx hk

theorem ite {p : Prop} [Decidable p] {x y : ExceptT Fault WorldM α} {r r' : Except Fault α} (hx : Yields x w r)
    (hy : Yields y w r') : Yields (if p then x else y) w (if p then r else r') := by
  split
  · exact hx
  · exact hy

theorem tellIf (reported : Bool) (text : String) (w : World) : Yields (tellIf reported text) w (.ok ()) := by
  cases reported with
  | false => exact ComesTo.pure _ _
  | true => exact ⟨text, rfl⟩

theorem now (w : World) : Yields now w (.ok 0) := ⟨"", by rw [World.tell_empty]; rfl⟩

theorem orFail (r : Except Fault α) (w : World) : Yields (orFail r) w r := by
  cases r with
  | ok a => exact ComesTo.pure _ _
  | error fault => exact ComesTo.pure _ _

end Yields

/-! ## Translating a file -/

theorem yields_isThere (path : String) (w : World) :
    Yields (ExceptT.lift (Host.isThere path)) w (.ok (w.folder.isThere path)) :=
  ⟨"", by rw [World.tell_empty]; rfl⟩

/-- The text of a program's file in a folder. -/
def source (f : Folder) (path : String) : Except Fault String :=
  if Path.extension? path = some sourceExtension then (f.load path).mapError fun fault => .system fault.message
  else .error .wrongExtension

theorem run_loadSource (path : String) (w : World) :
    (loadSource path : ExceptT Fault WorldM String).run.run w = (source w.folder path, w) := by
  unfold source loadSource
  split
  · have hload : (ExceptT.lift (Host.load path) : ExceptT Fault WorldM (Except FileFault String)).run.run w =
        (.ok (w.folder.load path), w) := rfl
    rw [ExceptT.run_bind, StateT.run_bind, hload]
    cases w.folder.load path <;> rfl
  · rfl

theorem yields_loadSource (path : String) (w : World) : Yields (loadSource path) w (source w.folder path) :=
  ⟨"", by rw [World.tell_empty]; exact run_loadSource path w⟩

/-- The translation that a run comes to with the files of a folder. -/
def Options.translation (o : Options) (f : Folder) : Except Fault Translation :=
  if f.isThere o.path = true then do
    let source ← source f o.path
    let tokens ← scan source
    let program ← parseProgram tokens
    let code ← JavaScript.emit o.config program
    return ⟨code, ⟨0, 0, 0, 0, 0⟩, ⟨tokens.length, program.nodeCount, Text.lineCount code⟩⟩
  else .error (.noInput o.path)

theorem yields_translateFile (o : Options) (w : World) : Yields (translateFile o) w (o.translation w.folder) := by
  unfold translateFile
  refine (Yields.now _).next fun _ => (Yields.tellIf _ _ _).next fun _ => (yields_isThere _ _).next fun _ => ?_
  refine Yields.ite ?_ (Yields.throw _ _)
  refine (yields_loadSource _ _).bind fun source _ => (Yields.tellIf _ _ _).next fun _ => ?_
  refine (Yields.now _).next fun _ => (Yields.orFail (scan source) _).bind fun tokens _ => ?_
  refine (Yields.now _).next fun _ => (Yields.tellIf _ _ _).next fun _ => (Yields.tellIf _ _ _).next fun _ => ?_
  refine (Yields.now _).next fun _ => (Yields.orFail (parseProgram tokens) _).bind fun program _ => ?_
  refine (Yields.now _).next fun _ => (Yields.tellIf _ _ _).next fun _ => (Yields.tellIf _ _ _).next fun _ => ?_
  refine (Yields.now _).next fun _ => (Yields.orFail (JavaScript.emit o.config program) _).bind fun code _ => ?_
  refine (Yields.now _).next fun _ => (Yields.tellIf _ _ _).next fun _ => (Yields.tellIf _ _ _).next fun _ => ?_
  exact (Yields.now _).next fun _ => (Yields.tellIf _ _ _).next fun _ => Yields.pure _ _

/-! ## Running a result -/

/-- What an interpreter makes of a file, if there is one. -/
def interpretation (interpreter : Option (String → String × Nat)) (path : String) : Except FileFault Nat :=
  match interpreter with
  | some run => .ok (run path).2
  | none => .error .missing

theorem yields_interpret (path : String) (w : World) :
    Yields (ExceptT.lift (Host.interpret path)) w (.ok (interpretation w.interpreter path)) := by
  obtain ⟨folder, interpreter, transcript⟩ := w
  cases interpreter with
  | none => exact ⟨"", by rw [World.tell_empty]; rfl⟩
  | some run => exact ⟨(run path).1, rfl⟩

/-- What comes of running a result. -/
def Options.execution (o : Options) (interpreter : Option (String → String × Nat)) : Except Fault Nat :=
  match interpretation interpreter o.outputPath with
  | .error fault => .error (.notStarted fault.message)
  | .ok 0 => .ok 0
  | .ok code => .error (.exited code)

theorem yields_execute (o : Options) (w : World) : Yields (execute o) w (o.execution w.interpreter) := by
  unfold execute Options.execution
  refine (Yields.now _).next fun _ => (Yields.tellIf _ _ _).next fun _ => (yields_interpret _ _).next fun _ => ?_
  simp only [World.interpreter_tell]
  cases interpretation w.interpreter o.outputPath with
  | error fault => exact Yields.throw _ _
  | ok code =>
    cases code with
    | zero => exact (Yields.now _).next fun _ => Yields.pure _ _
    | succ code => exact Yields.throw _ _

/-! ## The whole run -/

theorem comesTo_finish (o : Options) (t : Translation) (w : World) : ComesTo (finish o t) w .success w.folder := by
  unfold finish
  refine ComesTo.report (k := fun _ => _) fun _ => ?_
  refine ComesTo.report (k := fun _ => _) fun _ => ?_
  exact ComesTo.pure _ _

/-- How a run ends that has written its result. -/
def Options.ending (o : Options) (interpreter : Option (String → String × Nat)) : Ending :=
  if o.on .run = true then
    match o.execution interpreter with
    | .error fault => .failure ("Execution failed: " ++ fault.message)
    | .ok _ => .success
  else .success

/-- How a run ends that has a result, and the folder that it leaves. -/
def Options.delivery (o : Options) (w : World) (code : String) : Ending × Folder :=
  match w.folder.save o.outputPath code with
  | .error fault =>
    (.failure ("Failed to write output file '" ++ o.outputPath ++ "': " ++ fault.message), w.folder)
  | .ok folder => (o.ending w.interpreter, folder)

theorem comesTo_save_ok {path text : String} {w : World} {folder : Folder}
    (h : w.folder.save path text = .ok folder) : ComesTo (Host.save path text) w (.ok ()) folder := by
  refine ⟨"", ?_⟩
  simp only [Host.save, StateT.run, h, World.tell_empty]

theorem comesTo_save_error {path text : String} {w : World} {fault : FileFault}
    (h : w.folder.save path text = .error fault) : ComesTo (Host.save path text) w (.error fault) w.folder := by
  refine ⟨"", ?_⟩
  simp only [Host.save, StateT.run, h, World.tell_empty]

theorem comesTo_deliver (o : Options) (t : Translation) (w : World) :
    ComesTo (deliver o t) w (o.delivery w t.code).1 (o.delivery w t.code).2 := by
  unfold deliver Options.delivery
  cases hsave : w.folder.save o.outputPath t.code with
  | error fault =>
    exact (comesTo_save_error hsave).bind fun _ => ComesTo.pure _ _
  | ok folder =>
    refine (comesTo_save_ok hsave).bind fun _ => ComesTo.report (k := fun _ => _) fun _ => ?_
    unfold Options.ending
    split
    · refine ComesTo.bind (yields_execute o _) fun _ => ?_
      simp only [World.interpreter_tell]
      cases o.execution w.interpreter with
      | error fault => exact ComesTo.pure _ _
      | ok time => exact comesTo_finish _ _ _
    · exact comesTo_finish _ _ _

/-- What a run comes to in a world: how it ends, and the folder that it leaves. -/
def Options.outcome (o : Options) (w : World) : Ending × Folder :=
  match o.translation w.folder with
  | .error fault => (.failure ("Translation failed: " ++ fault.message), w.folder)
  | .ok t => o.delivery w t.code

/-- A run comes to its outcome and prints its reports. -/
theorem comesTo_perform (o : Options) (w : World) : ComesTo (perform o) w (o.outcome w).1 (o.outcome w).2 := by
  unfold perform Options.outcome
  refine ComesTo.bind (yields_translateFile o w) fun text => ?_
  cases o.translation w.folder with
  | error fault => exact ComesTo.pure _ _
  | ok t => exact comesTo_deliver o t _

end PL0.Command
