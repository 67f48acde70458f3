import Mathlib
import MathMarkup.Document.Writers
import MathMarkup.Proofs.Document.Insertion

/-!
# Overlapping insertions

Writers that read a document and replace it later may overwrite each other's work, but every text
that one of them holds, like the file itself, is the document with the insertions of some writers
around its body. No write moves a marker, and none counts twice.
-/
namespace MathMarkup

/-- What an export puts into its file. -/
def Export.insertion (x : Export) : Insertion := ⟨x.options.mode.splice, x.wrapped⟩

namespace Writers

variable {insertions : Nat → Insertion} {scene : Scene} {actions : List Action} {w : Nat}

/-! ## Single actions -/

/-- What an action makes of a scene. -/
inductive Acted (insertions : Nat → Insertion) (scene : Scene) : Action → Scene → Prop
  | idle (a : Action) : Acted insertions scene a scene
  | read {w : Nat} (hphase : scene.phase w = .waiting) :
      Acted insertions scene (.read w) (scene.enter w (.holding scene.file))
  | written {w : Nat} {seen text : Text} (hphase : scene.phase w = .holding seen)
      (hresult : (insertions w).splice.result? seen (insertions w).text = some text) :
      Acted insertions scene (.write w) { scene.enter w .finished with file := text }
  | failed {w : Nat} {seen : Text} (hphase : scene.phase w = .holding seen)
      (hresult : (insertions w).splice.result? seen (insertions w).text = none) :
      Acted insertions scene (.write w) (scene.enter w .failed)

theorem acted_act (insertions : Nat → Insertion) (scene : Scene) (a : Action) :
    Acted insertions scene a (act insertions scene a) := by
  cases a with
  | read w =>
    simp only [act]
    split
    · next hphase => exact .read hphase
    · exact .idle _
  | write w =>
    simp only [act]
    split
    · next seen hphase =>
      split
      · next text hresult => exact .written hphase hresult
      · next hresult => exact .failed hphase hresult
    · exact .idle _

/-- A writer that has finished or failed stays so, and one that holds a text stays so until then. -/
inductive Moved (file : Text) : Phase → Phase → Prop
  | still (p : Phase) : Moved file p p
  | read : Moved file .waiting (.holding file)
  | finished (seen : Text) : Moved file (.holding seen) .finished
  | failed (seen : Text) : Moved file (.holding seen) .failed

theorem moved_act (insertions : Nat → Insertion) (scene : Scene) (a : Action) (w : Nat) :
    Moved scene.file (scene.phase w) ((act insertions scene a).phase w) := by
  have hacted := acted_act insertions scene a
  generalize act insertions scene a = after at hacted ⊢
  cases hacted with
  | idle => exact .still _
  | @read v hphase =>
    by_cases hw : w = v
    · subst hw
      simpa [hphase] using Moved.read
    · simpa [hw] using Moved.still _
  | @written v seen text hphase hresult =>
    by_cases hw : w = v
    · subst hw
      simpa [hphase] using Moved.finished seen
    · simpa [hw] using Moved.still _
  | @failed v seen hphase hresult =>
    by_cases hw : w = v
    · subst hw
      simpa [hphase] using Moved.failed seen
    · simpa [hw] using Moved.still _

/-- The file changes with a writer that finishes, and only then. -/
theorem file_act (insertions : Nat → Insertion) (scene : Scene) (a : Action) :
    (act insertions scene a).file = scene.file ∨
      ∃ w, scene.phase w ≠ .finished ∧ (act insertions scene a).phase w = .finished := by
  have hacted := acted_act insertions scene a
  generalize act insertions scene a = after at hacted ⊢
  cases hacted with
  | idle => exact Or.inl rfl
  | read => exact Or.inl rfl
  | @written w seen text hphase hresult => exact Or.inr ⟨w, by simp [hphase], by simp⟩
  | failed => exact Or.inl rfl

/-! ## Runs -/

theorem run_cons (insertions : Nat → Insertion) (scene : Scene) (a : Action)
    (actions : List Action) :
    run insertions scene (a :: actions) = run insertions (act insertions scene a) actions := rfl

theorem run_append (insertions : Nat → Insertion) (scene : Scene) (past actions : List Action) :
    run insertions scene (past ++ actions) = run insertions (run insertions scene past) actions :=
  List.foldl_append

/-- A writer does nothing more once it has finished or failed. -/
theorem phase_run_of_settled {p : Phase} (hp : p = .finished ∨ p = .failed)
    (h : scene.phase w = p) (actions : List Action) : (run insertions scene actions).phase w = p := by
  induction actions generalizing scene with
  | nil => exact h
  | cons a actions ih =>
    refine ih ?_
    have hmoved := moved_act insertions scene a w
    rw [h] at hmoved
    generalize (act insertions scene a).phase w = next at hmoved
    rcases hp with rfl | rfl <;> cases hmoved <;> rfl

theorem phase_run_of_finished (h : scene.phase w = .finished) (actions : List Action) :
    (run insertions scene actions).phase w = .finished :=
  phase_run_of_settled (Or.inl rfl) h actions

theorem phase_run_of_holding {seen : Text} (h : scene.phase w = .holding seen)
    (actions : List Action) : (run insertions scene actions).phase w = .holding seen ∨
      (run insertions scene actions).phase w = .finished ∨
      (run insertions scene actions).phase w = .failed := by
  induction actions generalizing scene with
  | nil => exact Or.inl h
  | cons a actions ih =>
    have hmoved := moved_act insertions scene a w
    rw [h] at hmoved
    rw [run_cons]
    generalize hphase : (act insertions scene a).phase w = next at hmoved
    cases hmoved with
    | still => exact ih hphase
    | finished => exact Or.inr (Or.inl (phase_run_of_finished hphase actions))
    | failed => exact Or.inr (Or.inr (phase_run_of_settled (Or.inr rfl) hphase actions))

/-- The file stays the same while no writer finishes. -/
theorem file_run (h : ∀ w, (run insertions scene actions).phase w = .finished →
    scene.phase w = .finished) : (run insertions scene actions).file = scene.file := by
  induction actions generalizing scene with
  | nil => rfl
  | cons a actions ih =>
    rw [run_cons] at h ⊢
    have hstep : ∀ w, scene.phase w = .finished → (act insertions scene a).phase w = .finished :=
      fun w hw => phase_run_of_finished hw [a]
    rw [ih fun w hw => hstep w (h w hw)]
    refine (file_act insertions scene a).resolve_right ?_
    rintro ⟨w, hunfinished, hfinished⟩
    exact hunfinished (h w (phase_run_of_finished hfinished actions))

/-! ## Documents with insertions of some writers -/

/-- The scene after actions on a file that nobody has read before. -/
def sceneAfter (exports : Nat → Export) (start : Text) (actions : List Action) : Scene :=
  run (fun w => (exports w).insertion) (.start start) actions

theorem sceneAfter_append (exports : Nat → Export) (start : Text) (past actions : List Action) :
    sceneAfter exports start (past ++ actions) =
      run (fun w => (exports w).insertion) (sceneAfter exports start past) actions :=
  run_append ..

theorem sceneAfter_concat (exports : Nat → Export) (start : Text) (past : List Action) (a : Action) :
    sceneAfter exports start (past ++ [a]) =
      act (fun w => (exports w).insertion) (sceneAfter exports start past) a :=
  sceneAfter_append ..

/-- At some time the first writer had finished, and the second had not. -/
def FinishesBefore (exports : Nat → Export) (start : Text) (actions : List Action) (w v : Nat) :
    Prop :=
  ∃ past, past <+: actions ∧ (sceneAfter exports start past).phase w = .finished ∧
    (sceneAfter exports start past).phase v ≠ .finished

/-- A text is the document with the insertions of some writers, all of whom have written, in the
order of their writes: the latest first before the body, the latest last behind it. -/
structure Records (exports : Nat → Export) (before body after start : Text)
    (actions : List Action) (kept : List Nat) (text : Text) : Prop where
  nodup : kept.Nodup
  finished : ∀ w ∈ kept, (sceneAfter exports start actions).phase w = .finished
  ordered : kept.Pairwise (FinishesBefore exports start actions)
  text_eq : text = before ++ documentBegin ++
    ((Export.contentsOf .afterBegin (kept.map exports)).reverse.flatten ++ body ++
      (Export.contentsOf .beforeEnd (kept.map exports)).flatten) ++ documentEnd ++ after

section

variable {exports : Nat → Export} {before body after start text : Text} {kept : List Nat}

theorem Records.later (h : Records exports before body after start actions kept text)
    (more : List Action) :
    Records exports before body after start (actions ++ more) kept text := by
  refine ⟨h.nodup, fun w hw => ?_, h.ordered.imp ?_, h.text_eq⟩
  · rw [sceneAfter_append]
    exact phase_run_of_finished (h.finished w hw) more
  · rintro w v ⟨past, hpast, hphases⟩
    exact ⟨past, hpast.trans (List.prefix_append _ _), hphases⟩

theorem Records.isDocument (h : Records exports before body after start actions kept text)
    (hstart : IsDocument before body after start) :
    IsDocument before ((kept.map exports).foldl (fun body x => x.inserted body) body) after
      text := by
  rw [h.text_eq, Export.foldl_inserted]
  exact hstart.change_body _

/-- A write leaves all that the writer has seen, and its own insertion. -/
theorem Records.insert (hstart : IsDocument before body after start)
    (h : Records exports before body after start actions kept text)
    (hmode : (exports w).options.mode ≠ .override)
    (hphase : (sceneAfter exports start actions).phase w = .holding text) :
    ∃ new, act (fun w => (exports w).insertion) (sceneAfter exports start actions) (.write w) =
        { (sceneAfter exports start actions).enter w .finished with file := new } ∧
      Records exports before body after start (actions ++ [.write w]) (kept ++ [w]) new := by
  obtain ⟨new, hresult, hnew⟩ := Export.exists_result? (h.isDocument hstart) (exports w) hmode
  have hact : act (fun w => (exports w).insertion) (sceneAfter exports start actions) (.write w) =
      { (sceneAfter exports start actions).enter w .finished with file := new } := by
    simp only [act, hphase, Export.insertion, hresult]
  have hlater := h.later [.write w]
  have hfresh : w ∉ kept := by
    intro hw
    rw [h.finished w hw] at hphase
    cases hphase
  refine ⟨new, hact, ?_, ?_, ?_, ?_⟩
  · exact List.nodup_append.2 ⟨h.nodup, List.nodup_singleton w, by
      rintro v hv _ hw rfl
      cases List.mem_singleton.1 hw
      exact hfresh hv⟩
  · intro v hv
    rcases List.mem_append.1 hv with hv | hv
    · exact hlater.finished v hv
    · cases List.mem_singleton.1 hv
      rw [sceneAfter_concat, hact]
      simp
  · refine List.pairwise_append.2 ⟨hlater.ordered, List.pairwise_singleton _ _, ?_⟩
    intro v hv _ hw
    cases List.mem_singleton.1 hw
    exact ⟨actions, List.prefix_append _ _, h.finished v hv, by simp [hphase]⟩
  · rw [hnew.text_eq, ← Export.foldl_inserted, List.map_append, List.foldl_append]
    rfl

/-- The file, and every text that a writer holds, records some writers, and no writer has failed. -/
structure IsConsistent (exports : Nat → Export) (before body after start : Text)
    (actions : List Action) : Prop where
  file : ∃ kept, Records exports before body after start actions kept
    (sceneAfter exports start actions).file
  seen : ∀ w text, (sceneAfter exports start actions).phase w = .holding text →
    ∃ kept, Records exports before body after start actions kept text
  unfailed : ∀ w, (sceneAfter exports start actions).phase w ≠ .failed

theorem isConsistent_nil (hstart : IsDocument before body after start) :
    IsConsistent exports before body after start [] := by
  refine ⟨⟨[], List.nodup_nil, by simp, List.Pairwise.nil, ?_⟩, ?_, ?_⟩
  · have hfile : (sceneAfter exports start []).file = start := rfl
    simpa [hfile, Export.contentsOf] using hstart.text_eq
  · rintro w text ⟨⟩
  · rintro w ⟨⟩

namespace IsConsistent

variable {a : Action}

theorem of_eq (h : IsConsistent exports before body after start actions)
    (hscene : sceneAfter exports start (actions ++ [a]) = sceneAfter exports start actions) :
    IsConsistent exports before body after start (actions ++ [a]) := by
  obtain ⟨kept, hkept⟩ := h.file
  refine ⟨⟨kept, ?_⟩, fun w text hphase => ?_, fun w => ?_⟩
  · rw [hscene]
    exact hkept.later [a]
  · rw [hscene] at hphase
    obtain ⟨kept, hkept⟩ := h.seen w text hphase
    exact ⟨kept, hkept.later [a]⟩
  · rw [hscene]
    exact h.unfailed w

/-- One writer goes on, to a phase that keeps the scene consistent. -/
theorem of_enter (h : IsConsistent exports before body after start actions) {p : Phase}
    {file : Text} (hscene : sceneAfter exports start (actions ++ [a]) =
      { (sceneAfter exports start actions).enter w p with file := file })
    (hfile : ∃ kept, Records exports before body after start (actions ++ [a]) kept file)
    (hseen : ∀ text, p = .holding text → text = file) (hunfailed : p ≠ .failed) :
    IsConsistent exports before body after start (actions ++ [a]) := by
  have hphase : ∀ v, (sceneAfter exports start (actions ++ [a])).phase v =
      if v = w then p else (sceneAfter exports start actions).phase v := by
    intro v
    rw [hscene]
    rfl
  refine ⟨by rw [hscene]; exact hfile, fun v text hv => ?_, fun v hv => ?_⟩
  · rw [hphase] at hv
    split at hv
    · rw [hseen text hv]
      exact hfile
    · obtain ⟨kept, hkept⟩ := h.seen v text hv
      exact ⟨kept, hkept.later [a]⟩
  · rw [hphase] at hv
    split at hv
    · exact hunfailed hv
    · exact h.unfailed v hv

theorem write (hstart : IsDocument before body after start)
    (hmode : (exports w).options.mode ≠ .override)
    (h : IsConsistent exports before body after start actions)
    (hphase : (sceneAfter exports start actions).phase w = .holding text) :
    IsConsistent exports before body after start (actions ++ [.write w]) := by
  obtain ⟨kept, hkept⟩ := h.seen w text hphase
  obtain ⟨new, hact, hnew⟩ := hkept.insert hstart hmode hphase
  have hscene := sceneAfter_concat exports start actions (.write w)
  rw [hact] at hscene
  exact h.of_enter hscene ⟨kept ++ [w], hnew⟩ (by simp) (by simp)

theorem concat (hstart : IsDocument before body after start)
    (hmode : ∀ w, (exports w).options.mode ≠ .override)
    (h : IsConsistent exports before body after start actions) (a : Action) :
    IsConsistent exports before body after start (actions ++ [a]) := by
  have hscene := sceneAfter_concat exports start actions a
  have hacted := acted_act (fun w => (exports w).insertion) (sceneAfter exports start actions) a
  rw [← hscene] at hacted
  generalize hnext : sceneAfter exports start (actions ++ [a]) = next at hacted
  cases hacted with
  | idle => exact h.of_eq hnext
  | read =>
    obtain ⟨kept, hkept⟩ := h.file
    exact h.of_enter hnext ⟨kept, hkept.later _⟩ (by simp) (by simp)
  | written hphase => exact h.write hstart (hmode _) hphase
  | failed hphase => exact h.write hstart (hmode _) hphase

end IsConsistent

theorem isConsistent (hstart : IsDocument before body after start)
    (hmode : ∀ w, (exports w).options.mode ≠ .override) (actions : List Action) :
    IsConsistent exports before body after start actions := by
  -- a scene comes from the one before its last action
  induction actions using List.reverseRecOn with
  | nil => exact isConsistent_nil hstart
  | append_singleton actions a ih => exact ih.concat hstart hmode a

/-- Between a read and a write of the same writer the file changes only if somebody else writes. -/
theorem phase_of_undisturbed (hstart : IsDocument before body after start)
    (hmode : ∀ w, (exports w).options.mode ≠ .override) {past between : List Action}
    (hwaiting : (sceneAfter exports start past).phase w = .waiting)
    (halone : ∀ v, (sceneAfter exports start (past ++ .read w :: between)).phase v = .finished →
      (sceneAfter exports start past).phase v = .finished) :
    (sceneAfter exports start (past ++ .read w :: between)).phase w =
      .holding (sceneAfter exports start (past ++ .read w :: between)).file := by
  let insertions : Nat → Insertion := fun w => (exports w).insertion
  let scene := sceneAfter exports start past
  have hread : act insertions scene (.read w) = scene.enter w (.holding scene.file) := by
    simp only [act, scene, hwaiting]
  have hrun : sceneAfter exports start (past ++ .read w :: between) =
      run insertions (scene.enter w (.holding scene.file)) between := by
    rw [sceneAfter_append, run_cons, ← hread]
  have hfile : (sceneAfter exports start (past ++ .read w :: between)).file = scene.file := by
    rw [hrun]
    refine file_run fun v hv => ?_
    have hfinished := halone v (by rw [hrun]; exact hv)
    have hstep : (run insertions scene [.read w]).phase v = .finished :=
      phase_run_of_finished hfinished [.read w]
    rwa [run_cons, hread] at hstep
  rw [hfile]
  have hunfailed := (isConsistent hstart hmode (past ++ .read w :: between)).unfailed w
  have hphase : (scene.enter w (.holding scene.file)).phase w = .holding scene.file := by simp
  have hend := @phase_run_of_holding insertions _ w _ hphase between
  rw [← hrun] at hend
  rcases hend with h | h | h
  · exact h
  · have hfinished := halone w h
    rw [hwaiting] at hfinished
    cases hfinished
  · exact absurd h hunfailed

/-! ## Writers on their own -/

/-- An export ends as its writer does. -/
structure EndsAs (x : Export) (answer : Except ExportError Text) (phase : Phase) (file : Text) :
    Prop where
  finished : ∀ text, answer = .ok text ↔ phase = .finished ∧ text = file
  failed : (∃ marker, answer = .error (.missingAnchor marker x.target)) ↔ phase = .failed

/-- A writer whose two actions follow each other does to the file what its export does to a
store. -/
theorem endsAs_of_keeps {σ : Type} [FileAccess (StateM σ)] {target : Path → Prop}
    {holds : σ → Text → Prop} (hkeeps : Export.Keeps target holds) {s : σ}
    (htarget : target (exports w).target) (hmode : (exports w).options.mode ≠ .override)
    (hs : holds s start) :
    EndsAs (exports w) ((exports w).run s).1
      ((sceneAfter exports start [.read w, .write w]).phase w)
      (sceneAfter exports start [.read w, .write w]).file ∧
    holds ((exports w).run s).2 (sceneAfter exports start [.read w, .write w]).file := by
  rcases Export.run_of_keeps hkeeps htarget hmode hs with
    ⟨new, s', hresult, hrun, hs'⟩ | ⟨hresult, marker, hrun⟩
  · have hscene : sceneAfter exports start [.read w, .write w] =
        { ((Scene.start start).enter w (.holding start)).enter w .finished with file := new } := by
      simp [sceneAfter, run, act, Scene.start, Export.insertion, Scene.enter, hresult]
    rw [hrun, hscene]
    refine ⟨⟨fun text => ?_, ?_⟩, hs'⟩
    · simp [eq_comm]
    · simp
  · have hscene : sceneAfter exports start [.read w, .write w] =
        ((Scene.start start).enter w (.holding start)).enter w .failed := by
      simp [sceneAfter, run, act, Scene.start, Export.insertion, Scene.enter, hresult]
    rw [hrun, hscene]
    refine ⟨⟨fun text => ?_, ?_⟩, hs⟩
    · simp
    · simp

/-- Overlapping insertions can be lost, but they never corrupt the document. At every moment the
file is the document with the insertions of some of those that have written, and no writer misses
its marker. What is in the file when a writer reads it is lost only if another one writes before it
does. Taken alone, the two actions of a writer are its export. -/
theorem overlapping_insertions (hstart : IsDocument before body after start)
    (hmode : ∀ w, (exports w).options.mode ≠ .override) :
    (∀ actions, (∃ kept, Records exports before body after start actions kept
        (sceneAfter exports start actions).file) ∧
      ∀ w, (sceneAfter exports start actions).phase w ≠ .failed) ∧
    (∀ past between w, (sceneAfter exports start past).phase w = .waiting →
      (∀ v, (sceneAfter exports start (past ++ .read w :: between)).phase v = .finished →
        (sceneAfter exports start past).phase v = .finished) →
      ∀ kept, Records exports before body after start (past ++ .read w :: between) kept
          (sceneAfter exports start (past ++ .read w :: between)).file →
        Records exports before body after start (past ++ .read w :: between ++ [.write w])
          (kept ++ [w])
          (sceneAfter exports start (past ++ .read w :: between ++ [.write w])).file) ∧
    (∀ w (store : MemoryStore) old, store.text? (exports w).target.components = some old →
      EndsAs (exports w) ((exports w).run store).1
        ((sceneAfter exports old [.read w, .write w]).phase w)
        (sceneAfter exports old [.read w, .write w]).file ∧
      ((exports w).run store).2.text? (exports w).target.components =
        some (sceneAfter exports old [.read w, .write w]).file) ∧
    ∀ w (tree : FileTree) place old, tree.destination (exports w).target = .ok place →
      tree.file? place = some (.text old) →
      EndsAs (exports w) ((exports w).run tree).1
        ((sceneAfter exports old [.read w, .write w]).phase w)
        (sceneAfter exports old [.read w, .write w]).file ∧
      ((exports w).run tree).2.file? place =
        some (.text (sceneAfter exports old [.read w, .write w]).file) := by
  refine ⟨fun actions => ?_, fun past between w hwaiting halone kept hkept => ?_,
    fun w store old hold => ?_, fun w tree place old hplace hold => ?_⟩
  · have h := isConsistent hstart hmode actions
    exact ⟨h.file, h.unfailed⟩
  · have hphase := phase_of_undisturbed hstart hmode hwaiting halone
    obtain ⟨new, hact, hnew⟩ := hkept.insert hstart (hmode w) hphase
    rw [sceneAfter_concat, hact]
    exact hnew
  · exact endsAs_of_keeps (Export.keeps_inMemory _) rfl (hmode w) hold
  · obtain ⟨hends, -, hfile⟩ := endsAs_of_keeps
      (Export.keeps_inTree [(exports w).target] place) (List.mem_singleton_self _) (hmode w)
      ⟨by simpa using hplace, hold⟩
    exact ⟨hends, hfile⟩

end

/-- The first of two writers overwrites the second one with what it has read before. The markers
that the second one brought are gone with it, and those of the document stand where they were. -/
theorem overlapping_insertions_stale :
    let first : Export := ⟨Settings.default, ⟨.afterBegin, .fragment, none⟩, "a".toList, "x".toList⟩
    let second : Export :=
      ⟨Settings.default, ⟨.beforeEnd, .document, some .both⟩, "a".toList, "y".toList⟩
    let exports : Nat → Export := fun w => if w = 0 then first else second
    let start : Text := documentBegin ++ "b".toList ++ documentEnd
    let actions : List Action := [.read 0, .read 1, .write 1, .write 0]
    let store : MemoryStore := ⟨[(first.target.components, start)]⟩
    let tree : FileTree := ⟨[(["a.tex".toList], .file (.text start))]⟩
    let alone := sceneAfter exports start [.read 0, .write 0]
    IsDocument [] "b".toList [] start ∧ (∀ w, (exports w).options.mode ≠ .override) ∧
    ((sceneAfter exports start actions).file = documentBegin ++ "xb".toList ++ documentEnd ∧
      (∃ kept, Records exports [] "b".toList [] start actions kept
        (sceneAfter exports start actions).file) ∧
      ∀ w, (sceneAfter exports start actions).phase w ≠ .failed) ∧
    ((sceneAfter exports start [.read 0]).phase 1 = .waiting ∧
      (∀ v, (sceneAfter exports start [.read 0, .read 1]).phase v = .finished →
        (sceneAfter exports start [.read 0]).phase v = .finished) ∧
      Records exports [] "b".toList [] start [.read 0, .read 1] []
        (sceneAfter exports start [.read 0, .read 1]).file ∧
      Records exports [] "b".toList [] start [.read 0, .read 1, .write 1] [1]
        (sceneAfter exports start [.read 0, .read 1, .write 1]).file) ∧
    (store.text? first.target.components = some start ∧
      EndsAs first (first.run store).1 (alone.phase 0) alone.file ∧
      (first.run store).2.text? first.target.components = some alone.file) ∧
    tree.destination first.target = .ok ["a.tex".toList] ∧
      tree.file? ["a.tex".toList] = some (.text start) ∧
      EndsAs first (first.run tree).1 (alone.phase 0) alone.file ∧
      (first.run tree).2.file? ["a.tex".toList] = some (.text alone.file) := by
  intro first second exports start actions store tree alone
  have hstart : IsDocument [] "b".toList [] start := .of_body _
  have hmode : ∀ w, (exports w).options.mode ≠ .override := by
    intro w
    by_cases hw : w = 0 <;> simp [exports, hw, first, second]
  obtain ⟨hmoment, hkept, hmemory, htree⟩ := overlapping_insertions hstart hmode
  have hwaiting : (sceneAfter exports start [.read 0]).phase 1 = .waiting := rfl
  have halone : ∀ v, (sceneAfter exports start [.read 0, .read 1]).phase v = .finished →
      (sceneAfter exports start [.read 0]).phase v = .finished := by
    intro v hv
    have hphase : (sceneAfter exports start [.read 0, .read 1]).phase v =
        if v = 1 then .holding start else if v = 0 then .holding start else .waiting := rfl
    rw [hphase] at hv
    split at hv
    · cases hv
    · split at hv <;> cases hv
  have hrecords : Records exports [] "b".toList [] start [.read 0, .read 1] []
      (sceneAfter exports start [.read 0, .read 1]).file :=
    ⟨List.nodup_nil, by simp, List.Pairwise.nil, rfl⟩
  have hstore : store.text? first.target.components = some start := by
    simp [store, MemoryStore.text?, valueAt]
  have hplace : tree.destination first.target = .ok ["a.tex".toList] := by decide
  have hfile : tree.file? ["a.tex".toList] = some (.text start) := rfl
  exact ⟨hstart, hmode, ⟨by decide, hmoment actions⟩,
    ⟨hwaiting, halone, hrecords, hkept [.read 0] [] 1 hwaiting halone [] hrecords⟩,
    ⟨hstore, hmemory 0 store start hstore⟩, hplace, hfile, htree 0 tree _ start hplace hfile⟩

end Writers

end MathMarkup
