import Mathlib
import MathMarkup.Proofs.Document.Target
import MathMarkup.Proofs.Store.Mirror
import MathMarkup.Session

/-!
# One session on two stores

On plain paths it does not matter whether a session works in memory or in a file tree: all answers
are the same, no store refuses anything, and the same files are there at the end.
-/
namespace MathMarkup

namespace Session

/-! ## Plain sessions -/

/-- The settings after a step that loads none. -/
def Step.settingsAfter (settings : Settings) : Step → Settings
  | .configure layout saveLocation brackets => configured settings layout saveLocation brackets
  | _ => settings

/-- The path that a step reads or writes. -/
def Step.path? (settings : Settings) : Step → Option Path
  | .exportText options filename _ => some (targetPath filename options.format settings)
  | .loadSettings path | .read path | .write path _ => some path
  | .convert _ | .prettyOnly _ | .configure .. => none

/-- The step is given plain paths; a step that loads settings is none of them. -/
def Step.IsPlain (settings : Settings) : Step → Prop
  | .exportText _ filename _ => settings.saveLocation.IsPlain ∧ (Path.mk filename).IsPlain
  | .read path | .write path _ => path.IsPlain
  | .loadSettings _ => False
  | .convert _ | .prettyOnly _ | .configure .. => True

instance (settings : Settings) : DecidablePred (Step.IsPlain settings)
  | .exportText .. => inferInstanceAs (Decidable (_ ∧ _))
  | .read path | .write path _ => inferInstanceAs (Decidable path.IsPlain)
  | .loadSettings _ => inferInstanceAs (Decidable False)
  | .convert _ | .prettyOnly _ | .configure .. => inferInstanceAs (Decidable True)

def ArePlain (settings : Settings) : List Step → Prop
  | [] => True
  | s :: steps => s.IsPlain settings ∧ ArePlain (s.settingsAfter settings) steps

instance decidableArePlain : ∀ settings steps, Decidable (ArePlain settings steps)
  | _, [] => inferInstanceAs (Decidable True)
  | settings, s :: steps =>
    have := decidableArePlain (s.settingsAfter settings) steps
    inferInstanceAs (Decidable (_ ∧ _))

/-- The paths that the steps read and write, after extension resolution. -/
def paths (settings : Settings) : List Step → List Path
  | [] => []
  | s :: steps => (s.path? settings).toList ++ paths (s.settingsAfter settings) steps

/-- The paths of the files at the start, and those that the steps read and write. -/
def used (files : List (Path × Text)) (settings : Settings) (steps : List Step) : List Path :=
  files.map Prod.fst ++ paths settings steps

/-- The files at the start and the steps keep to plain paths within the limits, and no path leads
through another. -/
structure IsPlain (files : List (Path × Text)) (settings : Settings) (steps : List Step) :
    Prop where
  start : ∀ file ∈ files, file.1.IsPlain
  given : ArePlain settings steps
  short : ∀ p ∈ used files settings steps, p.IsShort
  apart : ∀ p ∈ used files settings steps, ∀ q ∈ used files settings steps,
    p.parts <+: q.parts → p = q

theorem isPlain_of_mem_paths {settings : Settings} {steps : List Step} (h : ArePlain settings steps)
    {p : Path} (hp : p ∈ paths settings steps) : p.IsPlain := by
  induction steps generalizing settings with
  | nil => cases hp
  | cons s steps ih =>
    rcases List.mem_append.1 hp with hstep | hrest
    · have hplain := h.1
      cases s with
      | exportText options filename content =>
        cases List.mem_singleton.1 hstep
        exact isPlain_targetPath options.format hplain.1 hplain.2
      | read path =>
        cases List.mem_singleton.1 hstep
        exact hplain
      | write path text =>
        cases List.mem_singleton.1 hstep
        exact hplain
      | loadSettings path => exact hplain.elim
      | convert value => cases hstep
      | prettyOnly text => cases hstep
      | configure layout saveLocation brackets => cases hstep
    · exact ih h.2 hrest

theorem IsPlain.coexist {files : List (Path × Text)} {settings : Settings} {steps : List Step}
    (h : IsPlain files settings steps) : Path.Coexist (used files settings steps) where
  plain p hp := by
    rcases List.mem_append.1 hp with hfile | hstep
    · obtain ⟨file, hmem, rfl⟩ := List.mem_map.1 hfile
      exact h.start file hmem
    · exact isPlain_of_mem_paths h.given hstep
  short := h.short
  apart := h.apart

end Session

/-! ## Programs on two stores -/

section Programs

variable {α β : Type} {used : List Path}

/-- From stores that mirror each other both programs come to such stores again, with one answer that
satisfies `post`. -/
def Simulates (used : List Path) (post : α → Prop) (inMemory : StateM MemoryStore α)
    (inTree : StateM FileTree α) : Prop :=
  ∀ store tree, Mirrors used store tree → ∃ answer store' tree',
    StateT.run (m := Id) inMemory store = pure (answer, store') ∧
    StateT.run (m := Id) inTree tree = pure (answer, tree') ∧
    post answer ∧ Mirrors used store' tree'

theorem simulates_pure {post : α → Prop} {answer : α} (h : post answer) :
    Simulates used post (pure answer) (pure answer) :=
  fun store tree hmirrors => ⟨answer, store, tree, rfl, rfl, h, hmirrors⟩

theorem Simulates.mono {post post' : α → Prop} {inMemory : StateM MemoryStore α}
    {inTree : StateM FileTree α} (h : Simulates used post inMemory inTree)
    (hpost : ∀ answer, post answer → post' answer) : Simulates used post' inMemory inTree := by
  intro store tree hmirrors
  obtain ⟨answer, store', tree', hmemory, htree, hanswer, hmirrors'⟩ := h store tree hmirrors
  exact ⟨answer, store', tree', hmemory, htree, hpost answer hanswer, hmirrors'⟩

theorem Simulates.bind {post : α → Prop} {post' : β → Prop} {inMemory : StateM MemoryStore α}
    {inTree : StateM FileTree α} {f : α → StateM MemoryStore β} {g : α → StateM FileTree β}
    (h : Simulates used post inMemory inTree)
    (hnext : ∀ answer, post answer → Simulates used post' (f answer) (g answer)) :
    Simulates used post' (inMemory >>= f) (inTree >>= g) := by
  intro store tree hmirrors
  obtain ⟨answer, store', tree', hmemory, htree, hpost, hmirrors'⟩ := h store tree hmirrors
  obtain ⟨answer', store'', tree'', hmemory', htree', hpost', hmirrors''⟩ :=
    hnext answer hpost store' tree' hmirrors'
  refine ⟨answer', store'', tree'', ?_, ?_, hpost', hmirrors''⟩
  · rw [StateT.run_bind, hmemory, pure_bind, hmemory']
  · rw [StateT.run_bind, htree, pure_bind, htree']

/-- The access to file trees reads and replaces as if it did so at once. -/
structure IsDirect (used : List Path) [FileAccess (StateM FileTree)] : Prop where
  read : ∀ (tree : FileTree) (path : Path),
    StateT.run (m := Id) (FileAccess.readText path) tree = (tree.readText path, tree)
  replaced : ∀ (store : MemoryStore) (tree : FileTree) (path : Path) (text : Text),
    Mirrors used store tree → path ∈ used →
      StateT.run (m := Id) (FileAccess.replaceText path text) tree = tree.replaceText path text

variable [FileAccess (StateM FileTree)] {path : Path}

theorem simulates_readText (hdirect : IsDirect used) (hused : Path.Coexist used)
    (hpath : path ∈ used) :
    Simulates used (fun answer => (∃ text, answer = .ok text) ∨ answer = .error .notFound)
      (FileAccess.readText path) (FileAccess.readText path) := by
  intro store tree hmirrors
  have htree := hdirect.read tree path
  rw [hmirrors.readText_eq hused hpath] at htree
  refine ⟨_, store, tree, store.run_readText path, htree, ?_, hmirrors⟩
  rw [MemoryStore.readText]
  cases store.get? path with
  | none => exact Or.inr rfl
  | some text => exact Or.inl ⟨text, rfl⟩

/-- A text is found or missing; nothing else comes of reading a used path. -/
theorem simulates_readText? (hdirect : IsDirect used) (hused : Path.Coexist used)
    (hpath : path ∈ used) : Simulates used (fun answer => ∃ text?, answer = .ok text?)
      (FileAccess.readText? path) (FileAccess.readText? path) := by
  unfold FileAccess.readText?
  refine (simulates_readText hdirect hused hpath).bind fun answer hanswer => ?_
  rcases hanswer with ⟨text, rfl⟩ | rfl
  · exact simulates_pure ⟨some text, rfl⟩
  · exact simulates_pure ⟨none, rfl⟩

theorem simulates_replaceText (hdirect : IsDirect used) (hused : Path.Coexist used)
    (hpath : path ∈ used) (text : Text) : Simulates used (fun answer => answer = .ok ())
      (FileAccess.replaceText path text) (FileAccess.replaceText path text) := by
  intro store tree hmirrors
  obtain ⟨after, hafter, hmirrors'⟩ := hmirrors.replaceText hused hpath text
  have htree := hdirect.replaced store tree path text hmirrors hpath
  rw [hafter] at htree
  exact ⟨_, _, after, rfl, htree, rfl, hmirrors'⟩

/-! ## Steps -/

theorem simulates_writeExport (hdirect : IsDirect used) (hused : Path.Coexist used)
    (hpath : path ∈ used) (text : Text) : Simulates used (fun answer => answer = .ok text)
      (writeExport path text) (writeExport path text) := by
  unfold writeExport
  refine (simulates_replaceText hdirect hused hpath text).bind fun answer hanswer => ?_
  subst hanswer
  exact simulates_pure rfl

/-- Only a missing marker can keep an export from a used path. -/
theorem simulates_exportText (hdirect : IsDirect used) (hused : Path.Coexist used)
    {settings : Settings} {options : ExportOptions} {filename : Text}
    (hpath : targetPath filename options.format settings ∈ used) (content : Text) :
    Simulates used (fun answer => ∀ path e, answer ≠ .error (.store path e))
      (exportText settings options filename content)
      (exportText settings options filename content) := by
  have hwrite : ∀ text, Simulates used (fun answer => ∀ path e, answer ≠ .error (.store path e))
      (writeExport (targetPath filename options.format settings) text)
      (writeExport (targetPath filename options.format settings) text) :=
    fun text => (simulates_writeExport hdirect hused hpath text).mono (by simp)
  unfold exportText
  cases options.mode.splice.anchor? with
  | none => exact hwrite _
  | some marker =>
    refine (simulates_readText? hdirect hused hpath).bind fun answer hanswer => ?_
    obtain ⟨existing, rfl⟩ := hanswer
    simp only [ExportOptions.textOver]
    cases options.mode.splice.result? (existing.getD []) (options.wrap settings content) with
    | none => exact simulates_pure (by simp)
    | some text => exact hwrite text

namespace Session

/-- The failure comes from the store. -/
def Failure.IsOfStore : Failure → Prop
  | .exporting (.store _ _) | .settings (.unreadable _ _) | .store _ => True
  | .exporting (.missingAnchor _ _) | .conversion _ | .settings (.invalid _) => False

/-- A plain step answers the same from both stores, and no store refuses it. -/
theorem simulates_step (hdirect : IsDirect used) (hused : Path.Coexist used) {settings : Settings}
    {s : Step} (hplain : s.IsPlain settings) (hpath : ∀ p ∈ s.path? settings, p ∈ used) :
    Simulates used (fun answer => (∀ e, answer.1 = .error e → ¬ e.IsOfStore) ∧
      answer.2 = s.settingsAfter settings) (step settings s) (step settings s) := by
  cases s with
  | exportText options filename content =>
    refine (simulates_exportText hdirect hused (hpath _ rfl) content).bind fun answer hanswer => ?_
    cases answer with
    | error e =>
      cases e with
      | missingAnchor marker path => exact simulates_pure ⟨by simp [Failure.IsOfStore], rfl⟩
      | store path e => exact absurd rfl (hanswer path e)
    | ok text => exact simulates_pure ⟨by simp, rfl⟩
  | convert value =>
    simp only [step]
    cases value.render settings.layout with
    | error e => exact simulates_pure ⟨by simp [Failure.IsOfStore], rfl⟩
    | ok markup => exact simulates_pure ⟨by simp, rfl⟩
  | prettyOnly text => exact simulates_pure ⟨by simp, rfl⟩
  | configure layout saveLocation brackets => exact simulates_pure ⟨by simp, rfl⟩
  | loadSettings path => exact hplain.elim
  | read path =>
    refine (simulates_readText? hdirect hused (hpath _ rfl)).bind fun answer hanswer => ?_
    obtain ⟨contents, rfl⟩ := hanswer
    exact simulates_pure ⟨by simp, rfl⟩
  | write path text =>
    refine (simulates_replaceText hdirect hused (hpath _ rfl) text).bind fun answer hanswer => ?_
    subst hanswer
    exact simulates_pure ⟨by simp, rfl⟩

theorem simulates_run (hdirect : IsDirect used) (hused : Path.Coexist used) {settings : Settings}
    {steps : List Step} (hplain : ArePlain settings steps)
    (hpaths : ∀ p ∈ paths settings steps, p ∈ used) :
    Simulates used (fun answers => ∀ e, .error e ∈ answers → ¬ e.IsOfStore)
      (run settings steps) (run settings steps) := by
  induction steps generalizing settings with
  | nil => exact simulates_pure (by simp)
  | cons s steps ih =>
    have hpath : ∀ p ∈ s.path? settings, p ∈ used := fun p hp =>
      hpaths p (List.mem_append_left _ (Option.mem_toList.2 hp))
    refine (simulates_step hdirect hused hplain.1 hpath).bind fun answer hanswer => ?_
    obtain ⟨answer, after⟩ := answer
    obtain ⟨hfailure, rfl⟩ := hanswer
    refine (ih hplain.2 fun p hp => hpaths p (List.mem_append_right _ hp)).bind
      fun answers hanswers => simulates_pure fun e he => ?_
    rcases List.mem_cons.1 he with heq | hmem
    · exact hfailure e heq.symm
    · exact hanswers e hmem

end Session

end Programs

/-! ## Interchangeable stores -/

/-- No step of the temporary file is refused, its path beside each file is within the limits, and
its name is none of those in the paths. -/
structure Temporary.IsUsable (temporary : Temporary) (used : List Path) : Prop where
  granted : ∀ step, temporary.refusal? step = none
  short : temporary.name.byteCount ≤ FileTree.nameLimit
  room : ∀ p ∈ used, FileTree.checkPath (temporary.path p.directory).text = .ok ()
  unused : ∀ p ∈ used, temporary.name ∉ p.parts

/-- A session that replaces its files by way of a temporary one. -/
def Temporary.runSession (temporary : Temporary) (settings : Settings) (steps : List Session.Step)
    (tree : FileTree) : List (Except Session.Failure Session.Answer) × FileTree :=
  let _ := temporary.access
  StateT.run (m := Id) (Session.run settings steps) tree

namespace Session

/-- The answers of a session in memory and of one in a file tree are the same, no store refuses
anything, and both leave the same files. -/
structure Agree (memory : List (Except Failure Answer) × MemoryStore)
    (disk : List (Except Failure Answer) × FileTree) : Prop where
  answers : disk.1 = memory.1
  failures : ∀ e, .error e ∈ disk.1 → ¬ e.IsOfStore
  files : ∀ place, disk.2.file? place = (memory.2.text? (place.map .name)).map .text
  keys : ∀ key text, memory.2.text? key = some text → ∃ place : Place, key = place.map .name

variable {files : List (Path × Text)} {settings : Settings} {steps : List Step}

theorem agree_of_isDirect [FileAccess (StateM FileTree)] (h : IsPlain files settings steps)
    (hdirect : IsDirect (used files settings steps)) :
    Agree (StateT.run (m := Id) (run settings steps) (MemoryStore.ofFiles files))
      (StateT.run (m := Id) (run settings steps) (FileTree.ofFiles files)) := by
  have hstart := mirrors_ofFiles h.coexist fun file hfile =>
    List.mem_append_left (paths settings steps) (List.mem_map_of_mem hfile)
  obtain ⟨answers, store, tree, hmemory, htree, hfailures, hmirrors⟩ :=
    simulates_run hdirect h.coexist h.given (fun p hp => List.mem_append_right _ hp) _ _ hstart
  rw [hmemory, htree]
  refine ⟨rfl, hfailures, hmirrors.files, fun key text htext => ?_⟩
  obtain ⟨p, -, hkey⟩ := hmirrors.keys key text htext
  exact ⟨p.parts, hkey⟩

/-- A session on plain paths goes the same way in memory and in a file tree, whether the tree is
written at once or by way of a temporary file. -/
theorem run_interchangeable (h : IsPlain files settings steps) :
    Agree (StateT.run (m := Id) (run settings steps) (MemoryStore.ofFiles files))
      (StateT.run (m := Id) (run settings steps) (FileTree.ofFiles files)) ∧
    ∀ temporary : Temporary, temporary.IsUsable (used files settings steps) →
      Agree (StateT.run (m := Id) (run settings steps) (MemoryStore.ofFiles files))
        (temporary.runSession settings steps (FileTree.ofFiles files)) := by
  refine ⟨agree_of_isDirect h ⟨fun _ _ => rfl, fun _ _ _ _ _ _ => rfl⟩, fun temporary husable => ?_⟩
  let _ := temporary.access
  exact agree_of_isDirect h ⟨fun _ _ => rfl, fun _ _ path text hmirrors hp =>
    FileTree.replaceThrough_eq husable.granted (husable.room path hp)
      (hmirrors.fresh husable.short husable.unused hp) text⟩

/-- Two save locations, one of them new, an insertion, an insertion that finds no marker, and files
that are read, missing and written. -/
theorem run_interchangeable_two_locations :
    let files := [(Path.ofString "out/a.tex", documentEnd)]
    let settings : Settings := ⟨.compact, Path.ofString "out", .empty⟩
    let insertion : ExportOptions := ⟨.beforeEnd, .document, none⟩
    let steps : List Step := [.exportText insertion ['a'] ['x'],
      .configure none (some (Path.ofString "new/notes")) none, .exportText .plain ['b'] ['y'],
      .exportText insertion "b.txt".toList ['z'], .read (Path.ofString "out/a.tex"),
      .read (Path.ofString "new/c"), .write (Path.ofString "new/c") ['w']]
    let temporary : Temporary := ⟨".tmp".toList, Path.ofString "/work", fun _ => none⟩
    let memory := StateT.run (m := Id) (run settings steps) (MemoryStore.ofFiles files)
    IsPlain files settings steps ∧ temporary.IsUsable (used files settings steps) ∧
    memory.1 = [.ok (.exported (Path.ofString "out/a.tex") ('x' :: documentEnd)),
      .ok (.settings ⟨.compact, Path.ofString "new/notes", .empty⟩),
      .ok (.exported (Path.ofString "new/notes/b.txt") ['y']),
      .error (.exporting (.missingAnchor documentEnd (Path.ofString "new/notes/b.txt"))),
      .ok (.contents (some ('x' :: documentEnd))), .ok (.contents none), .ok .written] ∧
    Agree memory (StateT.run (m := Id) (run settings steps) (FileTree.ofFiles files)) ∧
    Agree memory (temporary.runSession settings steps (FileTree.ofFiles files)) := by
  intro files settings insertion steps temporary memory
  have hplain : IsPlain files settings steps := ⟨by decide, by decide, by decide, by decide⟩
  have husable : temporary.IsUsable (used files settings steps) :=
    ⟨fun _ => rfl, by decide, by decide, by decide⟩
  obtain ⟨hdirect, hthrough⟩ := run_interchangeable hplain
  exact ⟨hplain, husable, by decide +kernel, hdirect, hthrough temporary husable⟩

end Session

end MathMarkup
