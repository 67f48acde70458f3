import Mathlib
import MathMarkup.Document.Export
import MathMarkup.Proofs.Document.Splice
import MathMarkup.Proofs.Store.Memory
import MathMarkup.Proofs.Store.Replace

/-!
# Exports write one file or none

An export fails before it writes, or hands the store one whole text. With stores that set a file
whole or not at all, no export is ever seen half done.
-/
namespace MathMarkup

/-- The text of a file, from the answer to a read; a missing file counts as empty. -/
def IsCurrent (read : Except StoreError Text) (current : Text) : Prop :=
  read = .ok current ∨ read = .error .notFound ∧ current = []

theorem IsCurrent.unique {read : Except StoreError Text} {current current' : Text}
    (h : IsCurrent read current) (h' : IsCurrent read current') : current = current' := by
  rcases h with rfl | ⟨rfl, rfl⟩ <;> rcases h' with h' | ⟨h', hnil⟩ <;> cases h'
  · rfl
  · exact hnil.symm

/-! ## One export -/

/-- All that an export is asked to do. -/
structure Export where
  settings : Settings
  options : ExportOptions
  filename : Text
  content : Text

namespace Export

def target (x : Export) : Path := targetPath x.filename x.options.format x.settings

/-- The content in its template. -/
def wrapped (x : Export) : Text := x.options.wrap x.settings x.content

/-- The marker that the file must have. -/
def marker? (x : Export) : Option Text := x.options.mode.splice.anchor?

/-- The answer to the export, and the store after it. -/
def run {σ : Type} [FileAccess (StateM σ)] (x : Export) (s : σ) : Except ExportError Text × σ :=
  StateT.run (m := Id) (exportText x.settings x.options x.filename x.content) s

/-- The text that the export composes, from the answer to a read of its file. -/
def Composes (x : Export) (read : Except StoreError Text) (text : Text) : Prop :=
  ∃ current, (x.marker? = none ∨ IsCurrent read current) ∧
    x.options.mode.splice.result? current x.wrapped = some text

variable {σ : Type} [FileAccess (StateM σ)]

/-- The ways that an export can go from a store. -/
inductive Course (x : Export) (read : Except StoreError Text) (s : σ) :
    Except ExportError Text × σ → Prop
  | unreadable {e : StoreError} (hread : read = .error e) (hfound : e ≠ .notFound) :
      Course x read s (.error (.store x.target e), s)
  | missing {marker current : Text} (hmarker : x.marker? = some marker)
      (hcurrent : IsCurrent read current) (habsent : ¬ marker <:+: current) :
      Course x read s (.error (.missingAnchor marker x.target), s)
  | refused {text : Text} {e : StoreError} {after : σ} (hcomposes : x.Composes read text)
      (hreplace :
        StateT.run (m := Id) (FileAccess.replaceText x.target text) s = (.error e, after)) :
      Course x read s (.error (.store x.target e), after)
  | written {text : Text} {after : σ} (hcomposes : x.Composes read text)
      (hreplace : StateT.run (m := Id) (FileAccess.replaceText x.target text) s = (.ok (), after)) :
      Course x read s (.ok text, after)

theorem course_writeExport {x : Export} {read : Except StoreError Text} {s : σ} {text : Text}
    (hcomposes : x.Composes read text) :
    Course x read s (StateT.run (m := Id) (writeExport x.target text) s) := by
  rcases hreplace : StateT.run (m := Id) (FileAccess.replaceText x.target text) s with
    ⟨answer, after⟩
  unfold writeExport
  simp only [StateT.run_bind, hreplace]
  cases answer with
  | error e => exact .refused hcomposes hreplace
  | ok done => exact .written hcomposes hreplace

theorem run_readText? {path : Path} {read : Except StoreError Text} {s : σ}
    (hread : StateT.run (m := Id) (FileAccess.readText path) s = (read, s)) :
    (∃ e, read = .error e ∧ e ≠ .notFound ∧
      StateT.run (m := Id) (FileAccess.readText? path) s = pure (.error e, s)) ∨
    ∃ existing : Option Text, IsCurrent read (existing.getD []) ∧
      StateT.run (m := Id) (FileAccess.readText? path) s = pure (.ok existing, s) := by
  unfold FileAccess.readText?
  simp only [StateT.run_bind, hread]
  cases read with
  | ok text => exact Or.inr ⟨some text, Or.inl rfl, rfl⟩
  | error e =>
    by_cases hfound : e = .notFound
    · subst hfound
      exact Or.inr ⟨none, Or.inr ⟨rfl, rfl⟩, rfl⟩
    · refine Or.inl ⟨e, rfl, hfound, ?_⟩
      cases e <;> first | rfl | exact absurd rfl hfound

theorem course_run (x : Export) {read : Except StoreError Text} {s : σ}
    (hread : StateT.run (m := Id) (FileAccess.readText x.target) s = (read, s)) :
    Course x read s (x.run s) := by
  have htarget : targetPath x.filename x.options.format x.settings = x.target := rfl
  have hwrapped : x.options.wrap x.settings x.content = x.wrapped := rfl
  unfold run exportText
  cases hmarker : x.options.mode.splice.anchor? with
  | none =>
    -- nothing is read, and every current text gives the same result
    have hsplice : x.options.mode.splice = .replace := by
      cases hmode : x.options.mode <;> rw [hmode] at hmarker <;> first | rfl | cases hmarker
    exact course_writeExport ⟨[], Or.inl hmarker, by rw [hsplice]; rfl⟩
  | some marker =>
    rcases run_readText? hread with ⟨e, hread, hfound, hrun⟩ | ⟨existing, hcurrent, hrun⟩
    · simp only [htarget, StateT.run_bind, hrun, pure_bind]
      exact .unreadable hread hfound
    · simp only [htarget, hwrapped, StateT.run_bind, hrun, pure_bind, ExportOptions.textOver]
      cases hresult : x.options.mode.splice.result? (existing.getD []) x.wrapped with
      | none =>
        obtain ⟨marker', hmarker', habsent⟩ := Splice.result?_eq_none.1 hresult
        cases hmarker.symm.trans hmarker'
        rw [hmarker]
        exact .missing hmarker hcurrent habsent
      | some text => exact course_writeExport ⟨_, Or.inr hcurrent, hresult⟩

/-! ## What an export says -/

theorem Composes.marker_infix {x : Export} {read : Except StoreError Text}
    {marker current text : Text} (h : x.Composes read text) (hmarker : x.marker? = some marker)
    (hcurrent : IsCurrent read current) : marker <:+: current := by
  obtain ⟨existing, hexisting, hresult⟩ := h
  rcases hexisting with hnone | hexisting
  · rw [hmarker] at hnone
    cases hnone
  · cases hcurrent.unique hexisting
    by_contra habsent
    rw [Splice.result?_eq_none.2 ⟨marker, hmarker, habsent⟩] at hresult
    cases hresult

/-- The answer to an export, as far as it follows from the text of the file. -/
structure Answers (x : Export) (read : Except StoreError Text)
    (answer : Except ExportError Text) : Prop where
  composes : ∀ text, answer = .ok text → x.Composes read text
  missing : ∀ marker path, answer = .error (.missingAnchor marker path) ↔
    (x.options.mode = .afterBegin ∧ marker = documentBegin ∨
      x.options.mode = .beforeEnd ∧ marker = documentEnd) ∧ path = x.target ∧
      ∃ current, IsCurrent read current ∧ ¬ marker <:+: current

/-- An insertion after the beginning needs the opening marker, one before the end the closing
one. -/
theorem marker?_eq_some {x : Export} {marker : Text} : x.marker? = some marker ↔
    x.options.mode = .afterBegin ∧ marker = documentBegin ∨
      x.options.mode = .beforeEnd ∧ marker = documentEnd := by
  unfold marker?
  cases x.options.mode <;> simp [WriteMode.splice, Splice.anchor?, eq_comm]

theorem answers_of_composes {x : Export} {read : Except StoreError Text} {text : Text}
    {answer : Except ExportError Text} (hcomposes : x.Composes read text)
    (hok : ∀ other, answer = .ok other → other = text)
    (hmissing : ∀ marker path, answer ≠ .error (.missingAnchor marker path)) :
    x.Answers read answer := by
  refine ⟨fun other hother => hok other hother ▸ hcomposes, fun marker path => ⟨fun h => ?_, ?_⟩⟩
  · exact absurd h (hmissing marker path)
  · rintro ⟨hneeds, -, current, hcurrent, habsent⟩
    exact absurd (hcomposes.marker_infix (marker?_eq_some.2 hneeds) hcurrent) habsent

theorem Course.answers {x : Export} {read : Except StoreError Text} {s : σ}
    {outcome : Except ExportError Text × σ} (h : Course x read s outcome) :
    x.Answers read outcome.1 := by
  cases h with
  | unreadable hread hfound =>
    subst hread
    refine ⟨by simp, fun marker path => ⟨by simp, ?_⟩⟩
    rintro ⟨-, -, current, hok | ⟨hnotFound, -⟩, -⟩
    · cases hok
    · exact absurd (Except.error.inj hnotFound) hfound
  | missing hmarker hcurrent habsent =>
    refine ⟨by simp, fun marker path => ⟨fun hmissing => ?_, ?_⟩⟩
    · cases hmissing
      exact ⟨marker?_eq_some.1 hmarker, rfl, _, hcurrent, habsent⟩
    · rintro ⟨hneeds, rfl, -⟩
      cases hmarker.symm.trans (marker?_eq_some.2 hneeds)
      rfl
  | refused hcomposes => exact answers_of_composes hcomposes (by simp) (by simp)
  | written hcomposes => exact answers_of_composes hcomposes (by simp [eq_comm]) (by simp)

end Export

/-- The files after an export: those before it with one text set, or no others than before it. -/
structure Atomic {κ γ : Type} [DecidableEq κ] (target : κ → Prop) (hold : Text → γ)
    (before after : κ → Option γ) (answer : Except ExportError Text) : Prop where
  written : ∀ text, answer = .ok text →
    ∃ key, target key ∧ after = Function.update before key (some (hold text))
  failed : ∀ e, answer = .error e → after = before

/-! ## Stores in memory -/

/-- An export to a store in memory. -/
structure Export.InMemory (x : Export) (store : MemoryStore)
    (outcome : Except ExportError Text × MemoryStore) : Prop where
  answers : x.Answers (store.readText x.target) outcome.1
  atomic : Atomic (· = x.target.components) id store.text? outcome.2.text? outcome.1

theorem Export.inMemory_run (x : Export) (store : MemoryStore) :
    x.InMemory store (x.run store) := by
  have hcourse := x.course_run (store.run_readText x.target)
  generalize x.run store = outcome at hcourse ⊢
  refine ⟨hcourse.answers, ?_⟩
  cases hcourse with
  | unreadable => exact ⟨by simp, fun _ _ => rfl⟩
  | missing => exact ⟨by simp, fun _ _ => rfl⟩
  | refused _ hreplace => cases hreplace
  | written _ hreplace =>
    cases hreplace
    refine ⟨fun text htext => ?_, by simp⟩
    cases htext
    exact ⟨_, rfl, store.text?_insert x.target _⟩

/-! ## File trees -/

/-- An export that replaces its file by way of a temporary one. -/
def Temporary.runExport (temporary : Temporary) (x : Export) (tree : FileTree) :
    Except ExportError Text × FileTree :=
  @Export.run FileTree temporary.access x tree

/-- An export to a file tree. Its text is read back at the target, and was composed from the file at
the same place; apart from the target it leaves directories only, each where nothing was and on the
way to the target. -/
structure Export.InTree (x : Export) (tree : FileTree)
    (outcome : Except ExportError Text × FileTree) : Prop where
  answers : x.Answers (tree.readText x.target) outcome.1
  atomic : Atomic (fun place => outcome.2.destination x.target = .ok place) .text tree.file?
    outcome.2.file? outcome.1
  reread : ∀ text, outcome.1 = .ok text → outcome.2.readText x.target = .ok text
  source : ∀ place content, outcome.2.destination x.target = .ok place →
    tree.lookup x.target = .ok (.file content) → tree.file? place = some content
  kept : ∀ p, tree.get? p = some .directory → outcome.2.get? p = some .directory
  created : ∀ p, outcome.2.get? p = some .directory → tree.get? p = some .directory ∨
    tree.get? p = none ∧ ∃ above ∈ x.target.directories, outcome.2.walk [] above.parts = .ok p

namespace Export

theorem inTree_of_addsDirectories {x : Export} {tree made : FileTree} {e : ExportError}
    (hanswers : x.Answers (tree.readText x.target) (.error e))
    (hadds : FileTree.AddsDirectories x.target.directories tree made) :
    x.InTree tree (.error e, made) where
  answers := hanswers
  atomic := ⟨by simp, fun _ _ => hadds.file?_eq⟩
  reread := by simp
  source _ _ hplace hlookup := hadds.file?_of_lookup hplace hlookup
  kept p hp := hadds.keep p _ hp
  created p hp := by
    rcases hadds.added p _ hp with htree | ⟨hnone, -, habove⟩
    · exact Or.inl htree
    · exact Or.inr ⟨hnone, habove⟩

theorem inTree_of_written {x : Export} {tree made : FileTree} {place : Place} {text : Text}
    (hanswers : x.Answers (tree.readText x.target) (.ok text))
    (hadds : FileTree.AddsDirectories x.target.directories tree made)
    (hplace : made.destination x.target = .ok place) :
    x.InTree tree (.ok text, made.set place (.file (.text text))) := by
  have hafter := FileTree.destination_set_file hplace (.text text)
  have hdirectory := FileTree.directory_set_destination hplace (.text text)
  refine ⟨hanswers, ⟨?_, by simp⟩, ?_, ?_, fun p hp => ?_, fun p hp => ?_⟩
  · intro other hother
    cases hother
    refine ⟨place, hafter, ?_⟩
    rw [FileTree.file?_set_file (FileTree.destination_ne_nil hplace), hadds.file?_eq]
  · intro other hother
    cases hother
    exact FileTree.readText_set_file hplace text
  · intro place' content hplace' hlookup
    cases hafter.symm.trans hplace'
    exact hadds.file?_of_lookup hplace hlookup
  · exact (hdirectory p).2 (hadds.keep p _ hp)
  · rcases hadds.added p _ ((hdirectory p).1 hp) with htree | ⟨hnone, -, above, hmem, hwalk⟩
    · exact Or.inl htree
    · exact Or.inr ⟨hnone, above, hmem, FileTree.walk_mono (fun p => (hdirectory p).2) hwalk⟩

/-- An export to a tree, whatever way of replacing a file the access has. -/
theorem inTree_of_course {x : Export} {tree : FileTree} [FileAccess (StateM FileTree)]
    (hreplaced : ∀ text answer after, StateT.run (m := Id) (FileAccess.replaceText x.target text)
      tree = (answer, after) → FileTree.Replaced x.target text tree answer after)
    {outcome : Except ExportError Text × FileTree}
    (h : Course x (tree.readText x.target) tree outcome) : x.InTree tree outcome := by
  have hanswers := h.answers
  cases h with
  | unreadable => exact inTree_of_addsDirectories hanswers (.refl _ _)
  | missing => exact inTree_of_addsDirectories hanswers (.refl _ _)
  | refused _ hreplace =>
    cases hreplaced _ _ _ hreplace with
    | refused _ hadds => exact inTree_of_addsDirectories hanswers hadds
  | written _ hreplace =>
    cases hreplaced _ _ _ hreplace with
    | written hadds hplace => exact inTree_of_written hanswers hadds hplace

theorem inTree_run (x : Export) (tree : FileTree) : x.InTree tree (x.run tree) :=
  inTree_of_course (fun _ _ _ h => FileTree.replaced_of_replaceText h) (x.course_run rfl)

/-- Exports are atomic and touch one file: in memory, in a file tree that is written by way of a
temporary file of which any step may be refused, and in one that is written at once. -/
theorem run_atomic (x : Export) :
    (∀ store : MemoryStore, x.InMemory store (x.run store)) ∧
    (∀ (temporary : Temporary) (tree : FileTree), x.InTree tree (temporary.runExport x tree)) ∧
    ∀ tree : FileTree, x.InTree tree (x.run tree) := by
  refine ⟨x.inMemory_run, fun temporary tree => ?_, x.inTree_run⟩
  let _ := temporary.access
  exact inTree_of_course (fun _ _ _ h => FileTree.replaced_of_replaceThrough h) (x.course_run rfl)

/-- A temporary file that cannot be moved leaves the new directory, and nothing in it. -/
example :
    let temporary : Temporary :=
      ⟨"t".toList, ⟨[]⟩, fun step => if step = .moved then some .busy else none⟩
    (temporary.runExport ⟨Settings.default, .document, "a/b".toList, "x".toList⟩
      FileTree.empty).2.entries = [(["a".toList], .directory)] := by
  decide

end Export

end MathMarkup
