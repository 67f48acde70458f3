import Mathlib
import MathMarkup.CommandLine.Run
import MathMarkup.Proofs.Document.Export
import MathMarkup.Proofs.Text.Utf8

/-!
# One job or nothing

A run of the command prints its markup, or writes it to one file, or reports why it did neither.
Settings, value and markup are found before anything is written, and an export that fails leaves all
files as they were.
-/
namespace MathMarkup.CommandLine

/-! ## What a run works with -/

/-- The settings of the file that the arguments name, or else the default ones, under their
switches. -/
def Arguments.HasSettings (a : Arguments) (tree : FileTree) (settings : Settings) : Prop :=
  ∃ base, settings = a.overrides base ∧
    (a.config = none ∧ base = .default ∨ ∃ path text, a.config = some path ∧
      tree.readText ⟨path⟩ = .ok text ∧ Settings.ofText? text = some base)

/-- The value that the arguments give, or else the expression in the standard input. -/
def Arguments.selected (a : Arguments) (stdin : Option Content) : Except Failure Value :=
  a.value?.getD (expressionOf stdin)

/-- The markup of the selected value in the layout of the settings. -/
def Arguments.Produces (a : Arguments) (stdin : Option Content) (tree : FileTree)
    (settings : Settings) (markup : Text) : Prop :=
  a.HasSettings tree settings ∧
    ∃ value, a.selected stdin = .ok value ∧ value.render settings.layout = .ok markup

/-- The export that a run with an output file makes. -/
def Arguments.toExport (a : Arguments) (settings : Settings) (filename markup : Text) : Export :=
  ⟨settings, a.options, filename, markup⟩

/-! ## How a run can go -/

theorem run_value (a : Arguments) (stdin : Option Content) (tree : FileTree) :
    StateT.run (m := Id) (a.value (pure stdin)) tree = pure (a.selected stdin, tree) := by
  unfold Arguments.value Arguments.selected
  cases a.value? with
  | none => rfl
  | some value => rfl

theorem failureText_eq (e : Failure) :
    failureText e = "Error: ".toList ++ e.message.toList ++ ['\n'] := by
  simp [failureText]

/-- The status line counts the bytes that a text takes in a file. -/
theorem reportOf_eq (path : Path) (text : Text) : reportOf path text =
    "✓ Output written to: ".toList ++ path.text ++ " (".toList ++
      Nat.toDigits 10 (String.ofList text).utf8ByteSize ++ " bytes)\n".toList := by
  unfold reportOf
  rw [Text.utf8ByteSize_ofList]

/-- The access reads what a tree holds, and exports to one file or to none. -/
structure IsAtomic [FileAccess (StateM FileTree)] : Prop where
  read : ∀ (tree : FileTree) (path : Path),
    StateT.run (m := Id) (FileAccess.readText path) tree = (tree.readText path, tree)
  exported : ∀ (x : Export) (tree : FileTree), x.InTree tree (x.run tree)

section

variable [FileAccess (StateM FileTree)] {a : Arguments} {stdin : Option Content} {tree : FileTree}

/-- The ways that a run with accepted arguments can end. -/
inductive Ending (a : Arguments) (stdin : Option Content) (tree : FileTree) :
    Outcome × FileTree → Prop
  | stopped (e : Failure) : Ending a stdin tree (⟨1, [], failureText e⟩, tree)
  | printed {settings : Settings} {markup : Text} (hmarkup : a.Produces stdin tree settings markup)
      (houtput : a.output = none) : Ending a stdin tree (⟨0, markup ++ ['\n'], []⟩, tree)
  | refused {settings : Settings} {markup filename : Text} {e : ExportError} {after : FileTree}
      (hrun : (a.toExport settings filename markup).run tree = (.error e, after)) :
      Ending a stdin tree (⟨1, [], failureText (.exporting e)⟩, after)
  | written {settings : Settings} {markup filename text : Text} {after : FileTree}
      (hmarkup : a.Produces stdin tree settings markup) (houtput : a.output = some filename)
      (hrun : (a.toExport settings filename markup).run tree = (.ok text, after)) :
      Ending a stdin tree
        (⟨0, [], reportOf (a.toExport settings filename markup).target text⟩, after)

/-! ## The stages of a run -/

theorem run_load (h : IsAtomic) (path : Path) (tree : FileTree) :
    (∃ e, StateT.run (m := Id) (Settings.load path) tree = pure (.error e, tree)) ∨
      ∃ text base, tree.readText path = .ok text ∧ Settings.ofText? text = some base ∧
        StateT.run (m := Id) (Settings.load path) tree = pure (.ok base, tree) := by
  have hread : StateT.run (m := Id) (FileAccess.readText path) tree =
      pure (tree.readText path, tree) := h.read tree path
  unfold Settings.load
  simp only [StateT.run_bind, hread, pure_bind]
  cases htext : tree.readText path with
  | error e => exact Or.inl ⟨_, rfl⟩
  | ok text =>
    cases hbase : Settings.ofText? text with
    | none => exact Or.inl ⟨.invalid path, by simp only [hbase]; rfl⟩
    | some base => exact Or.inr ⟨text, base, rfl, hbase, by simp only [hbase]; rfl⟩

theorem run_settings (h : IsAtomic) (a : Arguments) (tree : FileTree) :
    (∃ e, StateT.run (m := Id) a.settings tree = pure (.error e, tree)) ∨
      ∃ settings, a.HasSettings tree settings ∧
        StateT.run (m := Id) a.settings tree = pure (.ok settings, tree) := by
  unfold Arguments.settings
  cases hconfig : a.config with
  | none => exact Or.inr ⟨_, ⟨_, rfl, Or.inl ⟨hconfig, rfl⟩⟩, rfl⟩
  | some path =>
    rcases run_load h ⟨path⟩ tree with ⟨e, hload⟩ | ⟨text, base, htext, hbase, hload⟩
    · exact Or.inl ⟨.settings e, by simp only [StateT.run_bind, hload, pure_bind]; rfl⟩
    · refine Or.inr ⟨_, ⟨base, rfl, Or.inr ⟨path, text, hconfig, htext, hbase⟩⟩, ?_⟩
      simp only [StateT.run_bind, hload, pure_bind]
      rfl

/-- What a run leaves: the outcome of a stage that succeeds, or the report of one that fails. -/
def report : Except Failure Outcome × FileTree → Outcome × FileTree
  | (.ok outcome, after) => (outcome, after)
  | (.error e, after) => (⟨1, [], failureText e⟩, after)

theorem ending_deliver {settings : Settings} {markup : Text}
    (hmarkup : a.Produces stdin tree settings markup) :
    Ending a stdin tree (report (StateT.run (m := Id) (a.deliver settings markup) tree)) := by
  unfold Arguments.deliver
  cases houtput : a.output with
  | none => exact .printed hmarkup houtput
  | some filename =>
    rcases hrun : (a.toExport settings filename markup).run tree with ⟨answer, after⟩
    have hexport : StateT.run (m := Id) (exportText settings a.options filename markup) tree =
        pure (answer, after) := hrun
    simp only [StateT.run_bind, hexport, pure_bind]
    cases answer with
    | error e => exact .refused hrun
    | ok text => exact .written hmarkup houtput hrun

/-- Once settings, value and markup are found, the markup is delivered. -/
theorem run_execute {settings : Settings} {value : Value} {markup : Text}
    (hsettings : StateT.run (m := Id) a.settings tree = pure (.ok settings, tree))
    (hvalue : a.selected stdin = .ok value) (hmarkup : value.render settings.layout = .ok markup) :
    StateT.run (m := Id) (a.execute (pure stdin)) tree =
      StateT.run (m := Id) (a.deliver settings markup) tree := by
  simp only [Arguments.execute, StateT.run_bind, hsettings, run_value, hvalue, hmarkup, pure_bind]

theorem ending_execute (h : IsAtomic) (a : Arguments) (stdin : Option Content) (tree : FileTree) :
    Ending a stdin tree (report (StateT.run (m := Id) (a.execute (pure stdin)) tree)) := by
  rcases run_settings h a tree with ⟨e, hsettings⟩ | ⟨settings, hhas, hsettings⟩
  · simp only [Arguments.execute, StateT.run_bind, hsettings, pure_bind]
    exact .stopped e
  · cases hvalue : a.selected stdin with
    | error e =>
      simp only [Arguments.execute, StateT.run_bind, hsettings, run_value, hvalue, pure_bind]
      exact .stopped e
    | ok value =>
      cases hmarkup : value.render settings.layout with
      | error e =>
        simp only [Arguments.execute, StateT.run_bind, hsettings, run_value, hvalue, hmarkup,
          pure_bind]
        exact .stopped (.conversion e)
      | ok markup =>
        rw [run_execute hsettings hvalue hmarkup]
        exact ending_deliver ⟨hhas, value, hvalue, hmarkup⟩

theorem run_of_read {words : List Text} (hwords : Arguments.read words = .ok a)
    (stdin : Option Content) (tree : FileTree) :
    StateT.run (m := Id) (run (pure stdin) words) tree =
      report (StateT.run (m := Id) (a.execute (pure stdin)) tree) := by
  rcases hrun : StateT.run (m := Id) (a.execute (pure stdin)) tree with ⟨result, after⟩
  have hexecute : StateT.run (m := Id) (a.execute (pure stdin)) tree = pure (result, after) := hrun
  simp only [run, hwords, StateT.run_bind, hexecute, pure_bind]
  cases result <;> rfl

/-! ## One job or nothing -/

/-- All files are as they were, and no directory is missing. -/
structure KeepsFiles (tree after : FileTree) : Prop where
  files : after.file? = tree.file?
  directories : ∀ p, tree.get? p = some .directory → after.get? p = some .directory

/-- The file at the target of an export is the only one that has changed. It holds the text of the
export, composed from what was there before, and all directories are kept. -/
structure WritesOneFile (x : Export) (tree : FileTree) (text : Text) (after : FileTree) : Prop where
  composes : x.Composes (tree.readText x.target) text
  files : ∃ place, after.destination x.target = .ok place ∧
    after.file? = Function.update tree.file? place (some (.text text))
  reread : after.readText x.target = .ok text
  directories : ∀ p, tree.get? p = some .directory → after.get? p = some .directory

/-- What can be seen of a run with accepted arguments. -/
structure OneJobOrNothing (a : Arguments) (stdin : Option Content) (tree : FileTree)
    (outcome : Outcome × FileTree) : Prop where
  code : outcome.1.code = 0 ∨ outcome.1.code = 1
  failed : outcome.1.code = 1 → outcome.1.stdout = [] ∧
    (∃ e : Failure, outcome.1.stderr = "Error: ".toList ++ e.message.toList ++ ['\n']) ∧
    KeepsFiles tree outcome.2
  printed : outcome.1.code = 0 → a.output = none → ∃ settings markup,
    a.Produces stdin tree settings markup ∧ outcome.1.stdout = markup ++ ['\n'] ∧
    outcome.1.stderr = [] ∧ outcome.2 = tree
  written : outcome.1.code = 0 → ∀ filename, a.output = some filename → ∃ settings markup text,
    a.Produces stdin tree settings markup ∧ outcome.1.stdout = [] ∧
    outcome.1.stderr = "✓ Output written to: ".toList ++
      (targetPath filename a.options.format settings).text ++ " (".toList ++
      Nat.toDigits 10 (String.ofList text).utf8ByteSize ++ " bytes)\n".toList ∧
    WritesOneFile (a.toExport settings filename markup) tree text outcome.2

theorem Ending.oneJobOrNothing (h : IsAtomic) {outcome : Outcome × FileTree}
    (hending : Ending a stdin tree outcome) : OneJobOrNothing a stdin tree outcome := by
  cases hending with
  | stopped e =>
    refine ⟨Or.inr rfl, fun _ => ⟨rfl, ⟨e, failureText_eq e⟩, rfl, fun p hp => hp⟩, ?_, ?_⟩ <;>
      intro hcode <;> cases hcode
  | printed hmarkup houtput =>
    refine ⟨Or.inl rfl, ?_, fun _ _ => ⟨_, _, hmarkup, rfl, rfl, rfl⟩, ?_⟩
    · intro hcode
      cases hcode
    · intro _ filename hfilename
      rw [houtput] at hfilename
      cases hfilename
  | @refused settings markup filename e after hrun =>
    have hexport := h.exported (a.toExport settings filename markup) tree
    rw [hrun] at hexport
    refine ⟨Or.inr rfl, fun _ => ⟨rfl, ⟨_, failureText_eq _⟩, ?_, hexport.kept⟩, ?_, ?_⟩
    · exact hexport.atomic.failed e rfl
    · intro hcode
      cases hcode
    · intro hcode
      cases hcode
  | @written settings markup filename text after hmarkup houtput hrun =>
    have hexport := h.exported (a.toExport settings filename markup) tree
    rw [hrun] at hexport
    refine ⟨Or.inl rfl, ?_, ?_, fun _ other hother => ?_⟩
    · intro hcode
      cases hcode
    · intro _ hnone
      rw [houtput] at hnone
      cases hnone
    · cases houtput.symm.trans hother
      exact ⟨settings, markup, text, hmarkup, rfl, reportOf_eq _ _,
        hexport.answers.composes text rfl, hexport.atomic.written text rfl,
        hexport.reread text rfl, hexport.kept⟩

end

/-- A run of the command that replaces its file by way of a temporary one. -/
def runThrough (temporary : Temporary) (stdin : Option Content) (words : List Text)
    (tree : FileTree) : Outcome × FileTree :=
  let _ := temporary.access
  StateT.run (m := Id) (run (pure stdin) words) tree

/-- The command does its one job or changes nothing, whether a file is written at once or by way of
a temporary one of which any step may be refused. -/
theorem run_one_job_or_nothing {words : List Text} {a : Arguments}
    (hwords : Arguments.read words = .ok a) (stdin : Option Content) (tree : FileTree) :
    OneJobOrNothing a stdin tree
      (StateT.run (m := Id) (run (m := StateM FileTree) (pure stdin) words) tree) ∧
    ∀ temporary : Temporary,
      OneJobOrNothing a stdin tree (runThrough temporary stdin words tree) := by
  refine ⟨?_, fun temporary => ?_⟩
  · have hatomic : IsAtomic := ⟨fun _ _ => rfl, fun x tree => x.inTree_run tree⟩
    rw [run_of_read hwords]
    exact (ending_execute hatomic a stdin tree).oneJobOrNothing hatomic
  · let _ := temporary.access
    have hatomic : IsAtomic := ⟨fun _ _ => rfl, fun x _ => Export.inTree_of_course
      (fun _ _ _ h => FileTree.replaced_of_replaceThrough h) (x.course_run rfl)⟩
    rw [runThrough, run_of_read hwords]
    exact (ending_execute hatomic a stdin tree).oneJobOrNothing hatomic

/-- An expression is put before the end of a document; with a temporary file that cannot be moved,
the same command leaves the document as it is. -/
theorem run_one_job_or_nothing_insertion :
    let words := ["a", "-o", "b", "-m", "insert-before-end"].map String.toList
    let a : Arguments := ⟨some ['a'], none, none, false, some ['b'], some .beforeEnd, none, false,
      false, none, none⟩
    let tree : FileTree := ⟨[(["b.tex".toList], .file (.text documentEnd))]⟩
    let stuck : Temporary :=
      ⟨"t".toList, ⟨[]⟩, fun step => if step = .moved then some .busy else none⟩
    let outcome := StateT.run (m := Id) (run (m := StateM FileTree) (pure none) words) tree
    let stopped := runThrough stuck none words tree
    Arguments.read words = .ok a ∧ a.output = some ['b'] ∧
    (outcome.1.code = 0 ∧ ∃ settings markup text, a.Produces none tree settings markup ∧
      outcome.1.stdout = [] ∧
      outcome.1.stderr = "✓ Output written to: ".toList ++
        (targetPath ['b'] a.options.format settings).text ++ " (".toList ++
        Nat.toDigits 10 (String.ofList text).utf8ByteSize ++ " bytes)\n".toList ∧
      WritesOneFile (a.toExport settings ['b'] markup) tree text outcome.2) ∧
    stopped.1.code = 1 ∧ stopped.1.stdout = [] ∧
      (∃ e : Failure, stopped.1.stderr = "Error: ".toList ++ e.message.toList ++ ['\n']) ∧
      KeepsFiles tree stopped.2 := by
  intro words a tree stuck outcome stopped
  have hwords : Arguments.read words = .ok a := rfl
  have hmarkup : (Value.scalar ['a']).render Settings.default.layout = .ok ['a'] := by cbv
  obtain ⟨hdone, hrefused⟩ := run_one_job_or_nothing hwords none tree
  have hvalue : a.selected none = .ok (.scalar ['a']) := rfl
  have hcode : outcome.1.code = 0 := by
    have hsettings : StateT.run (m := Id) a.settings tree = pure (.ok Settings.default, tree) := rfl
    simp only [outcome, run_of_read hwords, run_execute hsettings hvalue hmarkup]
    rfl
  have hstopped : stopped.1.code = 1 := by
    let _ := stuck.access
    have hsettings : StateT.run (m := Id) a.settings tree = pure (.ok Settings.default, tree) := rfl
    simp only [stopped, runThrough, run_of_read hwords, run_execute hsettings hvalue hmarkup]
    rfl
  exact ⟨hwords, rfl, ⟨hcode, hdone.written hcode ['b'] rfl⟩, hstopped,
    (hrefused stuck).failed hstopped⟩

end MathMarkup.CommandLine
