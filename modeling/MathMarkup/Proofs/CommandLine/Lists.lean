import Mathlib
import MathMarkup.Proofs.CommandLine.Columns
import MathMarkup.Proofs.CommandLine.Numbers
import MathMarkup.Proofs.CommandLine.Words

/-!
# Runs with a list of numbers

A run that is given a list prints the container, or reports the first item that is no number, or
else the first number that is not finite.
-/
namespace MathMarkup.CommandLine

open Container

/-! ## Runs -/

section

variable {words : List Text} {a : Arguments} {stdin : Option Content} {tree : FileTree}
  {settings : Settings} {kind : ContainerKind} {text : Text}

/-- The value of a run with a list is what the list is read as. -/
theorem selected_of_list (hwords : Arguments.read words = .ok a) (hlist : a.list? kind = some text)
    (stdin : Option Content) : a.selected stdin = readList kind text := by
  cases kind with
  | vector =>
    have hvector : a.vector = some text := hlist
    simp only [Arguments.selected, Arguments.value?, hvector, Option.getD_some, readList]
  | matrix =>
    have hmatrix : a.matrix = some text := hlist
    have hvector := vector_eq_none_of_read hwords hmatrix
    simp only [Arguments.selected, Arguments.value?, hvector, hmatrix, Option.getD_some, readList]

theorem run_of_selected_error {e : Failure} (hwords : Arguments.read words = .ok a)
    (hsettings : a.HasSettings tree settings) (herror : a.selected stdin = .error e) :
    StateT.run (m := Id) (run (m := StateM FileTree) (pure stdin) words) tree =
      (⟨1, [], failureText e⟩, tree) := by
  rw [run_of_read hwords]
  simp only [Arguments.execute, StateT.run_bind, hsettings.run_settings, run_value, herror,
    pure_bind]
  rfl

/-- Markup is printed unless it is exported. -/
theorem run_of_render_ok {value : Value} {markup : Text} (hwords : Arguments.read words = .ok a)
    (houtput : a.output = none) (hsettings : a.HasSettings tree settings)
    (hvalue : a.selected stdin = .ok value) (hmarkup : value.render settings.layout = .ok markup) :
    StateT.run (m := Id) (run (m := StateM FileTree) (pure stdin) words) tree =
      (⟨0, markup ++ ['\n'], []⟩, tree) := by
  rw [run_of_read hwords, run_execute hsettings.run_settings hvalue hmarkup, Arguments.deliver,
    houtput]
  rfl

/-- The ways that a run with a list can end, if nothing is exported. -/
inductive ListEnding (items : List Text) (tree : FileTree) : Outcome × FileTree → Prop
  | unreadable {item : Text} (hitem : firstUnreadable items = some item) :
      ListEnding items tree (⟨1, [], failureText (.invalidNumber item.trim)⟩, tree)
  | notFinite {values : List Binary64} {v : Binary64} (hread : List.Forall₂ ReadsAs items values)
      (hv : firstNotFinite values = some v) :
      ListEnding items tree (⟨1, [], failureText (.conversion (.evaluation (.element v)))⟩, tree)
  | printed {values : List Binary64} {markup : Text} (hread : List.Forall₂ ReadsAs items values)
      (hfinite : firstNotFinite values = none) :
      ListEnding items tree (⟨0, markup ++ ['\n'], []⟩, tree)

theorem listEnding_run (hwords : Arguments.read words = .ok a) (houtput : a.output = none)
    (hsettings : a.HasSettings tree settings) (hlist : a.list? kind = some text)
    (stdin : Option Content) : ListEnding (listItems kind text) tree
      (StateT.run (m := Id) (run (m := StateM FileTree) (pure stdin) words) tree) := by
  have hselected := selected_of_list hwords hlist stdin
  rcases readList_cases kind text with
    ⟨item, hitem, hread⟩ | ⟨value, rows, hread, hshows, helement, hvalues⟩
  · rw [run_of_selected_error hwords hsettings (hselected.trans hread)]
    exact .unreadable hitem
  · have hvalue := hselected.trans hread
    rcases hshows.render_cases helement settings.layout with
      ⟨v, hv, herror⟩ | ⟨hfinite, markup, hmarkup⟩
    · rw [run_of_render_error hwords hsettings hvalue herror]
      exact .notFinite hvalues hv
    · rw [run_of_render_ok hwords houtput hsettings hvalue hmarkup]
      exact .printed hvalues hfinite

end

/-! ## Reports -/

theorem failureText_of_message {e : Failure} {start ending : String} {shown : Text}
    (h : e.message = start ++ String.ofList shown ++ ending) :
    failureText e = ("Error: " ++ start).toList ++ shown ++ (ending ++ "\n").toList := by
  rw [failureText, h]
  simp only [String.toList_append, String.toList_ofList, List.append_assoc]

theorem failureText_invalidNumber (item : Text) : failureText (.invalidNumber item) =
    "Error: invalid number '".toList ++ item ++ "'\n".toList := by
  have hstart : "Error: " ++ "invalid number '" = "Error: invalid number '" := by decide
  have hend : "'" ++ "\n" = "'\n" := by decide
  rw [← hstart, ← hend]
  exact failureText_of_message rfl

theorem failureText_element (v : Binary64) : failureText (.conversion (.evaluation (.element v))) =
    "Error: Evaluation error: container element ".toList ++ v.toText ++
      " is not finite\n".toList := by
  have hmessage : (Failure.conversion (.evaluation (.element v))).message =
      "Evaluation error: " ++ "container element " ++ String.ofList v.toText ++
        " is not finite" := by
    have htext : (Failure.conversion (.evaluation (.element v))).message =
        "Evaluation error: " ++ ("container element " ++ String.ofList v.toText ++
          " is not finite") := rfl
    rw [htext]
    simp only [String.append_assoc]
  have hstart : "Error: " ++ ("Evaluation error: " ++ "container element ") =
      "Error: Evaluation error: container element " := by decide
  have hend : " is not finite" ++ "\n" = " is not finite\n" := by decide
  rw [← hstart, ← hend]
  exact failureText_of_message hmessage

/-! ## What a run with a list answers -/

/-- What can be seen of a run with a list, if nothing is exported. -/
structure AnswersList (kind : ContainerKind) (text : Text) (layout : Layout) (tree : FileTree)
    (outcome : Outcome × FileTree) : Prop where
  written : ∀ value, WritesList kind value text → ∃ markup, value.render layout = .ok markup ∧
    outcome = (⟨0, markup ++ ['\n'], []⟩, tree)
  code : outcome.1.code = 0 ↔
    ∀ item ∈ listItems kind text, ∃ v, ReadsAs item v ∧ v.isFinite = true
  unreadable : ∀ item, firstUnreadable (listItems kind text) = some item → outcome =
    (⟨1, [], "Error: invalid number '".toList ++ item.trim ++ "'\n".toList⟩, tree)
  notFinite : ∀ values v, List.Forall₂ ReadsAs (listItems kind text) values →
    firstNotFinite values = some v → outcome =
      (⟨1, [], "Error: Evaluation error: container element ".toList ++ v.toText ++
        " is not finite\n".toList⟩, tree)
  nonempty : ∀ other : ContainerKind,
    outcome.1.stderr ≠ failureText (.conversion (.emptyContainer other))

/-- The report of a missing element is that of no other ending. -/
theorem ListEnding.stderr_ne {items : List Text} {tree : FileTree} {outcome : Outcome × FileTree}
    (h : ListEnding items tree outcome) (other : ContainerKind) :
    outcome.1.stderr ≠ failureText (.conversion (.emptyContainer other)) := by
  intro heq
  cases h with
  | @unreadable item hitem =>
    have hstart : "Error: invalid number '".toList <+:
        failureText (.conversion (.emptyContainer other)) := by
      rw [← heq, failureText_invalidNumber, List.append_assoc]
      exact List.prefix_append _ _
    cases other <;> exact absurd hstart (by decide)
  | @notFinite values v hread hv =>
    have hstart : "Error: Evaluation error: container element ".toList <+:
        failureText (.conversion (.emptyContainer other)) := by
      rw [← heq, failureText_element, List.append_assoc]
      exact List.prefix_append _ _
    cases other <;> exact absurd hstart (by decide)
  | printed => cases other <;> cases heq

theorem ListEnding.code_eq_zero_iff {items : List Text} {tree : FileTree}
    {outcome : Outcome × FileTree} (h : ListEnding items tree outcome) :
    outcome.1.code = 0 ↔ ∀ item ∈ items, ∃ v, ReadsAs item v ∧ v.isFinite = true := by
  cases h with
  | @unreadable item hitem =>
    refine iff_of_false Nat.one_ne_zero fun hall => ?_
    obtain ⟨v, hread, -⟩ := hall item (List.mem_of_find?_eq_some hitem)
    have hnone := List.find?_some hitem
    rw [ReadsAs] at hread
    rw [hread] at hnone
    cases hnone
  | notFinite hread hv =>
    refine iff_of_false Nat.one_ne_zero fun hall => ?_
    rw [forall_finite_iff hread, ← firstNotFinite_eq_none, hv] at hall
    cases hall
  | printed hread hfinite =>
    rw [forall_finite_iff hread]
    exact iff_of_true rfl (firstNotFinite_eq_none.1 hfinite)

theorem ListEnding.of_firstUnreadable {items : List Text} {tree : FileTree}
    {outcome : Outcome × FileTree} (h : ListEnding items tree outcome) {item : Text}
    (hitem : firstUnreadable items = some item) :
    outcome = (⟨1, [], failureText (.invalidNumber item.trim)⟩, tree) := by
  cases h with
  | unreadable hother => cases hitem.symm.trans hother; rfl
  | notFinite hread _ => cases hitem.symm.trans (firstUnreadable_eq_none hread)
  | printed hread _ => cases hitem.symm.trans (firstUnreadable_eq_none hread)

theorem ListEnding.of_firstNotFinite {items : List Text} {tree : FileTree}
    {outcome : Outcome × FileTree} (h : ListEnding items tree outcome) {values : List Binary64}
    {v : Binary64} (hread : List.Forall₂ ReadsAs items values)
    (hv : firstNotFinite values = some v) :
    outcome = (⟨1, [], failureText (.conversion (.evaluation (.element v)))⟩, tree) := by
  cases h with
  | unreadable hitem => cases hitem.symm.trans (firstUnreadable_eq_none hread)
  | notFinite hread' hv' =>
    obtain rfl := eq_of_readsAs hread hread'
    cases hv.symm.trans hv'
    rfl
  | printed hread' hfinite =>
    obtain rfl := eq_of_readsAs hread hread'
    cases hv.symm.trans hfinite

/-- A list on a command line is read back exactly. It can be put in front of all words that give
nothing else to convert, and where it stands among the words does not matter. Numbers that a list is
written for are printed as their container, in the layout of the settings. Any other list is
converted just when all its items are finite numbers; if they are not, the first item that is no
number is reported, and the first number that is not finite only if there is no such item. That a
container has no elements is never reported. -/
theorem run_reads_lists_back (kind : ContainerKind) (text : Text) :
    (∀ words a, Arguments.read words = .ok a → a.expression = none → a.vector = none →
      a.matrix = none → Arguments.read (listWord kind text :: words) = .ok (a.give kind text)) ∧
    ∀ words a stdin, Arguments.read words = .ok a →
      listWord kind text ∈ words.takeWhile (· ≠ "--".toList) →
        (∀ value layout other, a.selected stdin = .ok value →
          value.render layout ≠ .error (.emptyContainer other)) ∧
        ∀ tree settings, a.HasSettings tree settings → a.output = none →
          AnswersList kind text settings.layout tree
            (StateT.run (m := Id) (run (m := StateM FileTree) (pure stdin) words) tree) := by
  refine ⟨fun words a hwords hexpression hvector hmatrix =>
    read_listWord_cons hwords hexpression hvector hmatrix kind text,
    fun words a stdin hwords hmem => ?_⟩
  have hlist := list?_of_read hwords hmem
  have hselected := selected_of_list hwords hlist stdin
  refine ⟨fun value layout other hvalue hempty => ?_, fun tree settings hsettings houtput => ?_⟩
  · rw [hselected] at hvalue
    exact render_ne_emptyContainer hvalue layout other hempty
  · have hending := listEnding_run hwords houtput hsettings hlist stdin
    refine ⟨fun value hwrites => ?_, hending.code_eq_zero_iff, fun item hitem => ?_,
      fun values v hread hv => ?_, hending.stderr_ne⟩
    · obtain ⟨markup, hmarkup⟩ := hwrites.exists_render settings.layout
      have hvalue := hselected.trans hwrites.readList_eq
      exact ⟨markup, hmarkup, run_of_render_ok hwords houtput hsettings hvalue hmarkup⟩
    · rw [hending.of_firstUnreadable hitem, failureText_invalidNumber]
    · rw [hending.of_firstNotFinite hread hv, failureText_element]

/-- Two rows of different lengths, the first of them with a negative zero, in the layout that a file
asks for; and two vectors, one with a semicolon in front of an item that is no number either, one
with an infinite number. -/
theorem run_reads_lists_back_ragged :
    let half := Binary64.ofCode false 0x3FE0000000000000
    let three := Binary64.ofCode false 0x4008000000000000
    let rows : List (List Binary64) := [[Binary64.zero.neg, half], [three]]
    let text : Text := " -0 ,0.5;\t3".toList
    let markup : Text := "\\begin\x7bbmatrix\x7d\n0 & 0.5 \\\\\n3 \n\\end\x7bbmatrix\x7d".toList
    let tree : FileTree := ⟨[(["c".toList], .file (.text "pretty_printing = true".toList))]⟩
    let settings : Settings := { Settings.default with layout := .pretty }
    let a : Arguments := { Arguments.empty with config := some "c".toList }
    let b := a.give .matrix text
    let outcome (kind : ContainerKind) (text : Text) : Outcome × FileTree := StateT.run (m := Id)
      (run (m := StateM FileTree) (pure none) [listWord kind text, "-c".toList, "c".toList]) tree
    Arguments.read ["-c".toList, "c".toList] = .ok a ∧
    Arguments.read [listWord .matrix text, "-c".toList, "c".toList] = .ok b ∧
    b.HasSettings tree settings ∧ b.output = none ∧ WritesList .matrix (.matrix rows) text ∧
    outcome .matrix text = (⟨0, markup ++ ['\n'], []⟩, tree) ∧
    firstUnreadable (listItems .vector "3,1;2 ,x".toList) = some "1;2 ".toList ∧
    outcome .vector "3,1;2 ,x".toList =
      (⟨1, [], "Error: invalid number '1;2'\n".toList⟩, tree) ∧
    List.Forall₂ ReadsAs (listItems .vector "3, -inf".toList) [three, .infinity true] ∧
    outcome .vector "3, -inf".toList =
      (⟨1, [], "Error: Evaluation error: container element -inf is not finite\n".toList⟩,
        tree) := by
  intro half three rows text markup tree settings a b outcome
  have hwords : Arguments.read ["-c".toList, "c".toList] = .ok a := rfl
  have hread (kind : ContainerKind) (text : Text) :=
    (run_reads_lists_back kind text).1 _ a hwords rfl rfl rfl
  have hsettings (kind : ContainerKind) (text : Text) :
      (a.give kind text).HasSettings tree settings := by
    have hbase : Settings.ofText? "pretty_printing = true".toList = some settings := by cbv
    cases kind <;> exact ⟨settings, rfl, Or.inr ⟨"c".toList, _, rfl, rfl, hbase⟩⟩
  have hanswers (kind : ContainerKind) (text : Text) :
      AnswersList kind text .pretty tree (outcome kind text) := by
    refine ((run_reads_lists_back kind text).2 _ _ none (hread kind text) ?_).2 tree settings
      (hsettings kind text) (by cases kind <;> rfl)
    cases kind <;> exact List.mem_cons_self
  have hmarkup : renderMatrix .pretty rows = .ok markup := by decide +kernel
  have hwritten : WritesList .matrix (.matrix rows) text := by
    have hblank : Text.AllBlank [' '] := by simp [Text.AllBlank, Text.isBlank, Text.blankRanges]
    have htab : Text.AllBlank ['\t'] := by simp [Text.AllBlank, Text.isBlank, Text.blankRanges]
    have hzero : WritesItem Binary64.zero.neg " -0 ".toList :=
      ⟨by decide, [' '], [' '], hblank, hblank, by decide +kernel⟩
    have hhalf : WritesItem half "0.5".toList :=
      ⟨by decide, [], [], Text.allBlank_nil, Text.allBlank_nil, by decide +kernel⟩
    have hthree : WritesItem three "\t3".toList :=
      ⟨by decide, ['\t'], [], htab, Text.allBlank_nil, by decide +kernel⟩
    exact .matrix (List.cons_ne_nil _ _)
      (.cons ⟨List.cons_ne_nil _ _, _, .cons hzero (.cons hhalf .nil), rfl⟩
        (.cons ⟨List.cons_ne_nil _ _, _, .cons hthree .nil, rfl⟩ .nil))
  obtain ⟨markup', hmarkup', hprinted⟩ := (hanswers .matrix text).written _ hwritten
  obtain rfl : markup = markup' := Except.ok.inj (hmarkup.symm.trans hmarkup')
  have hunreadable :
      firstUnreadable (listItems .vector "3,1;2 ,x".toList) = some "1;2 ".toList := by
    decide +kernel
  have hinfinite : List.Forall₂ ReadsAs (listItems .vector "3, -inf".toList)
      [three, .infinity true] := by
    have hthree : Binary64.ofText? (Text.trim "3".toList) = some three := by decide +kernel
    have hinfinity : Binary64.ofText? (Text.trim " -inf".toList) = some (.infinity true) := by
      decide +kernel
    exact .cons hthree (.cons hinfinity .nil)
  refine ⟨hwords, hread .matrix text, hsettings .matrix text, rfl, hwritten, hprinted, hunreadable,
    ?_, hinfinite, ?_⟩
  · have htrim : Text.trim "1;2 ".toList = "1;2".toList := by decide +kernel
    rw [(hanswers .vector _).unreadable _ hunreadable, htrim]
    rfl
  · have hshown : (Binary64.infinity true).toText = "-inf".toList := by decide +kernel
    rw [(hanswers .vector _).notFinite _ (.infinity true) hinfinite (by decide), hshown]
    rfl

end MathMarkup.CommandLine
