import Mathlib
import MathMarkup.Proofs.Document.Export

/-!
# Insertions accumulate

The first opening marker of a document and its last closing one stay where they are whatever is put
between them, so that every insertion finds the same two places: what comes after the opening marker
piles up in front of the body, and what comes before the closing one behind it.
-/
namespace MathMarkup

/-- A text with the body of a document between its first opening marker and its last closing one. -/
structure IsDocument (before body after text : Text) : Prop where
  text_eq : text = before ++ documentBegin ++ body ++ documentEnd ++ after
  first : Text.NoneBefore documentBegin text before.length
  last : Text.NoneAfter documentEnd text (before ++ documentBegin ++ body).length

namespace IsDocument

variable {before body after text : Text}

theorem cutAfterFirst (h : IsDocument before body after text) :
    Text.cutAfterFirst documentBegin text =
      some (before ++ documentBegin, body ++ documentEnd ++ after) := by
  have htext : text = before ++ documentBegin ++ (body ++ documentEnd ++ after) := by
    rw [h.text_eq]
    simp only [List.append_assoc]
  have hfirst := h.first
  rw [htext] at hfirst ⊢
  exact Text.cutAfterFirst_of_noneBefore hfirst

theorem cutBeforeLast (h : IsDocument before body after text) :
    Text.cutBeforeLast documentEnd text =
      some (before ++ documentBegin ++ body, documentEnd ++ after) := by
  have hlast := h.last
  rw [h.text_eq] at hlast ⊢
  exact Text.cutBeforeLast_of_noneAfter hlast

/-- Another body leaves both markers what they are. -/
theorem change_body (h : IsDocument before body after text) (new : Text) :
    IsDocument before new after (before ++ documentBegin ++ new ++ documentEnd ++ after) := by
  have hlast := h.last
  have hfirst := h.first
  rw [h.text_eq] at hfirst hlast
  have hopening : Text.NoneBefore documentBegin
      (before ++ documentBegin ++ (body ++ documentEnd ++ after)) before.length := by
    simpa only [List.append_assoc] using hfirst
  have hchanged := hopening.change_after (new ++ documentEnd ++ after)
  exact ⟨rfl, by simpa only [List.append_assoc] using hchanged, hlast.change_before _⟩

/-- A document with nothing around it, whatever its body contains. -/
theorem of_body (body : Text) : IsDocument [] body [] (documentBegin ++ body ++ documentEnd) := by
  refine ⟨by simp, fun p q _ => Nat.zero_le _, fun p q hpq => ?_⟩
  have hlengths := congrArg List.length hpq
  simp only [List.length_append, List.nil_append] at hlengths ⊢
  omega

end IsDocument

/-! ## One insertion -/

namespace Export

/-- The body of a document after an insertion. -/
def inserted (x : Export) (body : Text) : Text :=
  match x.options.mode with
  | .override => body
  | .afterBegin => x.wrapped ++ body
  | .beforeEnd => body ++ x.wrapped

theorem exists_result? {before body after text : Text} (h : IsDocument before body after text)
    (x : Export) (hmode : x.options.mode ≠ .override) :
    ∃ new, x.options.mode.splice.result? text x.wrapped = some new ∧
      IsDocument before (x.inserted body) after new := by
  refine ⟨_, ?_, h.change_body (x.inserted body)⟩
  unfold inserted
  cases hcase : x.options.mode with
  | override => exact absurd hcase hmode
  | afterBegin => simp [WriteMode.splice, Splice.result?, h.cutAfterFirst]
  | beforeEnd => simp [WriteMode.splice, Splice.result?, h.cutBeforeLast]

/-! ## Runs of insertions -/

/-- The wrapped contents of the exports of one mode. -/
def contentsOf (mode : WriteMode) (exports : List Export) : List Text :=
  (exports.filter (·.options.mode = mode)).map wrapped

/-- In front of the body the latest insertion comes first, behind it the latest comes last. -/
theorem foldl_inserted (exports : List Export) (body : Text) :
    exports.foldl (fun body x => x.inserted body) body =
      (contentsOf .afterBegin exports).reverse.flatten ++ body ++
        (contentsOf .beforeEnd exports).flatten := by
  induction exports generalizing body with
  | nil => simp [contentsOf]
  | cons x exports ih =>
    rw [List.foldl_cons, ih]
    unfold inserted contentsOf
    cases hmode : x.options.mode with
    | override => simp [hmode]
    | afterBegin => simp [hmode]
    | beforeEnd => simp [hmode]

/-- All exports, one after the other. -/
def runAll {σ : Type} [FileAccess (StateM σ)] (exports : List Export) (s : σ) :
    List (Except ExportError Text) × σ :=
  StateT.run (m := Id)
    (exports.mapM fun x => exportText x.settings x.options x.filename x.content) s

/-- What holds a text goes on to do so: it is read where the targets lead, and is replaced there. -/
structure Keeps {σ : Type} [FileAccess (StateM σ)] (target : Path → Prop)
    (holds : σ → Text → Prop) : Prop where
  read : ∀ {s text path}, target path → holds s text →
    StateT.run (m := Id) (FileAccess.readText path) s = (.ok text, s)
  replace : ∀ {s text path} (new : Text), target path → holds s text → ∃ after,
    StateT.run (m := Id) (FileAccess.replaceText path new) s = (.ok (), after) ∧ holds after new

section

variable {σ : Type} [FileAccess (StateM σ)] {target : Path → Prop} {holds : σ → Text → Prop}
  {before body after text : Text}

/-- An insertion replaces the text by the spliced one, or finds that its marker is missing. -/
theorem run_of_keeps (hkeeps : Keeps target holds) {x : Export} {s : σ} (htarget : target x.target)
    (hmode : x.options.mode ≠ .override) (hs : holds s text) :
    (∃ new s', x.options.mode.splice.result? text x.wrapped = some new ∧
      x.run s = (.ok new, s') ∧ holds s' new) ∨
    (x.options.mode.splice.result? text x.wrapped = none ∧
      ∃ marker, x.run s = (.error (.missingAnchor marker x.target), s)) := by
  -- an insertion composes one text only, because it reads the file
  have hcomposes {new : Text} (h : x.Composes (.ok text) new) :
      x.options.mode.splice.result? text x.wrapped = some new := by
    obtain ⟨current, hnone | hcurrent, hresult⟩ := h
    · cases hcase : x.options.mode <;> simp_all [marker?, WriteMode.splice, Splice.anchor?]
    · cases hcurrent.unique (Or.inl rfl)
      exact hresult
  have hcourse := x.course_run (hkeeps.read htarget hs)
  generalize x.run s = outcome at hcourse ⊢
  cases hcourse with
  | unreadable hread => cases hread
  | missing hmarker hcurrent habsent =>
    cases hcurrent.unique (Or.inl rfl)
    exact Or.inr ⟨Splice.result?_eq_none.2 ⟨_, hmarker, habsent⟩, _, rfl⟩
  | refused _ hreplace =>
    obtain ⟨s', hreplace', -⟩ := hkeeps.replace _ htarget hs
    cases hreplace.symm.trans hreplace'
  | written hnew hreplace =>
    obtain ⟨s', hreplace', hs'⟩ := hkeeps.replace _ htarget hs
    cases hreplace.symm.trans hreplace'
    exact Or.inl ⟨_, _, hcomposes hnew, rfl, hs'⟩

theorem run_insertion (hkeeps : Keeps target holds) {x : Export} {s : σ} (htarget : target x.target)
    (hmode : x.options.mode ≠ .override) (hs : holds s text)
    (h : IsDocument before body after text) : ∃ new s', x.run s = (.ok new, s') ∧
      holds s' new ∧ IsDocument before (x.inserted body) after new := by
  obtain ⟨new, hresult, hnew⟩ := exists_result? h x hmode
  rcases run_of_keeps hkeeps htarget hmode hs with ⟨other, s', hother, hrun, hs'⟩ | ⟨hnone, -⟩
  · cases hresult.symm.trans hother
    exact ⟨new, s', hrun, hs', hnew⟩
  · cases hresult.symm.trans hnone

theorem runAll_cons (x : Export) (exports : List Export) (s : σ) : runAll (x :: exports) s =
    ((x.run s).1 :: (runAll exports (x.run s).2).1, (runAll exports (x.run s).2).2) := by
  unfold runAll run
  rw [List.mapM_cons]
  rfl

/-- Each insertion finds the document that the ones before it have left. -/
theorem runAll_insertions (hkeeps : Keeps target holds) {exports : List Export} {s : σ}
    (htarget : ∀ x ∈ exports, target x.target)
    (hmode : ∀ x ∈ exports, x.options.mode ≠ .override) (hs : holds s text)
    (h : IsDocument before body after text) : ∃ (texts : List Text) (new : Text) (s' : σ),
      runAll exports s = (texts.map .ok, s') ∧ texts.length = exports.length ∧ holds s' new ∧
      IsDocument before (exports.foldl (fun body x => x.inserted body) body) after new := by
  -- the markers stay, the body grows: the induction is over the exports for every body
  induction exports generalizing s text body with
  | nil => exact ⟨[], text, s, rfl, rfl, hs, h⟩
  | cons x exports ih =>
    obtain ⟨first, s', hrun, hs', hfirst⟩ := run_insertion hkeeps (htarget x List.mem_cons_self)
      (hmode x List.mem_cons_self) hs h
    obtain ⟨texts, new, s'', hruns, hlength, hs'', hnew⟩ :=
      ih (fun y hy => htarget y (List.mem_cons_of_mem x hy))
        (fun y hy => hmode y (List.mem_cons_of_mem x hy)) hs' hfirst
    refine ⟨first :: texts, new, s'', ?_, ?_, hs'', hnew⟩
    · rw [runAll_cons, hrun, hruns, List.map_cons]
    · rw [List.length_cons, List.length_cons, hlength]

end

/-! ## Files that keep their place -/

theorem keeps_inMemory (key : List Path.Component) :
    Keeps (σ := MemoryStore) (·.components = key)
      fun store text => store.text? key = some text := by
  refine ⟨?_, ?_⟩
  · rintro store text path rfl htext
    have hget : store.get? path = some text := htext
    rw [MemoryStore.run_readText, MemoryStore.readText, hget]
    rfl
  · rintro store text path new rfl -
    exact ⟨store.insert path new, rfl, by rw [MemoryStore.text?_insert, Function.update_self]⟩

theorem keeps_inTree (targets : List Path) (place : Place) :
    Keeps (σ := FileTree) (· ∈ targets) fun tree text =>
      (∀ path ∈ targets, tree.destination path = .ok place) ∧
        tree.file? place = some (.text text) := by
  refine ⟨?_, ?_⟩
  · rintro tree text path hpath ⟨hplace, htext⟩
    have hread := FileTree.readText_of_file? (hplace path hpath) htext
    exact congrArg (·, tree) hread
  · rintro tree text path new hpath ⟨hplace, htext⟩
    refine ⟨_, FileTree.replaceText_of_file? (hplace path hpath) htext new,
      fun other hother => ?_, ?_⟩
    · exact FileTree.destination_set_file (hplace other hother) (.text new)
    · rw [FileTree.file?_set_file (FileTree.destination_ne_nil (hplace path hpath)),
        Function.update_self]

/-! ## Wrapped contents -/

/-- The bracket set of an export: its own, or else that of the settings. -/
def brackets (x : Export) : Brackets := x.options.brackets.getD x.settings.brackets

/-- What stands between a marker and the content. -/
def separator (x : Export) : Text := if x.settings.layout = .pretty then ['\n'] else []

/-- Only a document has markers around its content, and only those that the bracket set asks for. -/
theorem wrapped_eq (x : Export) : x.wrapped =
    if x.options.format = .document then
      (if x.brackets.hasOpening then documentBegin ++ x.separator else []) ++
        x.content ++
        (if x.brackets.hasClosing then x.separator ++ documentEnd else [])
    else x.content := by
  have hseparator : Format.markerSeparator x.settings.layout = x.separator := by
    unfold separator
    cases x.settings.layout <;> rfl
  have hwrapped : x.wrapped =
      x.options.format.wrap x.brackets x.settings.layout x.content := rfl
  rw [hwrapped, Format.wrap, hseparator]
  cases x.options.format <;> rfl

/-! ## Whole documents -/

/-- An export of a document with both of its markers over the whole file. -/
structure IsWholeDocument (x : Export) : Prop where
  mode : x.options.mode = .override
  format : x.options.format = .document
  opening : (x.options.brackets.getD x.settings.brackets).hasOpening = true
  closing : (x.options.brackets.getD x.settings.brackets).hasClosing = true

namespace IsWholeDocument

variable {x : Export}

theorem isDocument (h : x.IsWholeDocument) :
    IsDocument [] (x.separator ++ x.content ++ x.separator) [] x.wrapped := by
  have hwrapped : x.wrapped =
      documentBegin ++ (x.separator ++ x.content ++ x.separator) ++ documentEnd := by
    have hopening : x.brackets.hasOpening = true := h.opening
    have hclosing : x.brackets.hasClosing = true := h.closing
    rw [wrapped_eq, if_pos h.format, if_pos hopening, if_pos hclosing]
    simp only [List.append_assoc]
  rw [hwrapped]
  exact .of_body _

theorem eq_wrapped (h : x.IsWholeDocument) {read : Except StoreError Text} {text : Text}
    (hcomposes : x.Composes read text) : text = x.wrapped := by
  obtain ⟨current, -, hresult⟩ := hcomposes
  rw [h.mode] at hresult
  exact (Option.some_inj.1 hresult).symm

theorem run_inMemory (h : x.IsWholeDocument) (store : MemoryStore) :
    x.run store = (.ok x.wrapped, store.insert x.target x.wrapped) := by
  simp only [run, exportText, h.mode]
  rfl

end IsWholeDocument

/-- Insertions accumulate in a fixed layout. What is inserted is the content itself, or in a
document the content between the markers asked for. A document written over a whole file has
nothing around its markers; from a file that holds a document, in either kind of store, every
insertion succeeds, and the file ends with the same markers around what has been inserted and the
old body. -/
theorem insertions_accumulate :
    (∀ x : Export, x.wrapped =
      if x.options.format = .document then
        (if x.brackets.hasOpening then "\\begin\x7bdocument\x7d".toList ++ x.separator else []) ++
          x.content ++
          (if x.brackets.hasClosing then x.separator ++ "\\end\x7bdocument\x7d".toList else [])
      else x.content) ∧
    (∀ x : Export, x.IsWholeDocument →
      IsDocument [] (x.separator ++ x.content ++ x.separator) [] x.wrapped ∧
      (∀ store : MemoryStore, (x.run store).1 = .ok x.wrapped ∧
        (x.run store).2.text? x.target.components = some x.wrapped) ∧
      ∀ (tree : FileTree) (text : Text), (x.run tree).1 = .ok text → text = x.wrapped ∧
        ∃ place, (x.run tree).2.destination x.target = .ok place ∧
          (x.run tree).2.file? place = some (.text x.wrapped)) ∧
    ∀ (before body after text : Text) (exports : List Export), IsDocument before body after text →
      (∀ x ∈ exports, x.options.mode ≠ .override) →
      (∀ (store : MemoryStore) (key : List Path.Component),
        (∀ x ∈ exports, x.target.components = key) → store.text? key = some text →
        ∃ (texts : List Text) (store' : MemoryStore),
          runAll exports store = (texts.map .ok, store') ∧ texts.length = exports.length ∧
          store'.text? key = some (before ++ documentBegin ++
            ((contentsOf .afterBegin exports).reverse.flatten ++ body ++
              (contentsOf .beforeEnd exports).flatten) ++ documentEnd ++ after)) ∧
      ∀ (tree : FileTree) (place : Place),
        (∀ x ∈ exports, tree.destination x.target = .ok place) →
        tree.file? place = some (.text text) →
        ∃ (texts : List Text) (tree' : FileTree),
          runAll exports tree = (texts.map .ok, tree') ∧ texts.length = exports.length ∧
          tree'.file? place = some (.text (before ++ documentBegin ++
            ((contentsOf .afterBegin exports).reverse.flatten ++ body ++
              (contentsOf .beforeEnd exports).flatten) ++ documentEnd ++ after)) := by
  refine ⟨wrapped_eq, fun x hx => ⟨hx.isDocument, fun store => ?_, fun tree text htext => ?_⟩,
    fun before body after text exports h hmode => ⟨fun store key htarget htext => ?_,
      fun tree place hplace htext => ?_⟩⟩
  · rw [hx.run_inMemory, MemoryStore.text?_insert, Function.update_self]
    exact ⟨rfl, rfl⟩
  · have hrun := x.inTree_run tree
    have hwrapped := hx.eq_wrapped (hrun.answers.composes text htext)
    obtain ⟨place, hplace, hfiles⟩ := hrun.atomic.written text htext
    refine ⟨hwrapped, place, hplace, ?_⟩
    rw [hfiles, Function.update_self, hwrapped]
  · obtain ⟨texts, new, store', hruns, hlength, htext', hnew⟩ :=
      runAll_insertions (keeps_inMemory key) htarget hmode htext h
    refine ⟨texts, store', hruns, hlength, ?_⟩
    rw [htext', hnew.text_eq, foldl_inserted]
  · have hall : ∀ path ∈ exports.map target, tree.destination path = .ok place := by
      intro path hpath
      obtain ⟨x, hx, rfl⟩ := List.mem_map.1 hpath
      exact hplace x hx
    obtain ⟨texts, new, tree', hruns, hlength, ⟨-, htext'⟩, hnew⟩ :=
      runAll_insertions (keeps_inTree (exports.map target) place)
        (fun x hx => List.mem_map_of_mem hx) hmode ⟨hall, htext⟩ h
    refine ⟨texts, tree', hruns, hlength, ?_⟩
    rw [htext', hnew.text_eq, foldl_inserted]

/-- Whole documents are inserted around a body: the markers they bring move neither place. -/
theorem insertions_accumulate_nested :
    let inner : Export :=
      ⟨Settings.default, ⟨.afterBegin, .document, some .both⟩, "a".toList, "x".toList⟩
    let outer : Export := ⟨⟨.pretty, Path.ofString ".", .empty⟩,
      ⟨.beforeEnd, .document, some .both⟩, "a.tex".toList, "y".toList⟩
    let text : Text := documentBegin ++ "b".toList ++ documentEnd
    IsDocument [] "b".toList [] text ∧ ∃ (texts : List Text) (store : MemoryStore),
      runAll [inner, outer] (⟨[(inner.target.components, text)]⟩ : MemoryStore) =
        (texts.map .ok, store) ∧ texts.length = 2 ∧
      store.text? inner.target.components = some (documentBegin ++ (inner.wrapped ++ "b".toList ++
        outer.wrapped) ++ documentEnd) := by
  intro inner outer text
  have hdocument : IsDocument [] "b".toList [] text := .of_body _
  have hmode : ∀ x ∈ [inner, outer], x.options.mode ≠ .override := by
    simp [inner, outer]
  have htarget : ∀ x ∈ [inner, outer], x.target.components = inner.target.components := by
    have houter : outer.target.components = inner.target.components := by decide
    simp [houter]
  have hstore : (⟨[(inner.target.components, text)]⟩ : MemoryStore).text?
      inner.target.components = some text := by
    simp [MemoryStore.text?, valueAt]
  obtain ⟨texts, store, hruns, hlength, htext⟩ :=
    (insertions_accumulate.2.2 _ _ _ _ [inner, outer] hdocument hmode).1 _ _ htarget hstore
  refine ⟨hdocument, texts, store, hruns, hlength, ?_⟩
  simpa [contentsOf, inner, outer] using htext

end Export

end MathMarkup
