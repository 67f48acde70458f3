import Mathlib
import MathMarkup.CommandLine.Run
import MathMarkup.Proofs.Container
import MathMarkup.Proofs.Number.Reading
import MathMarkup.Proofs.Trim

/-!
# Reading lists of numbers

The items of a list are read from left to right, up to the first that is no number, and what is read
has at least one element. A list that finite numbers are written in is read as these numbers.
-/
namespace MathMarkup.CommandLine

open Container

/-! ## Items -/

/-- The items of a list in the order in which they are read. Only a matrix has more than one row. -/
def listItems : ContainerKind → Text → List Text
  | .vector, text => text.split ','
  | .matrix, text => (text.split ';').flatMap (Text.split ',')

/-- The item is a number with blanks around it. -/
def ReadsAs (item : Text) (v : Binary64) : Prop := Binary64.ofText? item.trim = some v

def firstUnreadable (items : List Text) : Option Text :=
  items.find? fun item => (Binary64.ofText? item.trim).isNone

theorem readItems_of_readsAs {items : List Text} {values : List Binary64}
    (h : List.Forall₂ ReadsAs items values) : readItems items = .ok values := by
  induction h with
  | nil => rfl
  | cons hread _ ih =>
    unfold ReadsAs at hread
    simp only [readItems, hread, ih]

theorem firstUnreadable_eq_none {items : List Text} {values : List Binary64}
    (h : List.Forall₂ ReadsAs items values) : firstUnreadable items = none := by
  rw [firstUnreadable, List.find?_eq_none]
  intro item hitem
  obtain ⟨v, hread⟩ := Parse.exists_of_forall₂ h item hitem
  rw [ReadsAs] at hread
  simp [hread]

theorem eq_of_readsAs {items : List Text} {values values' : List Binary64}
    (h : List.Forall₂ ReadsAs items values) (h' : List.Forall₂ ReadsAs items values') :
    values = values' :=
  Except.ok.inj ((readItems_of_readsAs h).symm.trans (readItems_of_readsAs h'))

theorem forall_finite_iff {items : List Text} {values : List Binary64}
    (h : List.Forall₂ ReadsAs items values) :
    (∀ item ∈ items, ∃ v, ReadsAs item v ∧ v.isFinite = true) ↔
      ∀ v ∈ values, v.isFinite = true := by
  induction h with
  | nil => simp
  | @cons item v items values hread _ ih =>
    have hitem : (∃ w, ReadsAs item w ∧ w.isFinite = true) ↔ v.isFinite = true := by
      unfold ReadsAs at hread ⊢
      simp [hread]
    rw [List.forall_mem_cons, List.forall_mem_cons, hitem, ih]

theorem readItems_cases (items : List Text) :
    (∃ item, firstUnreadable items = some item ∧
      readItems items = .error (.invalidNumber item.trim)) ∨
    ∃ values, List.Forall₂ ReadsAs items values ∧ readItems items = .ok values := by
  induction items with
  | nil => exact .inr ⟨[], .nil, rfl⟩
  | cons item items ih =>
    unfold firstUnreadable at ih ⊢
    cases hread : Binary64.ofText? item.trim with
    | none =>
      refine .inl ⟨item, by simp [hread], ?_⟩
      simp only [readItems, hread]
    | some v =>
      rw [List.find?_cons_of_neg (by simp [hread])]
      rcases ih with ⟨other, hother, hitems⟩ | ⟨values, hvalues, hitems⟩
      · refine .inl ⟨other, hother, ?_⟩
        simp only [readItems, hread, hitems]
      · refine .inr ⟨v :: values, .cons hread hvalues, ?_⟩
        simp only [readItems, hread, hitems]

theorem readRows_cases (texts : List Text) :
    (∃ item, firstUnreadable (texts.flatMap (Text.split ',')) = some item ∧
      readRows texts = .error (.invalidNumber item.trim)) ∨
    ∃ rows, List.Forall₂ (fun text row => List.Forall₂ ReadsAs (text.split ',') row) texts rows ∧
      readRows texts = .ok rows := by
  induction texts with
  | nil => exact .inr ⟨[], .nil, rfl⟩
  | cons text texts ih =>
    -- The first row decides, unless all its items are numbers.
    have hfirst : firstUnreadable ((text :: texts).flatMap (Text.split ',')) =
        (firstUnreadable (text.split ',')).or
          (firstUnreadable (texts.flatMap (Text.split ','))) := List.find?_append
    rw [hfirst]
    rcases readItems_cases (text.split ',') with ⟨item, hitem, hrow⟩ | ⟨row, hvalues, hrow⟩
    · refine .inl ⟨item, by rw [hitem]; rfl, ?_⟩
      simp only [readRows, readNumbers, hrow]
    · rw [firstUnreadable_eq_none hvalues, Option.none_or]
      rcases ih with ⟨item, hitem, hrows⟩ | ⟨rows, hvaluess, hrows⟩
      · refine .inl ⟨item, hitem, ?_⟩
        simp only [readRows, readNumbers, hrow, hrows]
      · refine .inr ⟨row :: rows, .cons hvalues hvaluess, ?_⟩
        simp only [readRows, readNumbers, hrow, hrows]

/-! ## Lists -/

def readList : ContainerKind → Text → Except Failure Value
  | .vector, text => (readNumbers text).map .vector
  | .matrix, text => (readRows (text.split ';')).map .matrix

/-- The rows that the markup of a container shows. -/
inductive Shows : ContainerKind → Value → List (List Binary64) → Prop
  | vector (values : List Binary64) : Shows .vector (.vector values) (values.map fun v => [v])
  | matrix (rows : List (List Binary64)) : Shows .matrix (.matrix rows) rows

theorem Shows.render_eq {kind : ContainerKind} {value : Value} {rows : List (List Binary64)}
    (h : Shows kind value rows) (layout : Layout) :
    value.render layout = Container.render kind layout rows := by
  cases h <;> rfl

theorem Shows.render_cases {kind : ContainerKind} {value : Value} {rows : List (List Binary64)}
    (h : Shows kind value rows) (helement : HasElement rows) (layout : Layout) :
    (∃ v, firstNotFinite rows.flatten = some v ∧
      value.render layout = .error (.evaluation (.element v))) ∨
    (firstNotFinite rows.flatten = none ∧ ∃ markup, value.render layout = .ok markup) := by
  rw [h.render_eq]
  cases hv : firstNotFinite rows.flatten with
  | some v => exact .inl ⟨v, rfl, render_of_firstNotFinite helement hv⟩
  | none => exact .inr ⟨rfl, exists_render_iff.2 ⟨helement, firstNotFinite_eq_none.1 hv⟩⟩

theorem readList_cases (kind : ContainerKind) (text : Text) :
    (∃ item, firstUnreadable (listItems kind text) = some item ∧
      readList kind text = .error (.invalidNumber item.trim)) ∨
    ∃ value rows, readList kind text = .ok value ∧ Shows kind value rows ∧ HasElement rows ∧
      List.Forall₂ ReadsAs (listItems kind text) rows.flatten := by
  cases kind with
  | vector =>
    rcases readItems_cases (text.split ',') with ⟨item, hitem, hread⟩ | ⟨values, hvalues, hread⟩
    · refine .inl ⟨item, hitem, ?_⟩
      rw [readList, readNumbers, hread]
      rfl
    · refine .inr ⟨_, _, ?_, .vector values, ?_, ?_⟩
      · rw [readList, readNumbers, hread]
        rfl
      · rw [hasElement_column]
        rintro rfl
        exact Text.split_ne_nil ',' text (List.forall₂_nil_right_iff.1 hvalues)
      · rwa [flatten_column]
  | matrix =>
    rcases readRows_cases (text.split ';') with ⟨item, hitem, hread⟩ | ⟨rows, hrows, hread⟩
    · refine .inl ⟨item, hitem, ?_⟩
      rw [readList, hread]
      rfl
    · refine .inr ⟨_, _, ?_, .matrix rows, ?_, ?_⟩
      · rw [readList, hread]
        rfl
      · obtain ⟨first, rest, hsplit⟩ := List.exists_cons_of_ne_nil (Text.split_ne_nil ';' text)
        rw [hsplit, List.forall₂_cons_left_iff] at hrows
        obtain ⟨row, rows, hrow, -, rfl⟩ := hrows
        obtain ⟨item, items, hitems⟩ := List.exists_cons_of_ne_nil (Text.split_ne_nil ',' first)
        rw [hitems, List.forall₂_cons_left_iff] at hrow
        obtain ⟨v, vs, -, -, rfl⟩ := hrow
        exact ⟨v, vs, rows, rfl⟩
      · rw [listItems, List.flatMap]
        exact List.rel_flatten (List.forall₂_map_left_iff.2 hrows)

theorem render_ne_emptyContainer {kind : ContainerKind} {text : Text} {value : Value}
    (h : readList kind text = .ok value) (layout : Layout) (other : ContainerKind) :
    value.render layout ≠ .error (.emptyContainer other) := by
  intro hempty
  rcases readList_cases kind text with ⟨item, -, hread⟩ | ⟨value', rows, hread, hshows, helement, -⟩
  · cases h.symm.trans hread
  · obtain rfl := Except.ok.inj (h.symm.trans hread)
    rcases hshows.render_cases helement layout with ⟨v, -, herror⟩ | ⟨-, markup, hmarkup⟩
    · cases hempty.symm.trans herror
    · cases hempty.symm.trans hmarkup

/-! ## Written lists -/

/-- A finite number is written as its text with any blanks around it. -/
def WritesItem (v : Binary64) (item : Text) : Prop :=
  v.isFinite = true ∧ ∃ before after : Text, before.AllBlank ∧ after.AllBlank ∧
    item = before ++ v.toText ++ after

def WritesRow (values : List Binary64) (text : Text) : Prop :=
  values ≠ [] ∧ ∃ items, List.Forall₂ WritesItem values items ∧ text = Text.join [','] items

/-- The texts that finite numbers are written in: commas stand between the numbers of a row, and
semicolons between the rows of a matrix. -/
inductive WritesList : ContainerKind → Value → Text → Prop
  | vector {values : List Binary64} {text : Text} : WritesRow values text →
      WritesList .vector (.vector values) text
  | matrix {rows : List (List Binary64)} {texts : List Text} : rows ≠ [] →
      List.Forall₂ WritesRow rows texts → WritesList .matrix (.matrix rows) (Text.join [';'] texts)

theorem isBlank_of_mem_toText {v : Binary64} (h : v.isFinite = true) :
    ∀ c ∈ v.toText, Text.isBlank c = false := by
  intro c hc
  rcases Binary64.isDigit_or_mem_toText h c hc with hdigit | rfl | rfl
  · exact Text.isBlank_of_isDecimalDigit (Text.isDecimalDigit_of_isDigit hdigit)
  · decide
  · decide

theorem WritesItem.readsAs {v : Binary64} {item : Text} (h : WritesItem v item) :
    ReadsAs item v := by
  obtain ⟨hfinite, before, after, hbefore, hafter, rfl⟩ := h
  have hread := Binary64.ofText?_toText hfinite
  have hne : v.toText ≠ [] := by
    intro hnil
    rw [hnil] at hread
    cases hread
  rw [ReadsAs, Text.trim_surrounded hbefore hafter hne (isBlank_of_mem_toText hfinite), hread]

/-- No separator is written in an item. -/
theorem WritesItem.not_mem {v : Binary64} {item : Text} (h : WritesItem v item) {c : Char}
    (hc : c = ',' ∨ c = ';') : c ∉ item := by
  obtain ⟨hfinite, before, after, hbefore, hafter, rfl⟩ := h
  have hblank : Text.isBlank c = false := by rcases hc with rfl | rfl <;> decide
  intro hmem
  rw [List.mem_append, List.mem_append] at hmem
  rcases hmem with (hmem | hmem) | hmem
  · exact absurd (hbefore c hmem) (by simp [hblank])
  · have hchar := Binary64.isDigit_or_mem_toText hfinite c hmem
    rcases hc with rfl | rfl <;> revert hchar <;> decide
  · exact absurd (hafter c hmem) (by simp [hblank])

theorem WritesRow.readNumbers_eq {values : List Binary64} {text : Text}
    (h : WritesRow values text) : readNumbers text = .ok values := by
  obtain ⟨hne, items, hitems, rfl⟩ := h
  have hsplit : (Text.join [','] items).split ',' = items := by
    refine Text.split_join ?_ fun item hitem => ?_
    · rintro rfl
      exact hne (List.forall₂_nil_right_iff.1 hitems)
    · obtain ⟨v, hv⟩ := Parse.exists_of_forall₂ hitems.flip item hitem
      exact WritesItem.not_mem hv (.inl rfl)
  rw [readNumbers, hsplit]
  exact readItems_of_readsAs (hitems.flip.imp fun _ _ hv => WritesItem.readsAs hv)

theorem WritesRow.not_mem {values : List Binary64} {text : Text} (h : WritesRow values text) :
    ';' ∉ text := by
  obtain ⟨-, items, hitems, rfl⟩ := h
  refine Text.not_mem_join (by decide) fun item hitem => ?_
  obtain ⟨v, hv⟩ := Parse.exists_of_forall₂ hitems.flip item hitem
  exact WritesItem.not_mem hv (.inr rfl)

theorem WritesRow.isFinite {values : List Binary64} {text : Text} (h : WritesRow values text) :
    ∀ v ∈ values, v.isFinite = true := by
  obtain ⟨-, items, hitems, -⟩ := h
  intro v hv
  obtain ⟨item, hitem⟩ := Parse.exists_of_forall₂ hitems v hv
  exact hitem.1

theorem readRows_of_writesRow {rows : List (List Binary64)} {texts : List Text}
    (h : List.Forall₂ WritesRow rows texts) : readRows texts = .ok rows := by
  induction h with
  | nil => rfl
  | cons hrow _ ih => simp only [readRows, hrow.readNumbers_eq, ih]

/-- A list is read as the numbers that it is written for. -/
theorem WritesList.readList_eq {kind : ContainerKind} {value : Value} {text : Text}
    (h : WritesList kind value text) : readList kind text = .ok value := by
  cases h with
  | vector hrow =>
    rw [readList, hrow.readNumbers_eq]
    rfl
  | @matrix rows texts hne hrows =>
    have hsplit : (Text.join [';'] texts).split ';' = texts := by
      refine Text.split_join ?_ fun text htext => ?_
      · rintro rfl
        exact hne (List.forall₂_nil_right_iff.1 hrows)
      · obtain ⟨row, hrow⟩ := Parse.exists_of_forall₂ hrows.flip text htext
        exact WritesRow.not_mem hrow
    rw [readList, hsplit, readRows_of_writesRow hrows]
    rfl

theorem WritesList.exists_render {kind : ContainerKind} {value : Value} {text : Text}
    (h : WritesList kind value text) (layout : Layout) :
    ∃ markup, value.render layout = .ok markup := by
  cases h with
  | @vector values text hrow =>
    rw [(Shows.vector values).render_eq layout, exists_render_iff, hasElement_column,
      flatten_column]
    exact ⟨hrow.1, hrow.isFinite⟩
  | @matrix rows texts hne hrows =>
    rw [(Shows.matrix rows).render_eq layout, exists_render_iff]
    refine ⟨?_, fun v hv => ?_⟩
    · obtain ⟨row, rows, rfl⟩ := List.exists_cons_of_ne_nil hne
      obtain ⟨text, texts, hrow, -, -⟩ := List.forall₂_cons_left_iff.1 hrows
      obtain ⟨v, vs, rfl⟩ := List.exists_cons_of_ne_nil hrow.1
      exact ⟨v, vs, rows, rfl⟩
    · obtain ⟨row, hmem, hv⟩ := List.mem_flatten.1 hv
      obtain ⟨text, hrow⟩ := Parse.exists_of_forall₂ hrows row hmem
      exact hrow.isFinite v hv

end MathMarkup.CommandLine
