import Mathlib
import MathMarkup.Proofs.Layout.Ink
import MathMarkup.Proofs.Render.RoundTrip
import MathMarkup.Value.Basic

/-!
# Container markup determines the container

The cells of a vector or matrix can be read off its markup: what the layout adds is deleted, rows
end at double backslashes and cells at ampersands, none of which the text of a number has. The texts
of two numbers are equal only if the numbers are, apart from the sign of zero.
-/
namespace MathMarkup

open Markup

/-! ## The tokens of numbers -/

namespace Binary64

variable {v w : Binary64}

theorem isZero_of_tokens (hv : v.isZero = true) (h : v.tokens = w.tokens) : w.isZero = true := by
  by_contra hw
  rw [tokens, if_pos hv, tokens, if_neg hw] at h
  split at h
  · cases h
  · obtain rfl : zero = w := by simpa using h
    exact hw rfl

theorem eq_of_tokens (hv : v.isZero = false) (hw : w.isZero = false) (h : v.tokens = w.tokens) :
    v = w := by
  simp only [tokens, hv, hw, Bool.false_eq_true, if_false] at h
  split at h <;> split at h
  · have hneg : v.neg = w.neg := by simpa using h
    rw [← neg_neg v, hneg, neg_neg]
  · cases h
  · cases h
  · simpa using h

end Binary64

namespace Container

/-! ## Reading cells off the markup -/

/-- The parts between the double backslashes of a text. -/
def splitRows : Text → List Text
  | [] => [[]]
  | '\\' :: '\\' :: rest => [] :: splitRows rest
  | c :: rest => (splitRows rest).modifyHead (c :: ·)

/-- The cells of a row; a row without text has none. -/
def splitCells (text : Text) : List Text := if text = [] then [] else text.split '&'

/-- The rows of cells in the body of an environment, in either layout. -/
def decode (body : Text) : List (List Text) := (splitRows (withoutSpacing body)).map splitCells

theorem splitRows_cons {c : Char} (hc : c ≠ '\\') (rest : Text) :
    splitRows (c :: rest) = (splitRows rest).modifyHead (c :: ·) := by
  rw [splitRows]
  rintro after rfl
  exact absurd rfl hc

theorem splitRows_of_not_mem {text : Text} (h : '\\' ∉ text) : splitRows text = [text] := by
  induction text with
  | nil => rfl
  | cons c rest ih =>
    rw [List.mem_cons, not_or] at h
    rw [splitRows_cons (Ne.symm h.1), ih h.2]
    rfl

theorem splitRows_append {text : Text} (h : '\\' ∉ text) (rest : Text) :
    splitRows (text ++ '\\' :: '\\' :: rest) = text :: splitRows rest := by
  induction text with
  | nil => rfl
  | cons c text ih =>
    rw [List.mem_cons, not_or] at h
    rw [List.cons_append, splitRows_cons (Ne.symm h.1), ih h.2]
    rfl

theorem splitRows_join {parts : List Text} (hne : parts ≠ []) (h : ∀ part ∈ parts, '\\' ∉ part) :
    splitRows (Text.join ['\\', '\\'] parts) = parts := by
  induction parts with
  | nil => exact absurd rfl hne
  | cons part parts ih =>
    have hpart := h part List.mem_cons_self
    cases parts with
    | nil => rw [Text.join, List.intercalate_singleton, splitRows_of_not_mem hpart]
    | cons next parts =>
      have hrest := ih (by simp) fun other hother => h other (List.mem_cons_of_mem part hother)
      rw [Text.join_cons_cons]
      exact (splitRows_append hpart _).trans (congrArg (part :: ·) hrest)

/-! ## Cells -/

/-- The characters of numbers. -/
def isCellChar (c : Char) : Bool := c.isDigit || c = '.' || c = '-'

/-- A text that no layout and no separator cuts or changes. -/
def IsCell (text : Text) : Prop := text ≠ [] ∧ ∀ c ∈ text, isCellChar c = true

theorem IsCell.not_mem {text : Text} (h : IsCell text) {c : Char} (hc : isCellChar c = false) :
    c ∉ text := by
  intro hmem
  rw [h.2 c hmem] at hc
  cases hc

theorem IsCell.withoutSpacing_eq {text : Text} (h : IsCell text) : withoutSpacing text = text := by
  refine List.filter_eq_self.2 fun c hc => ?_
  have hspace : c ≠ ' ' := fun heq => h.not_mem (by decide) (heq ▸ hc)
  have hbreak : c ≠ '\n' := fun heq => h.not_mem (by decide) (heq ▸ hc)
  simp [isSpacing, hspace, hbreak]

theorem isCell_of_render {v : Binary64} {text : Text} (h : v.render = .ok text) :
    IsCell text := by
  have hfinite := Binary64.isFinite_of_render h
  have hdigits : IsCell (Binary64.shortest v.code).toText := by
    obtain ⟨c, rest, hcons, -⟩ := (Binary64.shortest v.code).exists_digit_cons
    refine ⟨by simp [hcons], fun c hc => ?_⟩
    rcases Decimal.isDigit_or_point c hc with hc | rfl
    · simp [isCellChar, hc]
    · rfl
  rw [Binary64.render_of_isFinite hfinite, Binary64.toText_of_isFinite hfinite] at h
  cases hzero : v.isZero with
  | true =>
    rw [hzero] at h
    cases h
    exact ⟨List.cons_ne_nil '0' [], by simp [isCellChar]⟩
  | false =>
    rw [hzero] at h
    cases hsign : v.negative with
    | false =>
      rw [hsign] at h
      cases h
      exact hdigits
    | true =>
      rw [hsign] at h
      cases h
      refine ⟨List.cons_ne_nil '-' _, fun c hc => ?_⟩
      rcases List.mem_cons.1 hc with rfl | hc
      · rfl
      · exact hdigits.2 c hc

/-- Numbers that are equal, apart from the sign of zero. -/
def Agree (v w : Binary64) : Prop := v = w ∨ v.isZero = true ∧ w.isZero = true

theorem agree_of_cell {v w : Binary64} {text : Text} (hv : v.render = .ok text)
    (hw : w.render = .ok text) : Agree v w := by
  obtain ⟨vText, hvText, -, hvSpells⟩ := Binary64.exists_spells (Binary64.isFinite_of_render hv)
  obtain ⟨wText, hwText, -, hwSpells⟩ := Binary64.exists_spells (Binary64.isFinite_of_render hw)
  cases hv.symm.trans hvText
  cases hw.symm.trans hwText
  have htokens : v.tokens = w.tokens := Except.ok.inj (hvSpells.ofText.symm.trans hwSpells.ofText)
  cases hzero : v.isZero with
  | true => exact .inr ⟨hzero, Binary64.isZero_of_tokens hzero htokens⟩
  | false =>
    cases hzero' : w.isZero with
    | true =>
      rw [Binary64.isZero_of_tokens hzero' htokens.symm] at hzero
      cases hzero
    | false => exact .inl (Binary64.eq_of_tokens hzero hzero' htokens)

/-! ## The body of an environment -/

theorem withoutSpacing_append (a b : Text) :
    withoutSpacing (a ++ b) = withoutSpacing a ++ withoutSpacing b := List.filter_append ..

theorem withoutSpacing_join (separator : Text) (parts : List Text) :
    withoutSpacing (Text.join separator parts) =
      Text.join (withoutSpacing separator) (parts.map withoutSpacing) := by
  induction parts with
  | nil => rfl
  | cons part parts ih =>
    cases parts with
    | nil => simp [Text.join, List.intercalate]
    | cons next parts =>
      rw [Text.join_cons_cons, withoutSpacing_append, withoutSpacing_append, ih]
      exact (Text.join_cons_cons ..).symm

theorem withoutSpacing_rowText (layout : Layout) {texts : List Text}
    (h : ∀ text ∈ texts, IsCell text) :
    withoutSpacing (rowText layout texts) = Text.join ['&'] texts := by
  have hcells : texts.map withoutSpacing = texts :=
    List.map_congr_left (fun text htext => (h text htext).withoutSpacing_eq) |>.trans
      (List.map_id' texts)
  cases layout with
  | compact =>
    exact (withoutSpacing_join _ texts).trans (congrArg (Text.join ['&']) hcells)
  | pretty =>
    have hspaces : withoutSpacing (rowText .pretty texts) =
        withoutSpacing (Text.join " & ".toList texts) ++ [] := withoutSpacing_append _ [' ']
    rw [hspaces, List.append_nil, withoutSpacing_join, hcells]
    rfl

theorem withoutSpacing_body (layout : Layout) {rows : List (List Text)}
    (h : ∀ texts ∈ rows, ∀ text ∈ texts, IsCell text) :
    withoutSpacing (body layout rows) = Text.join ['\\', '\\'] (rows.map (Text.join ['&'])) := by
  have hrows : (rows.map (rowText layout)).map withoutSpacing = rows.map (Text.join ['&']) := by
    rw [List.map_map]
    exact List.map_congr_left fun texts htexts => withoutSpacing_rowText layout (h texts htexts)
  have hjoin : withoutSpacing (Text.join ['\\', '\\'] (rows.map (rowText layout))) =
      Text.join ['\\', '\\'] (rows.map (Text.join ['&'])) := by
    rw [withoutSpacing_join, hrows]
    rfl
  unfold body
  rw [withoutSpacing_append]
  cases layout with
  | compact => exact (List.append_nil _).trans hjoin
  | pretty => exact (List.append_nil _).trans hjoin

theorem splitCells_join {texts : List Text} (h : ∀ text ∈ texts, IsCell text) :
    splitCells (Text.join ['&'] texts) = texts := by
  cases texts with
  | nil => rfl
  | cons text texts =>
    have hne : Text.join ['&'] (text :: texts) ≠ [] := by
      have htext := (h text List.mem_cons_self).1
      cases texts with
      | nil => rwa [Text.join, List.intercalate_singleton]
      | cons next texts =>
        rw [Text.join_cons_cons]
        exact List.append_ne_nil_of_left_ne_nil htext _
    rw [splitCells, if_neg hne]
    exact Text.split_join (List.cons_ne_nil _ _) fun other hother =>
      (h other hother).not_mem (by decide)

/-- The cells are read off the body that they are written in. -/
theorem decode_body (layout : Layout) {rows : List (List Text)} (hne : rows ≠ [])
    (h : ∀ texts ∈ rows, ∀ text ∈ texts, IsCell text) : decode (body layout rows) = rows := by
  have hparts : ∀ part ∈ rows.map (Text.join ['&']), '\\' ∉ part := by
    intro part hpart
    obtain ⟨texts, htexts, rfl⟩ := List.mem_map.1 hpart
    exact Text.not_mem_join (by decide) fun text htext =>
      (h texts htexts text htext).not_mem (by decide)
  have hcells : (rows.map (Text.join ['&'])).map splitCells = rows := by
    rw [List.map_map]
    exact (List.map_congr_left fun texts htexts => splitCells_join (h texts htexts)).trans
      (List.map_id' rows)
  rw [decode, withoutSpacing_body layout h, splitRows_join (by simpa using hne) hparts, hcells]

/-! ## What rendering finds -/

/-- The first row exists and has an element. -/
def HasElement (rows : List (List Binary64)) : Prop := ∃ v vs rest, rows = (v :: vs) :: rest

/-- The first element that is not finite. -/
def firstNotFinite (values : List Binary64) : Option Binary64 := values.find? fun v => !v.isFinite

theorem firstNotFinite_eq_none {values : List Binary64} :
    firstNotFinite values = none ↔ ∀ v ∈ values, v.isFinite = true := by
  simp [firstNotFinite]

theorem row_cases (values : List Binary64) :
    (∃ v, firstNotFinite values = some v ∧ row values = .error (.evaluation (.element v))) ∨
    (firstNotFinite values = none ∧ ∃ texts,
      List.Forall₂ (fun v text => v.render = .ok text) values texts ∧ row values = .ok texts) := by
  induction values with
  | nil => exact .inr ⟨rfl, [], .nil, rfl⟩
  | cons v vs ih =>
    unfold firstNotFinite at ih ⊢
    cases hv : v.isFinite with
    | false =>
      refine .inl ⟨v, by simp [hv], ?_⟩
      simp [row, cell, hv]
    | true =>
      have htext := Binary64.render_of_isFinite hv
      rw [List.find?_cons_of_neg (by simp [hv])]
      rcases ih with ⟨w, hw, hrow⟩ | ⟨hnone, texts, htexts, hrow⟩
      · refine .inl ⟨w, hw, ?_⟩
        simp only [row, cell, hv, if_true, htext, hrow]
      · refine .inr ⟨hnone, _, .cons htext htexts, ?_⟩
        simp only [row, cell, hv, if_true, htext, hrow]

theorem cells_cases (rows : List (List Binary64)) :
    (∃ v, firstNotFinite rows.flatten = some v ∧
      cells rows = .error (.evaluation (.element v))) ∨
    (firstNotFinite rows.flatten = none ∧ ∃ textss,
      List.Forall₂ (List.Forall₂ fun v text => v.render = .ok text) rows textss ∧
      cells rows = .ok textss) := by
  induction rows with
  | nil => exact .inr ⟨rfl, [], .nil, rfl⟩
  | cons values rows ih =>
    have hfirst : firstNotFinite (values :: rows).flatten =
        (firstNotFinite values).or (firstNotFinite rows.flatten) := List.find?_append
    rw [hfirst]
    rcases row_cases values with ⟨v, hv, hrow⟩ | ⟨hnone, texts, htexts, hrow⟩
    · refine .inl ⟨v, by rw [hv]; rfl, ?_⟩
      simp only [cells, hrow]
    · rw [hnone, Option.none_or]
      rcases ih with ⟨w, hw, hcells⟩ | ⟨hnone', textss, htextss, hcells⟩
      · refine .inl ⟨w, hw, ?_⟩
        simp only [cells, hrow, hcells]
      · refine .inr ⟨hnone', texts :: textss, .cons htexts htextss, ?_⟩
        simp only [cells, hrow, hcells]

variable {kind : ContainerKind} {layout : Layout} {rows : List (List Binary64)}

theorem render_of_not_hasElement (h : ¬ HasElement rows) :
    render kind layout rows = .error (.emptyContainer kind) := by
  unfold render
  split
  · rfl
  · rfl
  · next hnil hcons =>
    rcases rows with _ | ⟨_ | ⟨v, vs⟩, rest⟩
    · exact absurd rfl hnil
    · exact absurd rfl (hcons rest)
    · exact absurd ⟨v, vs, rest, rfl⟩ h

theorem render_of_hasElement (h : HasElement rows) :
    render kind layout rows = (cells rows).map (environment kind.environment layout) := by
  obtain ⟨v, vs, rest, rfl⟩ := h
  rw [render]
  · cases cells ((v :: vs) :: rest) <;> rfl
  · rintro ⟨⟩
  · rintro tail ⟨⟩

theorem render_of_firstNotFinite {v : Binary64} (h : HasElement rows)
    (hv : firstNotFinite rows.flatten = some v) :
    render kind layout rows = .error (.evaluation (.element v)) := by
  rw [render_of_hasElement h]
  rcases cells_cases rows with ⟨w, hw, hcells⟩ | ⟨hnone, -⟩
  · cases hv.symm.trans hw
    rw [hcells]
    rfl
  · cases hv.symm.trans hnone

/-- Markup has one cell for each element, in the same rows. -/
theorem exists_cells_of_render {text : Text} (h : render kind layout rows = .ok text) :
    HasElement rows ∧ firstNotFinite rows.flatten = none ∧ ∃ textss,
      List.Forall₂ (List.Forall₂ fun v text => v.render = .ok text) rows textss ∧
      text = environment kind.environment layout textss := by
  by_cases helement : HasElement rows
  · rw [render_of_hasElement helement] at h
    rcases cells_cases rows with ⟨v, -, hcells⟩ | ⟨hnone, textss, htextss, hcells⟩
    · rw [hcells] at h
      cases h
    · rw [hcells] at h
      cases h
      exact ⟨helement, hnone, textss, htextss, rfl⟩
  · rw [render_of_not_hasElement helement] at h
    cases h

theorem exists_render_iff : (∃ text, render kind layout rows = .ok text) ↔
    HasElement rows ∧ ∀ v ∈ rows.flatten, v.isFinite = true := by
  rw [← firstNotFinite_eq_none]
  constructor
  · rintro ⟨text, h⟩
    obtain ⟨helement, hnone, -⟩ := exists_cells_of_render h
    exact ⟨helement, hnone⟩
  · rintro ⟨helement, hnone⟩
    rw [render_of_hasElement helement]
    rcases cells_cases rows with ⟨v, hv, -⟩ | ⟨-, textss, -, hcells⟩
    · cases hv.symm.trans hnone
    · exact ⟨_, by rw [hcells]; rfl⟩

/-! ## Reading markup back -/

theorem forall₂_of_common {α β : Type} {relation : α → β → Prop} {same : α → α → Prop}
    {as as' : List α} {bs : List β} (has : List.Forall₂ relation as bs)
    (has' : List.Forall₂ relation as' bs)
    (h : ∀ a a' b, relation a b → relation a' b → same a a') : List.Forall₂ same as as' := by
  induction has generalizing as' with
  | nil =>
    cases has'
    exact .nil
  | cons hab _ ih =>
    cases has' with
    | cons hab' hrest => exact .cons (h _ _ _ hab hab') (ih hrest)

theorem decode_of_forall₂ {textss : List (List Text)} (h : HasElement rows)
    (htexts : List.Forall₂ (List.Forall₂ fun v text => v.render = .ok text) rows textss) :
    decode (body layout textss) = textss := by
  refine decode_body layout ?_ fun texts hmem text htext => ?_
  · rintro rfl
    obtain ⟨v, vs, rest, rfl⟩ := h
    cases htexts
  · obtain ⟨vs, hrow⟩ := Parse.exists_of_forall₂ htexts.flip texts hmem
    obtain ⟨v, hv⟩ := Parse.exists_of_forall₂ hrow.flip text htext
    exact isCell_of_render hv

/-- The cells that markup shows are the texts of the elements. -/
theorem exists_decode_of_render {text : Text} (h : render kind layout rows = .ok text) :
    ∃ inner cells, text = "\\begin\x7b".toList ++ kind.environment ++ "\x7d".toList ++ inner ++
        ("\\end\x7b".toList ++ kind.environment ++ "\x7d".toList) ∧
      List.Forall₂ (List.Forall₂ fun v cell => v.render = .ok cell) rows cells ∧
      decode inner = cells := by
  obtain ⟨helement, -, cells, hcells, rfl⟩ := exists_cells_of_render h
  refine ⟨body layout cells, cells, ?_, hcells, decode_of_forall₂ helement hcells⟩
  unfold environment
  rw [List.append_assoc _ "\\end\x7b".toList, List.append_assoc _ _ "\x7d".toList]

theorem body_eq_of_environment_eq {name : Text} {layout' : Layout}
    {textss textss' : List (List Text)}
    (h : environment name layout textss = environment name layout' textss') :
    body layout textss = body layout' textss' := by
  unfold environment at h
  have hopened := List.append_cancel_right (List.append_cancel_right (List.append_cancel_right h))
  exact List.append_cancel_left hopened

/-- The markup of a container determines it. -/
theorem agree_of_render {layout' : Layout} {rows' : List (List Binary64)} {text : Text}
    (h : render kind layout rows = .ok text) (h' : render kind layout' rows' = .ok text) :
    List.Forall₂ (List.Forall₂ Agree) rows rows' := by
  obtain ⟨helement, -, textss, htextss, rfl⟩ := exists_cells_of_render h
  obtain ⟨helement', -, textss', htextss', heq⟩ := exists_cells_of_render h'
  have hbody := congrArg decode (body_eq_of_environment_eq heq)
  rw [decode_of_forall₂ helement htextss, decode_of_forall₂ helement' htextss'] at hbody
  subst hbody
  refine forall₂_of_common htextss htextss' fun vs ws texts hvs hws => ?_
  exact forall₂_of_common hvs hws fun v w text => agree_of_cell

/-! ## Vectors -/

theorem hasElement_column {values : List Binary64} :
    HasElement (values.map fun v => [v]) ↔ values ≠ [] := by
  cases values with
  | nil => simp [HasElement]
  | cons v vs => simp [HasElement]

theorem flatten_column (values : List Binary64) : (values.map fun v => [v]).flatten = values := by
  induction values with
  | nil => rfl
  | cons v vs ih => rw [List.map_cons, List.flatten_cons, ih, List.singleton_append]

theorem forall₂_column {values : List Binary64} {textss : List (List Text)}
    {relation : Binary64 → Text → Prop}
    (h : List.Forall₂ (List.Forall₂ relation) (values.map fun v => [v]) textss) :
    ∃ texts, List.Forall₂ relation values texts ∧ textss = texts.map fun text => [text] := by
  induction values generalizing textss with
  | nil =>
    cases h
    exact ⟨[], .nil, rfl⟩
  | cons v vs ih =>
    rw [List.map_cons, List.forall₂_cons_left_iff] at h
    obtain ⟨row, rest, hrow, hrest, rfl⟩ := h
    obtain ⟨texts, htexts, rfl⟩ := ih hrest
    rw [List.forall₂_cons_left_iff] at hrow
    obtain ⟨text, more, htext, hmore, rfl⟩ := hrow
    cases hmore
    exact ⟨text :: texts, .cons htext htexts, rfl⟩

end Container

open Container in
/-- Container markup determines the container. A vector has markup just when it has elements and
all of them are finite, a matrix just when its first row has elements and those of all rows are
finite. That elements are missing is reported first, and then the first element, row by row, that is
not finite. The rows of cells can be read off the body of the environment, in either layout, and two
containers of a kind with the same markup have the same rows of the same elements, apart from the
signs of zeros. -/
theorem container_markup_decodes (layout : Layout) :
    (∀ values, (∃ text, renderVector layout values = .ok text) ↔
      values ≠ [] ∧ ∀ v ∈ values, v.isFinite = true) ∧
    (∀ rows, (∃ text, renderMatrix layout rows = .ok text) ↔
      HasElement rows ∧ ∀ vs ∈ rows, ∀ v ∈ vs, v.isFinite = true) ∧
    renderVector layout [] = .error (.emptyContainer .vector) ∧
    (∀ rows, ¬ HasElement rows → renderMatrix layout rows = .error (.emptyContainer .matrix)) ∧
    (∀ values v, firstNotFinite values = some v →
      renderVector layout values = .error (.evaluation (.element v))) ∧
    (∀ rows v, HasElement rows → firstNotFinite rows.flatten = some v →
      renderMatrix layout rows = .error (.evaluation (.element v))) ∧
    (∀ values text, renderVector layout values = .ok text → ∃ inner cells,
      text = "\\begin\x7bpmatrix\x7d".toList ++ inner ++ "\\end\x7bpmatrix\x7d".toList ∧
      List.Forall₂ (fun v cell => v.render = .ok cell) values cells ∧
      decode inner = cells.map fun cell => [cell]) ∧
    (∀ rows text, renderMatrix layout rows = .ok text → ∃ inner cells,
      text = "\\begin\x7bbmatrix\x7d".toList ++ inner ++ "\\end\x7bbmatrix\x7d".toList ∧
      List.Forall₂ (List.Forall₂ fun v cell => v.render = .ok cell) rows cells ∧
      decode inner = cells) ∧
    (∀ layout' values values' text, renderVector layout values = .ok text →
      renderVector layout' values' = .ok text → List.Forall₂ Agree values values') ∧
    (∀ layout' rows rows' text, renderMatrix layout rows = .ok text →
      renderMatrix layout' rows' = .ok text → List.Forall₂ (List.Forall₂ Agree) rows rows') := by
  refine ⟨fun values => ?_, fun rows => ?_, rfl, fun rows => render_of_not_hasElement,
    fun values v hv => ?_, fun rows v => render_of_firstNotFinite, fun values text h => ?_,
    fun rows text h => ?_, fun layout' values values' text h h' => ?_,
    fun layout' rows rows' text => agree_of_render⟩
  · rw [renderVector, exists_render_iff, hasElement_column, flatten_column]
  · rw [renderMatrix, exists_render_iff]
    refine and_congr_right fun _ => ⟨fun h vs hvs v hv => ?_, fun h v hv => ?_⟩
    · exact h v (List.mem_flatten_of_mem hvs hv)
    · obtain ⟨vs, hvs, hv⟩ := List.mem_flatten.1 hv
      exact h vs hvs v hv
  · have hne : values ≠ [] := by
      rintro rfl
      cases hv
    exact render_of_firstNotFinite (hasElement_column.2 hne) (by rwa [flatten_column])
  · obtain ⟨inner, cells, htext, hcells, hdecode⟩ := exists_decode_of_render h
    obtain ⟨texts, htexts, rfl⟩ := forall₂_column hcells
    exact ⟨inner, texts, htext, htexts, hdecode⟩
  · exact exists_decode_of_render h
  · have hagree := agree_of_render h h'
    rw [List.forall₂_map_left_iff, List.forall₂_map_right_iff] at hagree
    exact hagree.imp fun v w hvw => by simpa using hvw

open Container in
/-- A row without elements leaves an empty part after the double backslash, and the signs of zeros
are lost. -/
theorem container_markup_decodes_ragged :
    let rows : List (List Binary64) := [[.zero, Binary64.zero.neg], []]
    let text : Text := "\\begin\x7bbmatrix\x7d0&0\\\\\\end\x7bbmatrix\x7d".toList
    (renderMatrix .compact rows = .ok text ∧ ∃ inner cells,
      text = "\\begin\x7bbmatrix\x7d".toList ++ inner ++ "\\end\x7bbmatrix\x7d".toList ∧
      List.Forall₂ (List.Forall₂ fun v cell => v.render = .ok cell) rows cells ∧
      decode inner = cells) ∧
    (renderMatrix .compact [[.zero, .zero], []] = .ok text ∧
      List.Forall₂ (List.Forall₂ Agree) rows [[.zero, .zero], []]) ∧
    (firstNotFinite [.zero, .infinity true] = some (.infinity true) ∧
      renderVector .compact [.zero, .infinity true] =
        .error (.evaluation (.element (.infinity true)))) ∧
    (¬ HasElement [] ∧ renderMatrix .compact [] = .error (.emptyContainer .matrix)) := by
  intro rows text
  obtain ⟨-, -, -, hempty, helement, -, -, hdecode, -, hagree⟩ := container_markup_decodes .compact
  have hrows : renderMatrix .compact rows = .ok text := by decide
  have hunsigned : renderMatrix .compact [[.zero, .zero], []] = .ok text := by decide
  have hinfinite : firstNotFinite [.zero, .infinity true] = some (.infinity true) := by decide
  have hnone : ¬ HasElement [] := by simp [HasElement]
  exact ⟨⟨hrows, hdecode rows text hrows⟩, ⟨hunsigned, hagree .compact rows _ text hrows hunsigned⟩,
    ⟨hinfinite, helement _ _ hinfinite⟩, hnone, hempty [] hnone⟩

end MathMarkup
