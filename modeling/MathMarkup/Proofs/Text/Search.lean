import Mathlib
import MathMarkup.Text.Search

/-!
# First and last occurrences

A cut is made at the occurrence that has none before it, or none after it, and fails only if the
marker does not occur. Where the first occurrence stands depends on nothing behind it, and where the
last one stands on nothing in front of it, so that neither moves when a text is put between them.
-/
namespace MathMarkup.Text

/-- No occurrence of the marker starts before a position. -/
def NoneBefore (marker text : Text) (position : Nat) : Prop :=
  ∀ p q, text = p ++ marker ++ q → position ≤ p.length

/-- No occurrence of the marker starts after a position. -/
def NoneAfter (marker text : Text) (position : Nat) : Prop :=
  ∀ p q, text = p ++ marker ++ q → p.length ≤ position

variable {marker before after : Text}

/-! ## Markers that do not occur -/

theorem cutAfterFirst_eq_none {text : Text} :
    cutAfterFirst marker text = none ↔ ¬ marker <:+: text := by
  induction text with
  | nil =>
    unfold cutAfterFirst
    cases marker <;> simp
  | cons c rest ih =>
    unfold cutAfterFirst
    rw [List.infix_cons_iff, ← List.isPrefixOf_iff_prefix]
    split
    · next hstarts => simp [hstarts]
    · next hstarts => simp [hstarts, ih]

theorem cutBeforeLast_eq_none {text : Text} :
    cutBeforeLast marker text = none ↔ ¬ marker <:+: text := by
  induction text with
  | nil =>
    unfold cutBeforeLast
    cases marker <;> simp
  | cons c rest ih =>
    unfold cutBeforeLast
    rw [List.infix_cons_iff, ← List.isPrefixOf_iff_prefix]
    split
    · next b a hcut =>
      have hoccurs : marker <:+: rest := by
        by_contra hnot
        rw [ih.2 hnot] at hcut
        cases hcut
      simp [hoccurs]
    · next hcut =>
      have hnot := ih.1 hcut
      split
      · next hstarts => simp [hstarts]
      · next hstarts => simp [hstarts, hnot]

/-! ## Where the cuts are made -/

theorem cutAfterFirst_of_noneBefore
    (h : NoneBefore marker (before ++ marker ++ after) before.length) :
    cutAfterFirst marker (before ++ marker ++ after) = some (before ++ marker, after) := by
  induction before with
  | nil =>
    unfold cutAfterFirst
    have hstarts : marker.isPrefixOf ([] ++ marker ++ after) = true := by simp
    rw [if_pos hstarts]
    simp
  | cons c before ih =>
    have hstarts : ¬ marker.isPrefixOf (c :: before ++ marker ++ after) = true := by
      intro hstarts
      obtain ⟨q, hq⟩ := List.isPrefixOf_iff_prefix.1 hstarts
      have hle := h [] q hq.symm
      simp at hle
    have hrest : NoneBefore marker (before ++ marker ++ after) before.length := by
      intro p q hpq
      have hle := h (c :: p) q (by simp [← hpq])
      simpa using hle
    unfold cutAfterFirst
    rw [if_neg hstarts]
    simp only [List.cons_append, ih hrest, Option.map_some]

theorem cutBeforeLast_of_noneAfter
    (h : NoneAfter marker (before ++ marker ++ after) before.length) :
    cutBeforeLast marker (before ++ marker ++ after) = some (before, marker ++ after) := by
  induction before with
  | nil =>
    cases htext : marker ++ after with
    | nil =>
      obtain ⟨rfl, rfl⟩ := List.append_eq_nil_iff.1 htext
      rfl
    | cons c rest =>
      have hnone : cutBeforeLast marker rest = none := by
        rw [cutBeforeLast_eq_none]
        rintro ⟨p, q, hpq⟩
        have hle := h (c :: p) q (by simp [htext, ← hpq])
        simp at hle
      have hstarts : marker.isPrefixOf (c :: rest) = true := by
        rw [List.isPrefixOf_iff_prefix, ← htext]
        exact List.prefix_append marker after
      rw [List.nil_append, htext]
      unfold cutBeforeLast
      simp only [hnone, hstarts, if_true]
  | cons c before ih =>
    have hrest : NoneAfter marker (before ++ marker ++ after) before.length := by
      intro p q hpq
      have hle := h (c :: p) q (by simp [← hpq])
      simpa using hle
    rw [List.cons_append, List.cons_append]
    unfold cutBeforeLast
    simp only [ih hrest]

/-! ## Texts that change elsewhere -/

theorem NoneBefore.change_after (h : NoneBefore marker (before ++ marker ++ after) before.length)
    (rest : Text) : NoneBefore marker (before ++ marker ++ rest) before.length := by
  intro p q hpq
  by_contra hlt
  have hlength : (p ++ marker).length ≤ (before ++ marker).length := by
    simp only [List.length_append]
    omega
  -- the occurrence ends before the marker does, so that it stands in the old text too
  have hstarts : p ++ marker <+: before ++ marker :=
    List.prefix_of_prefix_length_le ⟨q, hpq.symm⟩ ⟨rest, rfl⟩ hlength
  obtain ⟨s, hs⟩ := hstarts
  have hle := h p (s ++ after) (by rw [← hs, List.append_assoc])
  omega

theorem NoneAfter.change_before (h : NoneAfter marker (before ++ marker ++ after) before.length)
    (rest : Text) : NoneAfter marker (rest ++ marker ++ after) rest.length := by
  intro p q hpq
  by_contra hlt
  have hlengths := congrArg List.length hpq
  simp only [List.length_append] at hlengths
  have hlength : (marker ++ q).length ≤ (marker ++ after).length := by
    simp only [List.length_append]
    omega
  have hsuffix : marker ++ q <:+ marker ++ after :=
    List.suffix_of_suffix_length_le ⟨p, by rw [← List.append_assoc, ← hpq, List.append_assoc]⟩
      ⟨rest, rfl⟩ hlength
  obtain ⟨s, hs⟩ := hsuffix
  have hle := h (before ++ s) q (by rw [List.append_assoc, ← hs]; simp)
  have hlengths' := congrArg List.length hs
  simp only [List.length_append] at hle hlengths'
  omega

/-! ## What the cuts are -/

/-- The text is cut after its shortest part in front that ends with the marker. -/
structure CutsAfterFirst (marker text before after : Text) : Prop where
  eq_append : text = before ++ after
  ends : marker <:+ before
  shortest : ∀ shorter, shorter <+: text → shorter.length < before.length → ¬ marker <:+ shorter

/-- The text is cut in front of its shortest part at the end that starts with the marker. -/
structure CutsBeforeLast (marker text before after : Text) : Prop where
  eq_append : text = before ++ after
  starts : marker <+: after
  shortest : ∀ shorter, shorter <:+ text → shorter.length < after.length → ¬ marker <+: shorter

variable {marker text before after : Text}

theorem CutsAfterFirst.unique {before' after' : Text} (h : CutsAfterFirst marker text before after)
    (h' : CutsAfterFirst marker text before' after') : before = before' ∧ after = after' := by
  have hlength : before.length = before'.length := by
    refine Nat.le_antisymm (Nat.le_of_not_lt fun hlt => ?_) (Nat.le_of_not_lt fun hlt => ?_)
    · exact h.shortest before' ⟨after', h'.eq_append.symm⟩ hlt h'.ends
    · exact h'.shortest before ⟨after, h.eq_append.symm⟩ hlt h.ends
  exact List.append_inj (h.eq_append.symm.trans h'.eq_append) hlength

theorem CutsBeforeLast.unique {before' after' : Text} (h : CutsBeforeLast marker text before after)
    (h' : CutsBeforeLast marker text before' after') : before = before' ∧ after = after' := by
  have hlength : after.length = after'.length := by
    refine Nat.le_antisymm (Nat.le_of_not_lt fun hlt => ?_) (Nat.le_of_not_lt fun hlt => ?_)
    · exact h.shortest after' ⟨before', h'.eq_append.symm⟩ hlt h'.starts
    · exact h'.shortest after ⟨before, h.eq_append.symm⟩ hlt h.starts
  exact List.append_inj' (h.eq_append.symm.trans h'.eq_append) hlength

theorem cutsAfterFirst_of_cutAfterFirst (h : cutAfterFirst marker text = some (before, after)) :
    CutsAfterFirst marker text before after := by
  induction text generalizing before with
  | nil =>
    unfold cutAfterFirst at h
    split at h
    · next hstarts =>
      cases h
      obtain rfl : marker = [] := by simpa using hstarts
      exact ⟨rfl, List.suffix_refl [], by simp⟩
    · cases h
  | cons c rest ih =>
    unfold cutAfterFirst at h
    split at h
    · next hstarts =>
      cases h
      refine ⟨List.prefix_iff_eq_append.1 (List.isPrefixOf_iff_prefix.1 hstarts) |>.symm,
        List.suffix_refl marker, fun shorter _ hlt hends => ?_⟩
      exact absurd hends.length_le (Nat.not_le_of_lt hlt)
    · next hstarts =>
      rw [Option.map_eq_some_iff] at h
      obtain ⟨⟨front, after'⟩, hcut, hpair⟩ := h
      cases hpair
      have hrest := ih hcut
      refine ⟨congrArg (c :: ·) hrest.eq_append, hrest.ends.trans (List.suffix_cons c front),
        fun shorter hshorter hlt hends => hstarts ?_⟩
      -- a marker in front of the cut stands at the start of the text or in the rest of it
      rcases List.prefix_cons_iff.1 hshorter with rfl | ⟨more, rfl, hmore⟩
      · simp [List.suffix_nil.1 hends]
      · rcases List.suffix_cons_iff.1 hends with rfl | hends
        · exact List.isPrefixOf_iff_prefix.2 hshorter
        · exact absurd hends (hrest.shortest more hmore (by simpa using hlt))

theorem cutsBeforeLast_of_cutBeforeLast (h : cutBeforeLast marker text = some (before, after)) :
    CutsBeforeLast marker text before after := by
  induction text generalizing before after with
  | nil =>
    unfold cutBeforeLast at h
    split at h
    · next hnil =>
      cases h
      subst hnil
      exact ⟨rfl, List.prefix_refl [], by simp⟩
    · cases h
  | cons c rest ih =>
    unfold cutBeforeLast at h
    split at h
    · next front tail hcut =>
      cases h
      have hrest := ih hcut
      refine ⟨congrArg (c :: ·) hrest.eq_append, hrest.starts, fun shorter hshorter hlt => ?_⟩
      rcases List.suffix_cons_iff.1 hshorter with rfl | hshorter
      · have hlength := congrArg List.length hrest.eq_append
        simp only [List.length_append, List.length_cons] at hlength hlt
        omega
      · exact hrest.shortest shorter hshorter hlt
    · next hcut =>
      split at h
      · next hstarts =>
        cases h
        refine ⟨rfl, List.isPrefixOf_iff_prefix.1 hstarts, fun shorter hshorter hlt hmarker => ?_⟩
        rcases List.suffix_cons_iff.1 hshorter with rfl | hshorter
        · exact absurd hlt (Nat.lt_irrefl _)
        · exact cutBeforeLast_eq_none.1 hcut (hmarker.isInfix.trans hshorter.isInfix)
      · cases h

theorem cutAfterFirst_eq_some :
    cutAfterFirst marker text = some (before, after) ↔ CutsAfterFirst marker text before after := by
  refine ⟨cutsAfterFirst_of_cutAfterFirst, fun h => ?_⟩
  cases hcut : cutAfterFirst marker text with
  | none =>
    have hoccurs : marker <:+: text := h.ends.isInfix.trans ⟨[], after, h.eq_append.symm⟩
    exact absurd hoccurs (cutAfterFirst_eq_none.1 hcut)
  | some cut =>
    obtain ⟨rfl, rfl⟩ := h.unique (cutsAfterFirst_of_cutAfterFirst hcut)
    rfl

theorem cutBeforeLast_eq_some :
    cutBeforeLast marker text = some (before, after) ↔ CutsBeforeLast marker text before after := by
  refine ⟨cutsBeforeLast_of_cutBeforeLast, fun h => ?_⟩
  cases hcut : cutBeforeLast marker text with
  | none =>
    have hoccurs : marker <:+: text :=
      h.starts.isInfix.trans ⟨before, [], by rw [h.eq_append, List.append_nil]⟩
    exact absurd hoccurs (cutBeforeLast_eq_none.1 hcut)
  | some cut =>
    obtain ⟨rfl, rfl⟩ := h.unique (cutsBeforeLast_of_cutBeforeLast hcut)
    rfl

end MathMarkup.Text
