import Mathlib
import MathMarkup.Document.Splice
import MathMarkup.Proofs.Text.Search
import MathMarkup.Proofs.Text.Utf8

/-!
# Splicing

An insertion cuts the existing text at the outermost occurrence of its marker and puts its text
there; nothing else changes. A search among the bytes of the text finds the same place, so that no
character is ever torn apart.
-/
namespace MathMarkup

namespace Text

/-! ## Searching among bytes -/

/-- The positions at which a pattern stands in some bytes, in their order. -/
def positions (pattern bytes : List UInt8) : List Nat :=
  (List.range (bytes.length + 1)).filter fun i => pattern.isPrefixOf (bytes.drop i)

theorem mem_positions {pattern bytes : List UInt8} {i : Nat} :
    i ∈ positions pattern bytes ↔
      ∃ front rest, bytes = front ++ pattern ++ rest ∧ front.length = i := by
  simp only [positions, List.mem_filter, List.mem_range, Nat.lt_succ_iff,
    List.isPrefixOf_iff_prefix]
  constructor
  · rintro ⟨hi, rest, hrest⟩
    refine ⟨bytes.take i, rest, ?_, by simpa using hi⟩
    rw [List.append_assoc, hrest, List.take_append_drop]
  · rintro ⟨front, rest, rfl, rfl⟩
    refine ⟨by simp, rest, ?_⟩
    rw [List.append_assoc, List.drop_left]

theorem pairwise_positions (pattern bytes : List UInt8) :
    (positions pattern bytes).Pairwise (· < ·) :=
  List.pairwise_lt_range.filter _

theorem head?_positions {pattern bytes : List UInt8} {i : Nat} (hi : i ∈ positions pattern bytes)
    (hleast : ∀ j ∈ positions pattern bytes, i ≤ j) :
    (positions pattern bytes).head? = some i := by
  have hsorted := pairwise_positions pattern bytes
  cases hlist : positions pattern bytes with
  | nil => simp [hlist] at hi
  | cons j rest =>
    rw [hlist] at hi hsorted hleast
    have hle : i ≤ j := hleast j List.mem_cons_self
    rcases List.mem_cons.1 hi with rfl | hrest
    · rfl
    · have hlt := List.rel_of_pairwise_cons hsorted hrest
      omega

theorem getLast?_positions {pattern bytes : List UInt8} {i : Nat}
    (hi : i ∈ positions pattern bytes) (hgreatest : ∀ j ∈ positions pattern bytes, j ≤ i) :
    (positions pattern bytes).getLast? = some i := by
  have hsorted := pairwise_positions pattern bytes
  rcases List.eq_nil_or_concat (positions pattern bytes) with hlist | ⟨front, j, hlist⟩
  · simp [hlist] at hi
  · rw [hlist] at hi hsorted hgreatest ⊢
    rw [List.concat_eq_append] at hi hsorted hgreatest ⊢
    have hle : j ≤ i := hgreatest j (by simp)
    rcases List.mem_append.1 hi with hfront | hlast
    · have hlt := (List.pairwise_append.1 hsorted).2.2 i hfront j (List.mem_singleton_self j)
      omega
    · rw [List.mem_singleton.1 hlast, List.getLast?_concat]

variable {marker text before after : Text}

theorem positions_eq_nil (h : ¬ marker <:+: text) : positions (utf8 marker) (utf8 text) = [] := by
  rw [List.eq_nil_iff_forall_not_mem]
  intro i hi
  obtain ⟨front, rest, htext, -⟩ := mem_positions.1 hi
  by_cases hne : marker = []
  · exact h (by simp [hne])
  · obtain ⟨p, q, rfl, -, -⟩ := exists_append_of_utf8_marker hne htext
    exact h ⟨p, q, rfl⟩

theorem length_utf8_le (text : Text) {a b : Text} (ha : a <+: text) (hb : b <+: text)
    (hlength : a.length ≤ b.length) : (utf8 a).length ≤ (utf8 b).length := by
  obtain ⟨more, rfl⟩ := List.prefix_of_prefix_length_le ha hb hlength
  simp [utf8_append]

/-- The first occurrence among the bytes ends where the text is cut. -/
theorem CutsAfterFirst.head?_positions (h : CutsAfterFirst marker text before after) :
    (positions (utf8 marker) (utf8 text)).head?.map (· + (utf8 marker).length) =
      some (utf8 before).length := by
  obtain ⟨front, rfl⟩ := h.ends
  have hmem : (utf8 front).length ∈ positions (utf8 marker) (utf8 text) :=
    mem_positions.2 ⟨utf8 front, utf8 after, by rw [h.eq_append, utf8_append, utf8_append], rfl⟩
  rw [Text.head?_positions hmem]
  · rw [Option.map_some, utf8_append, List.length_append]
  · intro j hj
    obtain ⟨bytes, rest, hbytes, rfl⟩ := mem_positions.1 hj
    have hshortest : ∀ p q, text = p ++ marker ++ q → front.length ≤ p.length := by
      rintro p q rfl
      have hle := h.shortest (p ++ marker) (List.prefix_append _ q)
      simp only [List.length_append, List.suffix_append, not_true_eq_false, imp_false] at hle
      omega
    by_cases hne : marker = []
    · subst hne
      have hnil := List.length_eq_zero_iff.1 (Nat.le_zero.1 (hshortest [] text rfl))
      simp [hnil, utf8]
    · obtain ⟨p, q, hpq, rfl, -⟩ := exists_append_of_utf8_marker hne hbytes
      refine length_utf8_le text ⟨marker ++ after, ?_⟩ ⟨marker ++ q, ?_⟩
        (hshortest p q hpq)
      · rw [h.eq_append, List.append_assoc]
      · rw [hpq, List.append_assoc]

/-- The last occurrence among the bytes begins where the text is cut. -/
theorem CutsBeforeLast.getLast?_positions (h : CutsBeforeLast marker text before after) :
    (positions (utf8 marker) (utf8 text)).getLast? = some (utf8 before).length := by
  obtain ⟨rest, rfl⟩ := h.starts
  have hmem : (utf8 before).length ∈ positions (utf8 marker) (utf8 text) :=
    mem_positions.2 ⟨utf8 before, utf8 rest,
      by rw [h.eq_append, utf8_append, utf8_append, List.append_assoc], rfl⟩
  refine Text.getLast?_positions hmem fun j hj => ?_
  obtain ⟨bytes, more, hbytes, rfl⟩ := mem_positions.1 hj
  have hshortest : ∀ p q, text = p ++ marker ++ q → p.length ≤ before.length := by
    rintro p q rfl
    have hle := h.shortest (marker ++ q) ⟨p, (List.append_assoc ..).symm⟩
    have hlength := congrArg List.length h.eq_append
    simp only [List.length_append, List.prefix_append, not_true_eq_false, imp_false] at hle hlength
    omega
  by_cases hne : marker = []
  · subst hne
    have hle := hshortest text [] (by simp)
    have hlength := congrArg List.length h.eq_append
    simp only [List.nil_append, List.length_append] at hlength
    obtain rfl : rest = [] := List.length_eq_zero_iff.1 (by omega)
    have hbound := congrArg List.length hbytes
    rw [h.eq_append] at hbound
    simp only [List.append_nil, List.length_append, utf8, List.flatMap_nil] at hbound ⊢
    omega
  · obtain ⟨p, q, hpq, rfl, -⟩ := exists_append_of_utf8_marker hne hbytes
    refine length_utf8_le text ⟨marker ++ q, ?_⟩ ⟨marker ++ rest, ?_⟩
      (hshortest p q hpq)
    · rw [hpq, List.append_assoc]
    · rw [h.eq_append]

end Text

namespace Splice

/-! ## Splices of bytes -/

/-- The number of bytes in front of an insertion into some bytes. -/
def position? (splice : Splice) (bytes : List UInt8) : Option Nat :=
  match splice with
  | replace => none
  | after marker =>
    (Text.positions marker.utf8 bytes).head?.map (· + marker.utf8.length)
  | before marker => (Text.positions marker.utf8 bytes).getLast?

/-- A splice of bytes, which finds its marker and cuts by positions alone. -/
def ofBytes? (splice : Splice) (existing insert : List UInt8) : Option (List UInt8) :=
  match splice with
  | replace => some insert
  | after _ | before _ =>
    (splice.position? existing).map fun i => existing.take i ++ insert ++ existing.drop i

variable {existing insert marker : Text}

theorem position?_after (existing marker : Text) : (after marker).position? existing.utf8 =
    (Text.cutAfterFirst marker existing).map fun cut => cut.1.utf8.length := by
  cases hcut : Text.cutAfterFirst marker existing with
  | none =>
    rw [position?, Text.positions_eq_nil (Text.cutAfterFirst_eq_none.1 hcut)]
    rfl
  | some cut => exact (Text.cutAfterFirst_eq_some.1 hcut).head?_positions

theorem position?_before (existing marker : Text) : (before marker).position? existing.utf8 =
    (Text.cutBeforeLast marker existing).map fun cut => cut.1.utf8.length := by
  cases hcut : Text.cutBeforeLast marker existing with
  | none =>
    rw [position?, Text.positions_eq_nil (Text.cutBeforeLast_eq_none.1 hcut)]
    rfl
  | some cut => exact (Text.cutBeforeLast_eq_some.1 hcut).getLast?_positions

/-- At the end of a part of the text its bytes are cut just like the text. -/
theorem map_take_append_drop {cut? : Option (Text × Text)}
    (h : ∀ cut ∈ cut?, existing = cut.1 ++ cut.2) :
    (cut?.map fun cut => cut.1.utf8.length).map
        (fun i => existing.utf8.take i ++ insert.utf8 ++ existing.utf8.drop i) =
      (cut?.map fun (p, q) => p ++ insert ++ q).map Text.utf8 := by
  rw [Option.map_map, Option.map_map]
  refine Option.map_congr fun cut hcut => ?_
  rw [h cut hcut]
  simp only [Function.comp_apply, Text.utf8_append, List.take_left, List.drop_left]

theorem ofBytes?_utf8 (splice : Splice) (existing insert : Text) :
    splice.ofBytes? existing.utf8 insert.utf8 = (splice.result? existing insert).map Text.utf8 := by
  cases splice with
  | replace => rfl
  | after marker =>
    rw [ofBytes?, position?_after, result?]
    exact map_take_append_drop fun _ hcut => (Text.cutAfterFirst_eq_some.1 hcut).eq_append
  | before marker =>
    rw [ofBytes?, position?_before, result?]
    exact map_take_append_drop fun _ hcut => (Text.cutBeforeLast_eq_some.1 hcut).eq_append

/-! ## The splice of a text -/

/-- A splice fails if and only if its marker is missing. -/
theorem result?_eq_none {splice : Splice} :
    splice.result? existing insert = none ↔
      ∃ marker, splice.anchor? = some marker ∧ ¬ marker <:+: existing := by
  cases splice with
  | replace => simp [result?, anchor?]
  | after marker => simp [result?, anchor?, Text.cutAfterFirst_eq_none]
  | before marker => simp [result?, anchor?, Text.cutBeforeLast_eq_none]

/-- What comes of the cut after the first occurrence, if there is one. -/
theorem map_cutAfterFirst_eq_some {α : Type} {f : Text × Text → α} {x : α} :
    (Text.cutAfterFirst marker existing).map f = some x ↔
      ∃ p q, Text.CutsAfterFirst marker existing p q ∧ x = f (p, q) := by
  simp only [Option.map_eq_some_iff, Prod.exists, Text.cutAfterFirst_eq_some, eq_comm (a := x)]

theorem map_cutBeforeLast_eq_some {α : Type} {f : Text × Text → α} {x : α} :
    (Text.cutBeforeLast marker existing).map f = some x ↔
      ∃ p q, Text.CutsBeforeLast marker existing p q ∧ x = f (p, q) := by
  simp only [Option.map_eq_some_iff, Prod.exists, Text.cutBeforeLast_eq_some, eq_comm (a := x)]

/-- An insertion fails just when its marker does not occur. Otherwise it puts its text behind the
shortest part in front that ends with the marker, or in front of the shortest part at the end that
starts with it, and keeps both parts. Among bytes it is found at the end of a character, and comes
to the same. -/
theorem inserts_at_extreme_occurrence (existing insert marker : Text) :
    replace.result? existing insert = some insert ∧
    ((after marker).result? existing insert = none ↔ ¬ marker <:+: existing) ∧
    ((before marker).result? existing insert = none ↔ ¬ marker <:+: existing) ∧
    (∀ text, (after marker).result? existing insert = some text ↔
      ∃ p q, Text.CutsAfterFirst marker existing p q ∧ text = p ++ insert ++ q) ∧
    (∀ text, (before marker).result? existing insert = some text ↔
      ∃ p q, Text.CutsBeforeLast marker existing p q ∧ text = p ++ insert ++ q) ∧
    (∀ i, (after marker).position? existing.utf8 = some i ↔
      ∃ p q, Text.CutsAfterFirst marker existing p q ∧ i = p.utf8.length) ∧
    (∀ i, (before marker).position? existing.utf8 = some i ↔
      ∃ p q, Text.CutsBeforeLast marker existing p q ∧ i = p.utf8.length) ∧
    ∀ splice : Splice, splice.ofBytes? existing.utf8 insert.utf8 =
      (splice.result? existing insert).map Text.utf8 := by
  refine ⟨rfl, by simp [result?_eq_none, anchor?], by simp [result?_eq_none, anchor?],
    fun text => map_cutAfterFirst_eq_some, fun text => map_cutBeforeLast_eq_some,
    fun i => ?_, fun i => ?_, fun splice => ofBytes?_utf8 splice existing insert⟩
  · rw [position?_after]
    exact map_cutAfterFirst_eq_some
  · rw [position?_before]
    exact map_cutBeforeLast_eq_some

/-- Occurrences may overlap, and their characters may take several bytes. -/
example : (before "éé".toList).result? "éééa".toList "x".toList = some "éxééa".toList := by decide

end Splice

end MathMarkup
