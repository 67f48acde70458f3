import Mathlib
import MathMarkup.Expr.Valuation
import MathMarkup.Proofs.Fold.Steps
import MathMarkup.Proofs.WellFormed

/-!
# Folding and values

Folding puts values in the place of the largest subtrees without identifiers, and nothing else is
changed. Where such a subtree has no value, the fold ends with the first failure in postorder.
-/
namespace MathMarkup.Expr

/-! ## Expressions with known calls -/

/-- An expression whose calls are all of known functions with one argument. -/
inductive IsKnown : Expr → Prop
  | number (v : Binary64) : IsKnown (number v)
  | ident (name : Text) : IsKnown (ident name)
  | neg {x : Expr} : IsKnown x → IsKnown (neg x)
  | binary (op : BinaryOp) {x y : Expr} : IsKnown x → IsKnown y → IsKnown (binary op x y)
  | call {name : Text} {f : ElementaryFunction} {x : Expr} :
      ElementaryFunction.ofName? name = some f → IsKnown x → IsKnown (call name [x])

theorem isKnown_of_callsKnown {x : Expr} (h : x.callsKnown = true) : IsKnown x := by
  rw [callsKnown_iff] at h
  induction x with
  | number v => exact .number v
  | ident name => exact .ident name
  | neg x ih => exact .neg (ih (forall_mem_subtrees_neg.1 h).2)
  | binary op x y ihx ihy =>
    obtain ⟨-, hx, hy⟩ := forall_mem_subtrees_binary.1 h
    exact .binary op (ihx hx) (ihy hy)
  | call name arguments ih =>
    obtain ⟨hcall, harguments⟩ := forall_mem_subtrees_call.1 h
    simp only [hasKnownCall, Bool.and_eq_true, decide_eq_true_eq] at hcall
    obtain ⟨hname, hlength⟩ := hcall
    obtain ⟨f, hf⟩ := Option.isSome_iff_exists.1 hname
    obtain ⟨x, rfl⟩ := List.length_eq_one_iff.1 hlength
    exact .call hf (ih x List.mem_cons_self (harguments x List.mem_cons_self))

theorem IsKnown.of_mem_subtrees {x : Expr} (h : IsKnown x) : ∀ z ∈ x.subtrees, IsKnown z := by
  induction h with
  | number v => simpa [subtrees] using IsKnown.number v
  | ident name => simpa [subtrees] using IsKnown.ident name
  | neg hx ih => exact forall_mem_subtrees_neg.2 ⟨.neg hx, ih⟩
  | binary op hx hy ihx ihy => exact forall_mem_subtrees_binary.2 ⟨.binary op hx hy, ihx, ihy⟩
  | call hf hx ih =>
    refine forall_mem_subtrees_call.2 ⟨.call hf hx, fun y hy => ?_⟩
    cases List.mem_singleton.1 hy
    exact ih

section

variable (name : Text) (op : BinaryOp) (x y : Expr)

theorem isClosed_neg : (neg x).isClosed = x.isClosed := rfl

theorem isClosed_binary : (binary op x y).isClosed = (x.isClosed && y.isClosed) :=
  List.all_append

theorem isClosed_call : (call name [x]).isClosed = x.isClosed := by
  unfold isClosed
  rw [subtrees, subtreesAll, subtreesAll, List.append_nil]
  rfl

end

/-! ## Machine floats -/

/-- A number holds a machine float exactly. -/
theorem toFloat_ofFloat (x : Float) : (Binary64.ofFloat x).toFloat = x := by
  rw [Binary64.toFloat, Binary64.ofFloat, Binary64.toBits_ofBits, Float.ofBits_toBits]

/-- An operator is the operation of machine floats that it stands for. -/
theorem apply_eq_floatOperation (op : BinaryOp) (a b : Binary64) :
    op.apply a b = .ofFloat (floatOperation op a.toFloat b.toFloat) := by
  cases op <;> rfl

/-- A known function is the one of machine floats that has its name. -/
theorem exists_lookup_floatFunctions {name : Text} {f : ElementaryFunction}
    (hf : ElementaryFunction.ofName? name = some f) : ∃ g,
      floatFunctions.lookup name = some g ∧ ∀ a, f.apply a = .ofFloat (g a.toFloat) := by
  obtain rfl := ElementaryFunction.name_of_ofName? hf
  cases f <;> exact ⟨_, rfl, fun _ => rfl⟩

theorem value?_call {name : Text} {f : ElementaryFunction}
    (hf : ElementaryFunction.ofName? name = some f) (x : Expr) : (call name [x]).value? =
      x.value?.map fun r => r.bind fun a => result (.noFiniteValue name a) (f.apply a) := by
  obtain ⟨g, hg, happly⟩ := exists_lookup_floatFunctions hf
  simp only [value?, hg, happly]
  cases x.value? <;> rfl

/-! ## Expressions that are computed -/

/-- Exactly the expressions without identifiers are computed. -/
theorem IsKnown.isSome_value? {x : Expr} (h : IsKnown x) : x.value?.isSome = x.isClosed := by
  induction h with
  | number v => rfl
  | ident name => rfl
  | neg hx ih => rw [isClosed_neg, ← ih, value?, Option.isSome_map]
  | @binary op x y hx hy ihx ihy =>
    rw [isClosed_binary, ← ihx, ← ihy, value?]
    cases x.value? <;> cases y.value? <;> rfl
  | @call name f x hf hx ih => rw [isClosed_call, ← ih, value?_call hf, Option.isSome_map]

/-- A result is a finite number without negative zero. -/
theorem result_eq (error : EvaluationError) (v : Binary64) :
    result error v = if v.isFinite then .ok (normalized v) else .error error := by
  have hinfinity : Binary64.infinityCode = 0x7FF0000000000000 := rfl
  simp only [result, normalized, Binary64.isFinite, Binary64.isZero, decide_eq_true_eq, hinfinity]
  by_cases hzero : v.code = 0
  · have hunsigned : { v with negative := false } = Binary64.zero := by
      rw [Binary64.zero, Binary64.mk.injEq]
      exact ⟨rfl, hzero⟩
    rw [if_pos hzero, if_pos hzero, if_pos (hzero ▸ by decide), hunsigned]
  · rw [if_neg hzero, if_neg hzero]

theorem literal_eq (source : EvaluationError.Source) (v : Binary64) :
    literal source v = (result (.notFinite source) v).map number := by
  rw [literal, result_eq]
  split <;> rfl

theorem foldBinary_number (op : BinaryOp) (a b : Binary64) :
    foldBinary op (number a) (number b) = (operate op a b).map number := by
  have hzero : b.isZero = true ↔ b.code = 0 := decide_eq_true_iff
  rw [foldBinary, operate]
  simp only [hzero, apply_eq_floatOperation]
  split
  · rfl
  · exact literal_eq _ _

theorem foldCall_number {name : Text} {f : ElementaryFunction}
    (hf : ElementaryFunction.ofName? name = some f) (a : Binary64) :
    foldCall name [number a] = (result (.noFiniteValue name a) (f.apply a)).map number := by
  simp only [foldCall, hf, result_eq]
  split <;> rfl

/-- What is computed folds to its value, or fails with the same error. -/
theorem fold_of_value? {x : Expr} (h : IsKnown x) {r : Except EvaluationError Binary64}
    (hr : x.value? = some r) : x.fold = r.map number := by
  induction h generalizing r with
  | number v =>
    cases hr
    exact literal_eq _ _
  | ident name => cases hr
  | @neg x hx ih =>
    obtain ⟨a, ha, rfl⟩ := Option.map_eq_some_iff.1 hr
    rw [fold, ih ha]
    cases a with
    | error e => rfl
    | ok a => exact literal_eq _ _
  | @binary op x y hx hy ihx ihy =>
    rw [value?] at hr
    split at hr
    · next a b ha hb =>
      cases hr
      rw [fold, ihx ha, ihy hb]
      cases a with
      | error e => rfl
      | ok a =>
        cases b with
        | error e => rfl
        | ok b => exact foldBinary_number op a b
    · cases hr
  | @call name f x hf hx ih =>
    rw [value?_call hf] at hr
    obtain ⟨a, ha, rfl⟩ := Option.map_eq_some_iff.1 hr
    rw [fold, foldAll, ih ha]
    cases a with
    | error e => rfl
    | ok a => exact foldCall_number hf a

/-! ## Expressions that keep their shape -/

section

variable {name : Text} {op : BinaryOp} {x y : Expr}

theorem valued_neg (h : (neg x).value? = none) : (neg x).valued = neg x.valued := by
  rw [valued.eq_def, h]

theorem valued_binary (h : (binary op x y).value? = none) :
    (binary op x y).valued = binary op x.valued y.valued := by
  rw [valued.eq_def, h]

theorem valued_call {arguments : List Expr} (h : (call name arguments).value? = none) :
    (call name arguments).valued = call name (valuedAll arguments) := by
  rw [valued.eq_def, h]

/-- What is not computed is not replaced by a number. -/
theorem valued_ne_number (h : x.value? = none) (v : Binary64) : x.valued ≠ number v := by
  cases x with
  | number w => cases h
  | ident name => simp [valued]
  | neg x => simp [valued_neg h]
  | binary op x y => simp [valued_binary h]
  | call name arguments => simp [valued_call h]

theorem foldNeg_of_ne_number (h : ∀ v, x ≠ number v) : foldNeg x = .ok (neg x) := by
  cases x with
  | number v => exact absurd rfl (h v)
  | _ => rfl

theorem foldBinary_of_ne_number (h : (∀ v, x ≠ number v) ∨ ∀ v, y ≠ number v) :
    foldBinary op x y = .ok (binary op x y) := by
  unfold foldBinary
  split
  · next a b => exact h.elim (fun hx => absurd rfl (hx a)) fun hy => absurd rfl (hy b)
  · rfl

theorem foldCall_of_ne_number (h : ∀ v, x ≠ number v) :
    foldCall name [x] = .ok (call name [x]) := by
  unfold foldCall
  split
  · next f v hf hx =>
    cases hx
    exact absurd rfl (h v)
  · rfl

theorem value?_eq_none_of_binary (h : (binary op x y).value? = none) :
    x.value? = none ∨ y.value? = none := by
  rw [value?] at h
  split at h
  · cases h
  · next hnone =>
    cases hx : x.value? with
    | none => exact Or.inl rfl
    | some r =>
      cases hy : y.value? with
      | none => exact Or.inr rfl
      | some s => exact absurd hy (hnone r s hx)

theorem value?_eq_none_of_call {f : ElementaryFunction}
    (hf : ElementaryFunction.ofName? name = some f) (h : (call name [x]).value? = none) :
    x.value? = none := by
  rw [value?_call hf] at h
  exact Option.map_eq_none_iff.1 h

end

/-! ## Folding -/

/-- The failure that comes first in postorder. -/
def firstFailure? (x : Expr) : Option EvaluationError := x.postorder.findSome? failure?

/-- The valued expression, unless there is a failure. -/
def valuedUnless (x : Expr) (failure? : Option EvaluationError) : Except EvaluationError Expr :=
  failure?.elim (.ok x.valued) .error

theorem valuedUnless_of_value? {x : Expr} {r : Except EvaluationError Binary64}
    (h : x.value? = some r) : x.valuedUnless x.failure? = r.map number := by
  unfold valuedUnless failure?
  rw [h]
  cases r with
  | error e => rfl
  | ok v =>
    rw [valued.eq_def, h]
    rfl

theorem valuedUnless_of_none {x : Expr} (h : x.value? = none) :
    x.valuedUnless x.failure? = .ok x.valued := by
  unfold valuedUnless failure?
  rw [h]
  rfl

section

variable (name : Text) (op : BinaryOp) (x y : Expr)

theorem firstFailure?_neg :
    (neg x).firstFailure? = x.firstFailure?.or (neg x).failure? := by
  simp [firstFailure?, postorder, List.findSome?_append]

theorem firstFailure?_binary : (binary op x y).firstFailure? =
    (x.firstFailure?.or y.firstFailure?).or (binary op x y).failure? := by
  simp [firstFailure?, postorder, List.findSome?_append, Option.or_assoc]

theorem firstFailure?_call :
    (call name [x]).firstFailure? = x.firstFailure?.or (call name [x]).failure? := by
  simp [firstFailure?, postorder, postorderAll, List.findSome?_append]

end

theorem fold_eq {x : Expr} (h : IsKnown x) : x.fold = x.valuedUnless x.firstFailure? := by
  -- where no part fails, the node itself is computed, or it stays around its valued parts
  induction h with
  | number v =>
    rw [fold_of_value? (.number v) rfl, ← valuedUnless_of_value? (x := number v) rfl]
    simp [firstFailure?, postorder]
  | ident name => rfl
  | @neg x hx ih =>
    rw [firstFailure?_neg]
    cases hfailure : x.firstFailure? with
    | some e =>
      rw [fold, ih, hfailure]
      rfl
    | none =>
      rw [Option.none_or]
      cases hvalue : (neg x).value? with
      | some r => rw [fold_of_value? (.neg hx) hvalue, valuedUnless_of_value? hvalue]
      | none =>
        have hnone : x.value? = none := Option.map_eq_none_iff.1 hvalue
        rw [valuedUnless_of_none hvalue, valued_neg hvalue, fold, ih, hfailure]
        exact foldNeg_of_ne_number (valued_ne_number hnone)
  | @binary op x y hx hy ihx ihy =>
    rw [firstFailure?_binary]
    cases hleft : x.firstFailure? with
    | some e =>
      rw [fold, ihx, hleft]
      rfl
    | none =>
      cases hright : y.firstFailure? with
      | some e =>
        rw [fold, ihx, hleft, ihy, hright]
        rfl
      | none =>
        rw [Option.none_or, Option.none_or]
        cases hvalue : (binary op x y).value? with
        | some r => rw [fold_of_value? (.binary op hx hy) hvalue, valuedUnless_of_value? hvalue]
        | none =>
          rw [valuedUnless_of_none hvalue, valued_binary hvalue, fold, ihx, hleft, ihy, hright]
          exact foldBinary_of_ne_number
            ((value?_eq_none_of_binary hvalue).imp valued_ne_number valued_ne_number)
  | @call name f x hf hx ih =>
    rw [firstFailure?_call]
    cases hfailure : x.firstFailure? with
    | some e =>
      rw [fold, foldAll, ih, hfailure]
      rfl
    | none =>
      rw [Option.none_or]
      cases hvalue : (call name [x]).value? with
      | some r => rw [fold_of_value? (.call hf hx) hvalue, valuedUnless_of_value? hvalue]
      | none =>
        rw [valuedUnless_of_none hvalue, valued_call hvalue, fold, foldAll, ih, hfailure]
        exact foldCall_of_ne_number (valued_ne_number (value?_eq_none_of_call hf hvalue))

theorem IsKnown.firstFailure?_eq_none {x : Expr} (h : IsKnown x) : x.firstFailure? = none ↔
    ∀ z ∈ x.subtrees, z.isClosed = true → ∃ v, z.value? = some (.ok v) := by
  simp only [firstFailure?, List.findSome?_eq_none_iff, mem_postorder]
  refine forall₂_congr fun z hz => ?_
  rw [← (h.of_mem_subtrees z hz).isSome_value?, failure?]
  rcases z.value? with _ | e | v <;> simp

theorem valuedUnless_eq_ok {x y : Expr} {error? : Option EvaluationError} :
    x.valuedUnless error? = .ok y ↔ error? = none ∧ x.valued = y := by
  cases error? <;> simp [valuedUnless]

theorem valuedUnless_eq_error {x : Expr} {error? : Option EvaluationError} {e : EvaluationError} :
    x.valuedUnless error? = .error e ↔ error? = some e := by
  cases error? <;> simp [valuedUnless]

/-- Folding replaces exactly the largest subtrees without identifiers by their values, which are
computed with machine floats; numbers hold these exactly. It succeeds if all of those subtrees have
a value, and otherwise ends with the failure that comes first in postorder. -/
theorem fold_replaces_closed (x : Expr) (hcalls : x.callsKnown = true) :
    (∀ a : Float, (Binary64.ofFloat a).toFloat = a) ∧
    (∀ z ∈ x.subtrees, z.isClosed = true ↔ ∃ r, z.value? = some r) ∧
    ((∃ y, x.fold = .ok y) ↔
      ∀ z ∈ x.subtrees, z.isClosed = true → ∃ v, z.value? = some (.ok v)) ∧
    (∀ y, x.fold = .ok y → y = x.valued) ∧
    ∀ e, x.fold = .error e → x.firstFailure? = some e := by
  have hknown := isKnown_of_callsKnown hcalls
  rw [fold_eq hknown]
  refine ⟨toFloat_ofFloat, fun z hz => ?_, ?_, fun y hy => ?_,
    fun e he => valuedUnless_eq_error.1 he⟩
  · rw [← (hknown.of_mem_subtrees z hz).isSome_value?, Option.isSome_iff_exists]
  · simp [valuedUnless_eq_ok, ← hknown.firstFailure?_eq_none]
  · exact (valuedUnless_eq_ok.1 hy).2.symm

/-- Beside an identifier the numbers become values, and of two failures the left one counts. -/
theorem fold_replaces_closed_beside :
    let least := Binary64.ofCode false 1
    let x := binary .add (neg (number .zero))
      (call "sqrt".toList [binary .mul (ident ['a']) (neg (neg (number least)))])
    let y := binary .add (number .zero)
      (call "sqrt".toList [binary .mul (ident ['a']) (number least)])
    let z := binary .sub (binary .div (number least) (neg (number .zero)))
      (neg (neg (number (.infinity true))))
    (x.callsKnown = true ∧ x.fold = .ok y ∧ y = x.valued ∧
      ∀ w ∈ x.subtrees, w.isClosed = true → ∃ v, w.value? = some (.ok v)) ∧
    z.callsKnown = true ∧ z.fold = .error (.divisionByZero least .zero) ∧
      z.firstFailure? = some (.divisionByZero least .zero) := by
  intro least x y z
  have hx : x.callsKnown = true := by decide
  have hz : z.callsKnown = true := by decide
  have hfold : x.fold = .ok y := rfl
  have hfailure : z.fold = .error (.divisionByZero least .zero) := rfl
  obtain ⟨-, -, hvalues, hvalued, -⟩ := fold_replaces_closed x hx
  obtain ⟨-, -, -, -, hfirst⟩ := fold_replaces_closed z hz
  exact ⟨⟨hx, hfold, hvalued y hfold, hvalues.1 ⟨y, hfold⟩⟩, hz, hfailure, hfirst _ hfailure⟩

end MathMarkup.Expr
