import Mathlib
import MathMarkup.Proofs.Regroup.Join

/-!
# Regrouping ends, and always in the same expression

Every step leaves the regrouped expression as it is and lowers a weight. The steps lead to the
regrouped expression, which allows none, so that it is what they end in whatever their order.
-/
namespace MathMarkup.Expr

open Relation

/-- No step is left. -/
def IsRegrouped (x : Expr) : Prop := ∀ y, ¬ Regroups x y

/-! ## Steps do not change where they lead -/

theorem regroupedAll_append (xs ys : List Expr) :
    regroupedAll (xs ++ ys) = regroupedAll xs ++ regroupedAll ys := by
  induction xs with
  | nil => rfl
  | cons x xs ih => simp [regroupedAll, ih]

theorem regrouped_eq_of_regroups {x y : Expr} (h : Regroups x y) : x.regrouped = y.regrouped := by
  induction h with
  | @sign v hsign hzero =>
    have hsign' : v.neg.negative = false := by simp [Binary64.neg, hsign]
    simp [regrouped, unsigned, hsign, hzero, hsign']
  | zero hsign hzero =>
    simp only [regrouped, unsigned, hzero, if_true]
    rfl
  | shift houter hinner => exact joinRight_assoc ⟨houter, hinner⟩ _ _ _
  | neg _ ih => simp only [regrouped, ih]
  | left _ ih => simp only [regrouped, ih]
  | right _ ih => simp only [regrouped, ih]
  | argument _ ih => simp only [regrouped, regroupedAll_append, regroupedAll, ih]

/-! ## Steps lead to the regrouped expression -/

theorem reflTransGen_joinRight (op : BinaryOp) (x y : Expr) :
    ReflTransGen Regroups (binary op x y) (joinRight op x y) := by
  induction y using chain_induct with
  | ends y hy => rw [joinRight_of_endsChain x hy]
  | chains inner a b h iha =>
    rw [joinRight_of_chains h]
    exact .head (.shift h.1 h.2) (iha.lift (binary inner · b) fun _ _ => Regroups.left)

theorem reflTransGen_call (name : Text) {before xs : List Expr}
    (h : ∀ x ∈ xs, ReflTransGen Regroups x x.regrouped) :
    ReflTransGen Regroups (call name (before ++ xs)) (call name (before ++ regroupedAll xs)) := by
  induction xs generalizing before with
  | nil => exact .refl
  | cons x xs ih =>
    have hx : ReflTransGen Regroups (call name (before ++ x :: xs))
        (call name (before ++ x.regrouped :: xs)) :=
      (h x List.mem_cons_self).lift (fun y => call name (before ++ y :: xs)) fun _ _ => .argument
    have hxs := @ih (before ++ [x.regrouped]) fun y hy => h y (List.mem_cons_of_mem x hy)
    simp only [List.append_assoc, List.singleton_append] at hxs
    exact hx.trans hxs

theorem reflTransGen_unsigned (v : Binary64) : ReflTransGen Regroups (number v) (unsigned v) := by
  unfold unsigned
  cases hsign : v.negative with
  | true =>
    cases hzero : v.isZero with
    | true => exact .single (.zero hsign hzero)
    | false => exact .single (.sign hsign hzero)
  | false =>
    split
    · next hzero =>
      have hv : v = .zero := by
        cases v
        simp_all [Binary64.isZero, Binary64.zero]
      rw [hv]
    · exact .refl

theorem reflTransGen_regrouped (x : Expr) : ReflTransGen Regroups x x.regrouped := by
  induction x with
  | number v => exact reflTransGen_unsigned v
  | ident name => exact .refl
  | neg x ih => exact ih.lift neg fun _ _ => .neg
  | binary op x y ihx ihy =>
    have hleft := ihx.lift (binary op · y) fun _ _ => Regroups.left
    have hright := ihy.lift (binary op x.regrouped ·) fun _ _ => Regroups.right
    exact (hleft.trans hright).trans (reflTransGen_joinRight op _ _)
  | call name arguments ih => exact @reflTransGen_call name [] arguments ih

/-! ## The regrouped expression allows no step -/

theorem isRegrouped_neg {x : Expr} : (neg x).IsRegrouped ↔ x.IsRegrouped := by
  constructor
  · intro h y hy
    exact h _ (.neg hy)
  · rintro h y ⟨⟩
    next hy => exact h _ hy

theorem isRegrouped_binary {op : BinaryOp} {x y : Expr} : (binary op x y).IsRegrouped ↔
    x.IsRegrouped ∧ y.IsRegrouped ∧ EndsChain op y := by
  constructor
  · intro h
    refine ⟨fun z hz => h _ (.left hz), fun z hz => h _ (.right hz), ?_⟩
    rintro inner a b rfl hchains
    exact h _ (.shift hchains.1 hchains.2)
  · rintro ⟨hx, hy, hchains⟩ z hz
    cases hz with
    | shift houter hinner => exact hchains _ _ _ rfl ⟨houter, hinner⟩
    | left hz => exact hx _ hz
    | right hz => exact hy _ hz

theorem isRegrouped_call {name : Text} {arguments : List Expr}
    (h : ∀ x ∈ arguments, x.IsRegrouped) : (call name arguments).IsRegrouped := by
  rintro y ⟨⟩
  next x y hxy => exact h x (by simp) y hxy

theorem isRegrouped_number {v : Binary64} (h : v.negative = false) : (number v).IsRegrouped := by
  intro y hy
  cases hy <;> simp_all

theorem isRegrouped_unsigned (v : Binary64) : (unsigned v).IsRegrouped := by
  unfold unsigned
  split
  · exact isRegrouped_number rfl
  · split
    · next hsign => exact isRegrouped_neg.2 (isRegrouped_number (by simp [Binary64.neg, hsign]))
    · next hsign => exact isRegrouped_number (by simpa using hsign)

theorem isRegrouped_joinRight {op : BinaryOp} {x y : Expr} (hx : x.IsRegrouped)
    (hy : y.IsRegrouped) : (joinRight op x y).IsRegrouped := by
  induction y using chain_induct with
  | ends y hends =>
    rw [joinRight_of_endsChain x hends]
    exact isRegrouped_binary.2 ⟨hx, hy, hends⟩
  | chains inner a b h iha =>
    obtain ⟨ha, hb⟩ := isRegrouped_binary.1 hy
    rw [joinRight_of_chains h]
    exact isRegrouped_binary.2 ⟨iha ha, hb⟩

theorem mem_regroupedAll {xs : List Expr} {y : Expr} (h : y ∈ regroupedAll xs) :
    ∃ x ∈ xs, y = x.regrouped := by
  induction xs with
  | nil => cases h
  | cons x xs ih =>
    rcases List.mem_cons.1 h with rfl | h
    · exact ⟨x, List.mem_cons_self, rfl⟩
    · obtain ⟨z, hz, rfl⟩ := ih h
      exact ⟨z, List.mem_cons_of_mem x hz, rfl⟩

theorem isRegrouped_regrouped (x : Expr) : x.regrouped.IsRegrouped := by
  induction x with
  | number v => exact isRegrouped_unsigned v
  | ident name => rintro y ⟨⟩
  | neg x ih => exact isRegrouped_neg.2 ih
  | binary op x y ihx ihy => exact isRegrouped_joinRight ihx ihy
  | call name arguments ih =>
    refine isRegrouped_call fun y hy => ?_
    obtain ⟨x, hx, rfl⟩ := mem_regroupedAll hy
    exact ih x hx

/-- The regrouped expression is the only one in which steps from an expression can end. -/
theorem eq_regrouped_iff {x y : Expr} :
    y = x.regrouped ↔ ReflTransGen Regroups x y ∧ y.IsRegrouped := by
  constructor
  · rintro rfl
    exact ⟨reflTransGen_regrouped x, isRegrouped_regrouped x⟩
  · rintro ⟨hsteps, hy⟩
    have hinvariant : x.regrouped = y.regrouped := by
      clear hy
      induction hsteps with
      | refl => rfl
      | tail _ hstep ih => exact ih.trans (regrouped_eq_of_regroups hstep)
    rcases (reflTransGen_regrouped y).cases_head with heq | ⟨z, hz, -⟩
    · rw [hinvariant, ← heq]
    · exact absurd hz (hy z)

/-! ## Steps come to an end -/

mutual

/-- The number of leaves. A call counts as one besides its arguments. -/
def leaves : Expr → Nat
  | number _ => 1
  | ident _ => 1
  | neg x => x.leaves
  | binary _ x y => x.leaves + y.leaves
  | call _ arguments => 1 + leavesAll arguments

def leavesAll : List Expr → Nat
  | [] => 0
  | x :: xs => x.leaves + leavesAll xs

end

mutual

/-- Signs of numbers, and all leaves of every right operand. -/
def weight : Expr → Nat
  | number v => if v.negative then 1 else 0
  | ident _ => 0
  | neg x => x.weight
  | binary _ x y => x.weight + y.weight + y.leaves
  | call _ arguments => weightAll arguments

def weightAll : List Expr → Nat
  | [] => 0
  | x :: xs => x.weight + weightAll xs

end

theorem leaves_pos (x : Expr) : 0 < x.leaves := by
  induction x with
  | neg x ih => exact ih
  | binary op x y ihx ihy => exact Nat.add_pos_left ihx _
  | call name arguments ih => exact Nat.add_pos_left Nat.one_pos _
  | _ => exact Nat.one_pos

theorem leavesAll_append (xs ys : List Expr) :
    leavesAll (xs ++ ys) = leavesAll xs + leavesAll ys := by
  induction xs with
  | nil => simp [leavesAll]
  | cons x xs ih => simp [leavesAll, ih, Nat.add_assoc]

theorem weightAll_append (xs ys : List Expr) :
    weightAll (xs ++ ys) = weightAll xs + weightAll ys := by
  induction xs with
  | nil => simp [weightAll]
  | cons x xs ih => simp [weightAll, ih, Nat.add_assoc]

/-- A step keeps the leaves, and takes some of them out of a right operand or removes a sign. -/
theorem weight_lt_of_regroups {x y : Expr} (h : Regroups x y) :
    y.leaves = x.leaves ∧ y.weight < x.weight := by
  induction h with
  | sign hsign _ => simp [leaves, weight, hsign, Binary64.neg]
  | zero hsign _ => simp [leaves, weight, hsign, Binary64.zero]
  | @shift outer inner x y z houter hinner =>
    have hz := leaves_pos z
    simp only [leaves, weight]
    omega
  | neg _ ih => exact ih
  | left _ ih =>
    simp only [leaves, weight]
    omega
  | right _ ih =>
    simp only [leaves, weight]
    omega
  | argument _ ih =>
    simp only [leaves, weight, leavesAll_append, weightAll_append, leavesAll, weightAll]
    omega

theorem wellFounded_regroups : WellFounded fun y x => Regroups x y :=
  Subrelation.wf (fun h => (weight_lt_of_regroups h).2) (InvImage.wf weight Nat.lt_wfRel.wf)

end MathMarkup.Expr
