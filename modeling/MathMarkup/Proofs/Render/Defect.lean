import Mathlib
import MathMarkup.Expr.Defect

/-!
# Rendering refuses malformed trees

A tree has markup just when none of its nodes is malformed, in both layouts. What is reported is the
defect of the first malformed node, where each node comes before its operands and these come from
left to right.
-/
namespace MathMarkup

/-! ## Defects of single nodes -/

namespace Expr

/-- The defect that is reported about the node itself. -/
def defect? : Expr → Option RenderError
  | number v => if v.isFinite then none else some (.notFinite v)
  | ident name => if name = [] then some .emptyIdentifier else none
  | call name arguments =>
    if name = [] then some .unnamedCall
    else if arguments.length = 1 then none
    else some (.argumentCount name arguments.length)
  | neg _ | binary .. => none

theorem defect?_eq_some {x : Expr} {e : RenderError} : x.defect? = some e ↔ Defect x e := by
  constructor
  · intro h
    cases x with
    | number v =>
      by_cases hv : v.isFinite = true
      · simp [defect?, hv] at h
      · obtain rfl : RenderError.notFinite v = e := by simpa [defect?, hv] using h
        exact .notFinite (by simpa using hv)
    | ident name =>
      by_cases hname : name = []
      · subst hname
        cases h
        exact .emptyIdentifier
      · simp [defect?, hname] at h
    | neg x => cases h
    | binary op x y => cases h
    | call name arguments =>
      by_cases hname : name = []
      · subst hname
        cases h
        exact .unnamedCall
      · by_cases hcount : arguments.length = 1
        · simp [defect?, hname, hcount] at h
        · obtain rfl : RenderError.argumentCount name arguments.length = e := by
            simpa [defect?, hname, hcount] using h
          exact .argumentCount hname hcount
  · rintro (hv | _ | _ | ⟨hname, hcount⟩)
    · simp [defect?, hv]
    · rfl
    · rfl
    · simp [defect?, hname, hcount]

theorem defect?_eq_none {x : Expr} : x.defect? = none ↔ x.isMalformed = false := by
  cases x with
  | number v => simp [defect?, isMalformed]
  | ident name => simp [defect?, isMalformed]
  | neg x => simp [defect?, isMalformed]
  | binary op x y => simp [defect?, isMalformed]
  | call name arguments =>
    by_cases hname : name = [] <;> simp [defect?, isMalformed, hname]

/-- The defect of the first malformed node of a list. -/
def firstDefect? (nodes : List Expr) : Option RenderError := nodes.findSome? defect?

theorem firstDefect?_eq_some {nodes : List Expr} {e : RenderError} :
    firstDefect? nodes = some e ↔ FirstDefect nodes e := by
  simp only [firstDefect?, FirstDefect, List.findSome?_eq_some_iff, defect?_eq_some,
    defect?_eq_none]
  constructor
  · rintro ⟨before, x, after, hnodes, hdefect, hbefore⟩
    exact ⟨before, x, after, hnodes, hbefore, hdefect⟩
  · rintro ⟨before, x, after, hnodes, hbefore, hdefect⟩
    exact ⟨before, x, after, hnodes, hdefect, hbefore⟩

theorem firstDefect?_eq_none {nodes : List Expr} :
    firstDefect? nodes = none ↔ ∀ x ∈ nodes, x.isMalformed = false := by
  simp only [firstDefect?, List.findSome?_eq_none_iff, defect?_eq_none]

end Expr

/-! ## Errors of rendering -/

/-- The error that a computation ends with, if it ends with one. -/
def error? {ε α : Type} : Except ε α → Option ε
  | .ok _ => none
  | .error e => some e

theorem error?_eq_some {ε α : Type} {r : Except ε α} {e : ε} :
    error? r = some e ↔ r = .error e := by
  cases r <;> simp [error?]

namespace Expr

variable {layout : Layout}

theorem firstDefect?_cons (x : Expr) (nodes : List Expr) :
    firstDefect? (x :: nodes) = x.defect?.or (firstDefect? nodes) := by
  rw [firstDefect?, firstDefect?, List.findSome?_cons]
  cases x.defect? <;> rfl

theorem firstDefect?_append (nodes others : List Expr) :
    firstDefect? (nodes ++ others) = (firstDefect? nodes).or (firstDefect? others) :=
  List.findSome?_append

theorem error?_render_number (v : Binary64) :
    error? ((number v).render layout) = (number v).defect? := by
  rw [render, Binary64.render, defect?]
  cases v.isFinite <;> cases v.isZero <;> rfl

theorem error?_render_ident (name : Text) :
    error? ((ident name).render layout) = (ident name).defect? := by
  rw [render, defect?]
  split <;> rfl

/-- The right operand is looked at only if there is nothing to report about the left one. -/
theorem error?_render_binary (op : BinaryOp) (x y : Expr) :
    error? ((binary op x y).render layout) =
      (error? (x.render layout)).or (error? (y.render layout)) := by
  rw [render]
  cases x.render layout <;> cases y.render layout <;> rfl

theorem render_unnamed (arguments : List Expr) :
    (call [] arguments).render layout = .error .unnamedCall := by
  rcases arguments with _ | ⟨x, _ | ⟨y, rest⟩⟩ <;> simp [render]

theorem render_argumentCount {name : Text} {arguments : List Expr} (hname : name ≠ [])
    (hcount : arguments.length ≠ 1) :
    (call name arguments).render layout = .error (.argumentCount name arguments.length) := by
  rcases arguments with _ | ⟨x, _ | ⟨y, rest⟩⟩
  · simp [render, hname]
  · exact absurd rfl hcount
  · simp [render, hname]

/-- The argument is looked at only if there is nothing to report about the call itself. -/
theorem error?_render_call (name : Text) (arguments : List Expr)
    (h : ∀ x ∈ arguments, error? (x.render layout) = firstDefect? x.subtrees) :
    error? ((call name arguments).render layout) =
      (call name arguments).defect?.or (firstDefect? (subtreesAll arguments)) := by
  by_cases hname : name = []
  · subst hname
    rw [render_unnamed]
    rfl
  · by_cases hcount : arguments.length = 1
    · obtain ⟨x, rfl⟩ := List.length_eq_one_iff.1 hcount
      have hx := h x (List.mem_singleton_self x)
      simp only [render, defect?, hname, if_false, subtreesAll, List.append_nil]
      rw [← hx]
      cases x.render layout <;> rfl
    · rw [render_argumentCount hname hcount, defect?, if_neg hname, if_neg hcount]
      rfl

theorem error?_render (layout : Layout) (x : Expr) :
    error? (x.render layout) = firstDefect? x.subtrees := by
  induction x with
  | number v => rw [error?_render_number, subtrees, firstDefect?_cons]; exact Option.or_none.symm
  | ident name => rw [error?_render_ident, subtrees, firstDefect?_cons]; exact Option.or_none.symm
  | neg x ih =>
    rw [subtrees, firstDefect?_cons, ← ih, render]
    cases x.render layout <;> rfl
  | binary op x y ihx ihy =>
    rw [error?_render_binary, ihx, ihy, subtrees, firstDefect?_cons, firstDefect?_append]
    rfl
  | call name arguments ih =>
    rw [error?_render_call name arguments ih, subtrees, firstDefect?_cons]

theorem error?_renderAll (layout : Layout) (xs : List Expr) :
    error? (renderAll layout xs) = firstDefect? (subtreesAll xs) := by
  induction xs with
  | nil => rfl
  | cons x xs ih =>
    rw [subtreesAll, firstDefect?_append, ← error?_render layout, ← ih, renderAll]
    cases x.render layout <;> cases renderAll layout xs <;> rfl

end Expr

namespace Equation

open MathMarkup.Expr

variable {equation : Equation} {e : RenderError}

theorem error?_render (layout : Layout) (equation : Equation) :
    error? (equation.render layout) =
      if equation.sides = [] then some .noSides else firstDefect? (subtreesAll equation.sides) := by
  rw [← error?_renderAll layout, render]
  split
  · next hnil => rw [if_pos hnil]; rfl
  · next hne =>
    rw [if_neg hne]
    cases renderAll layout equation.sides <;> rfl

theorem render_eq_error_iff (layout : Layout) : equation.render layout = .error e ↔
    equation.sides = [] ∧ e = .noSides ∨ FirstDefect (subtreesAll equation.sides) e := by
  rw [← error?_eq_some, error?_render, ← firstDefect?_eq_some]
  by_cases hnil : equation.sides = []
  · simp [hnil, subtreesAll, firstDefect?, eq_comm]
  · simp [hnil]

theorem exists_render_error_iff (layout : Layout) : (∃ e, equation.render layout = .error e) ↔
    equation.sides = [] ∨ ∃ x ∈ equation.sides, ∃ y ∈ x.subtrees, y.isMalformed = true := by
  have hfirst : (∃ e, firstDefect? (subtreesAll equation.sides) = some e) ↔
      ∃ x ∈ equation.sides, ∃ y ∈ x.subtrees, y.isMalformed = true := by
    rw [← Option.isSome_iff_exists, ← Option.ne_none_iff_isSome, ne_eq, firstDefect?_eq_none]
    simp only [mem_subtreesAll, not_forall, Bool.not_eq_false]
    constructor
    · rintro ⟨y, ⟨x, hx, hy⟩, hmalformed⟩
      exact ⟨x, hx, y, hy, hmalformed⟩
    · rintro ⟨x, hx, y, hy, hmalformed⟩
      exact ⟨y, ⟨x, hx, hy⟩, hmalformed⟩
  rw [← hfirst]
  simp only [← error?_eq_some, error?_render]
  by_cases hnil : equation.sides = [] <;> simp [hnil]

/-- Exactly the malformed trees have no markup. An equation fails to be rendered if it has no sides,
or if some node of a side, at whatever depth, is an identifier or a call without a name, a call
whose arguments are not one, or a number that is not finite. The error is the same in both layouts:
it is that of the first such node, sides and operands being met from left to right and each node
before its operands. -/
theorem render_rejects_malformed (equation : Equation) :
    (∀ layout, (∃ e, equation.render layout = .error e) ↔
      equation.sides = [] ∨ ∃ x ∈ equation.sides, ∃ y ∈ x.subtrees, y.isMalformed = true) ∧
    (∀ e, equation.render .compact = .error e ↔ equation.render .pretty = .error e) ∧
    (∀ layout e, equation.render layout = .error e ↔
      equation.sides = [] ∧ e = .noSides ∨ FirstDefect (subtreesAll equation.sides) e) := by
  refine ⟨fun layout => exists_render_error_iff layout, fun e => ?_,
    fun layout e => render_eq_error_iff layout⟩
  rw [render_eq_error_iff, render_eq_error_iff]

/-- A call of two arguments is reported before what is wrong with them, and after what is wrong with
nodes on its left. -/
example : Equation.render .pretty ⟨[ident ['a'], neg (call ['f'] [ident [], number .notANumber]),
    ident []]⟩ = .error (.argumentCount ['f'] 2) := rfl

end Equation

end MathMarkup
