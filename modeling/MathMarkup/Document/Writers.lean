import MathMarkup.Document.Splice

/-!
# Writers at work on one file

Each writer reads the file once, and later replaces it by what it read with its own text spliced
in. The steps of different writers may follow each other in any order.
-/
namespace MathMarkup

/-- What a writer puts into the file. -/
structure Insertion where
  splice : Splice
  text : Text
  deriving DecidableEq

namespace Writers

inductive Phase where
  | waiting
  | holding (seen : Text)
  | finished
  | failed
  deriving DecidableEq

/-- The file, and how far every writer is. -/
structure Scene where
  file : Text
  phase : Nat → Phase

namespace Scene

/-- The scene before any step. -/
def start (file : Text) : Scene := ⟨file, fun _ => .waiting⟩

def enter (scene : Scene) (writer : Nat) (phase : Phase) : Scene :=
  ⟨scene.file, fun w => if w = writer then phase else scene.phase w⟩

@[simp]
theorem enter_file (scene : Scene) (writer : Nat) (phase : Phase) :
    (scene.enter writer phase).file = scene.file := rfl

@[simp]
theorem enter_phase (scene : Scene) (writer w : Nat) (phase : Phase) :
    (scene.enter writer phase).phase w = if w = writer then phase else scene.phase w := rfl

end Scene

inductive Action where
  | read (writer : Nat)
  | write (writer : Nat)
  deriving DecidableEq

/-- A writer that is not in the phase for an action does nothing. -/
def act (insertions : Nat → Insertion) (scene : Scene) : Action → Scene
  | .read writer =>
    match scene.phase writer with
    | .waiting => scene.enter writer (.holding scene.file)
    | _ => scene
  | .write writer =>
    match scene.phase writer with
    | .holding seen =>
      match (insertions writer).splice.result? seen (insertions writer).text with
      | some text => { scene.enter writer .finished with file := text }
      | none => scene.enter writer .failed
    | _ => scene

/-- The scene after actions in their order. -/
def run (insertions : Nat → Insertion) (scene : Scene) (actions : List Action) : Scene :=
  actions.foldl (act insertions) scene

end Writers

end MathMarkup
