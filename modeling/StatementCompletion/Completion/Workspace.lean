import StatementCompletion.Completion.Failure
import StatementCompletion.Editor
import StatementCompletion.Repair.Holes
import StatementCompletion.Tree.Snapshot

/-!
# The workspace of a completion

A completion works on an editor, a tree of its text, and the holes recorded so far.  It also counts
how often it has looked whether a popup shows: a popup is the answer to each of these polls, so that
a completion is a function of its inputs.
-/

namespace StatementCompletion

/-- Whether a popup shows at the poll with a number, counted from one. -/
abbrev Popup := Nat → Bool

namespace Popup

/-- No popup ever shows. -/
def never : Popup :=
  fun _ => false

/-- A popup shows from behind the poll with a number on. -/
def after (n : Nat) : Popup :=
  fun poll => n < poll

end Popup

namespace Completion

/-- What a completion works on. -/
structure Workspace where
  editor : Editor
  tree : Snapshot
  holes : Holes := {}
  polls : Nat := 0

/-- A part of a completion: it changes the workspace and answers or fails. -/
abbrev Step := ExceptT Failure (StateM Workspace)

/-- The workspace, as seen by one of its functions. -/
def look {α : Type} (f : Workspace → α) : Step α := do
  return f (← get)

/-- Change the editor. -/
def changeEditor (f : Editor → Editor) : Step Unit :=
  modify fun w => { w with editor := f w.editor }

/-- Change the editor in a way that may be refused. -/
def tryEditor (f : Editor → Except EditError Editor) : Step Unit := do
  let w ← get
  match f w.editor with
  | .ok editor => set { w with editor }
  | .error reason => throw (.refusedEdit reason)

/-- Apply a batch of edits; those in front of a refused one stay applied. -/
def applyEdits (edits : List TextEdit) : Step Unit := do
  let w ← get
  let (editor, result) := w.editor.applyEdits edits
  set { w with editor }
  match result with
  | .ok () => pure ()
  | .error reason => throw (.refusedEdit reason)

/-- The answer of something that may fail. -/
def orFail {α : Type} : Except Failure α → Step α
  | .ok a => pure a
  | .error failure => throw failure

/-- Make the tree speak of the document. -/
def renewTree : Step Unit :=
  modify fun w => { w with tree := w.tree.renewed w.editor.document }

/-- Whether a popup shows now. -/
def poll (popup : Popup) : Step Bool := do
  let w ← get
  set { w with polls := w.polls + 1 }
  return popup (w.polls + 1)

/-- Do something with a span marked, and free the marker whatever comes of it.  The slot of the
marker is handed in. -/
def withMarker {α : Type} (span : Span) (step : Nat → Step α) : Step α := do
  let w ← get
  let (editor, slot) := w.editor.mark span
  set { w with editor }
  let result ← ExceptT.lift (step slot).run
  changeEditor (·.release slot)
  orFail result

end Completion

end StatementCompletion
