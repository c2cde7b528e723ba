import StatementCompletion.Completion.Workspace
import StatementCompletion.Repair.Remedy
import StatementCompletion.Repair.Target

/-!
# Mending the target

The remedies are tried in their order on each node to visit, until one of them edits the text: the
tree is then out of date and the pass is over.  Before and after each remedy a popup that shows ends
the completion.
-/

namespace StatementCompletion.Completion

/-- The target of a pass, detached from the tree it was found in. -/
structure Scope where
  span : Span
  kind : Kind
  /-- What to lay out once the target is complete. -/
  layoutSpan : Span
deriving DecidableEq

/-- How mending ends. -/
inductive Mending where
  | noTarget
  | deferred
  | edited
  | complete (scope : Scope)
deriving DecidableEq

/-- What to lay out around a complete target: the block that it is the first statement of, the loop
whose header it is in, and otherwise the target alone. -/
def spanToLayOut (target : Cursor) : Span :=
  match target.parent? with
  | none => target.span
  | some parent =>
    match parent.kind with
    | .codeBlock =>
      if (parent.children.find? (·.kind.isStatement)).any (·.offset = target.offset) then
        parent.span
      else
        target.span
    | .forStatement => parent.span
    | _ => target.span

/-- What is kept of a target. -/
def Scope.ofTarget (target : Cursor) : Scope :=
  { span := target.span, kind := target.kind, layoutSpan := spanToLayOut target }

/-- Apply a remedy to a node. -/
def applyRemedy (c : Cursor) (remedy : Remedy) : Step Unit := do
  let w ← get
  match remedy.apply c w.editor w.holes with
  | .ok (editor, holes) => set { w with editor, holes }
  | .error reason => throw (.refusedEdit reason)

/-- Try a remedy on a node, and say how mending ends if it ends here. -/
def tryRemedy (popup : Popup) (c : Cursor) (remedy : Remedy) : Step (Option Mending) := do
  if ← poll popup then
    return some .deferred
  else
    applyRemedy c remedy
    if ← poll popup then
      return some .deferred
    else if ← look fun w => w.tree.isCurrent w.editor.document then
      return none
    else
      return some .edited

/-- Try remedies on nodes in turn until mending ends. -/
def tryAll (popup : Popup) : List (Cursor × Remedy) → Step (Option Mending)
  | [] => pure none
  | (c, remedy) :: rest => do
    match ← tryRemedy popup c remedy with
    | some mending => return some mending
    | none => tryAll popup rest

/-- The remedies to try on each of the nodes to visit. -/
def trials (target : Cursor) : List (Cursor × Remedy) :=
  (Target.visits target).flatMap fun c => Remedy.all.map fun remedy => (c, remedy)

/-- Mend the target at the caret until a remedy edits the text. -/
def mend (popup : Popup) : Step Mending := do
  match ← look fun w => Target.atCaret? w.tree w.editor.text w.editor.caret with
  | none => return .noTarget
  | some target =>
    match ← tryAll popup (trials target) with
    | some mending => return mending
    | none => return .complete (Scope.ofTarget target)

end StatementCompletion.Completion
