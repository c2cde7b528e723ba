import StatementCompletion.Completion.Mending
import StatementCompletion.Editor.Session
import StatementCompletion.Landing.Rule
import StatementCompletion.Layout.Gap
import StatementCompletion.Settings

/-!
# Passes

A pass renews the tree, goes to the hole that the last pass left, and mends the target at the caret.
If a remedy edited the text, the caret steps into the empty block that it may have left, and another
pass follows.  If nothing is left to mend, the target is laid out and the caret lands: on the first
hole, or where the first of the landing rules puts it, or else behind the target or on a new line.
-/

namespace StatementCompletion

/-- How a completion ends. -/
inductive Outcome where
  /-- The target was complete and the caret has landed. -/
  | completed
  /-- A popup showed. -/
  | deferred
  /-- The passes were used up and the text is what it was. -/
  | rolledBack
  /-- The tree and the text disagreed. -/
  | failed
deriving DecidableEq

namespace Completion

/-- The rules that landing follows. -/
def manner (settings : Settings) : Landing.Manner :=
  { style := settings.style, comments := settings.comments }

/-- Lay out the gaps that a span reaches. -/
def layOut (style : CodeStyle) (span : Span) : Step Unit := do
  let edits ← look fun w => Layout.edits w.tree span style
  applyEdits edits

/-! ## Stepping into an empty block -/

/-- An empty block on one line. -/
def closedBlock : Text := ['\x7b', '\x7d']

/-- An empty block over two lines. -/
def openedBlock : Text := ['\x7b', '\n', '\x7d']

/-- The offset of an empty block that starts at the caret or ends in front of it, with nothing but
blanks between. -/
def emptyBlockNear? (text : Text) (caret : Nat) : Option Nat :=
  let behind :=
    if text.matchesAt caret closedBlock then caret + 2
    else if text.matchesAt caret openedBlock then caret + 3
    else caret
  let stop :=
    match behind with
    | 0 => 0
    | last + 1 => text.endOfInk last
  if 2 ≤ stop ∧ text.matchesAt (stop - 2) closedBlock then some (stop - 2)
  else if 3 ≤ stop ∧ text.matchesAt (stop - 3) openedBlock then some (stop - 3)
  else none

/-- The span of the construct that the brace at an offset belongs to. -/
def blockSpan? (tree : Snapshot) (offset : Nat) : Option Span := do
  let brace ← tree.cursor.leafAt? offset
  let block ← brace.parent?
  pure block.span

/-- Put the caret into an empty block next to it and open the block over two lines. -/
def stepIntoBlock (style : CodeStyle) : Step Unit := do
  match ← look fun w => emptyBlockNear? w.editor.text w.editor.caret with
  | none => pure ()
  | some opened =>
    renewTree
    match ← look fun w => blockSpan? w.tree opened with
    | none => throw (.noBlockAt opened)
    | some span =>
      changeEditor (·.moveCaret (opened + 1))
      layOut { style with keepSimpleBlocks := false } span

/-! ## Landing -/

/-- The span that a marker is on. -/
def markedSpan (slot : Nat) : Step Span := do
  match ← look fun w => w.editor.marker? slot with
  | some span => return span
  | none => throw .targetLost

/-- Let the landing rules place the caret for the target that has a span and a kind. -/
def landByRule (settings : Settings) (span : Span) (kind : Kind) : Step Bool := do
  let w ← get
  match w.tree.cursor.find? span kind with
  | none => return false
  | some target =>
    match Landing.Rule.applyFirst (manner settings) w.tree target w.editor Landing.Rule.all with
    | .ok (some editor) =>
      set { w with editor }
      return true
    | .ok none => return false
    | .error reason => throw (.refusedEdit reason)

/-- The offset behind a target, and behind what separates an enum constant from the next. -/
def stopBehind (text : Text) (kind : Kind) (stop : Nat) : Nat :=
  if kind = .enumConstant ∧ (text.matchesAt stop [','] ∨ text.matchesAt stop [';']) then stop + 1
  else stop

/-- Place the caret for a target that no rule handles: behind it if the text was changed, and
otherwise on a new line. -/
def landPlainly (settings : Settings) (kind : Kind) (slot : Nat) : Step Unit := do
  if ← orFail (← look (·.editor.isModified)) then
    let span ← markedSpan slot
    changeEditor fun e => e.moveCaret (stopBehind e.text kind span.stop)
  else
    tryEditor (·.openLine settings.style)

/-- Lay out a complete target and place the caret. -/
def land (settings : Settings) (scope : Scope) (slot : Nat) : Step Unit := do
  match ← look (·.holes.first?) with
  | some hole =>
    changeEditor (·.moveCaret hole)
    layOut settings.style scope.layoutSpan
  | none =>
    layOut settings.style scope.layoutSpan
    renewTree
    let span ← markedSpan slot
    unless ← landByRule settings span scope.kind do
      landPlainly settings scope.kind slot

/-- Place the caret where there is no target: break the comment at the caret, or open a new line. -/
def landWithoutTarget (settings : Settings) : Step Unit := do
  let w ← get
  match Landing.splitComment settings.comments w.tree w.editor with
  | .ok (some editor) => set { w with editor }
  | .ok none => tryEditor (·.openLine settings.style)
  | .error reason => throw (.refusedEdit reason)

/-! ## One pass -/

/-- Go to the first hole that was recorded, and forget it. -/
def goToHole : Step Unit := do
  match ← look (·.holes.first?) with
  | some hole =>
    modify fun w => { w with holes := {} }
    changeEditor (·.moveCaret hole)
  | none => pure ()

/-- One pass; the answer is how the completion ends, if it does. -/
def pass (settings : Settings) (popup : Popup) : Step (Option Outcome) := do
  renewTree
  goToHole
  match ← mend popup with
  | .noTarget =>
    landWithoutTarget settings
    return some .completed
  | .deferred => return some .deferred
  | .edited =>
    stepIntoBlock settings.style
    return none
  | .complete scope =>
    withMarker scope.span (land settings scope)
    return some .completed

end Completion

end StatementCompletion
