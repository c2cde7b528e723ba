import StatementCompletion.Completion.Pass

/-!
# Completing the statement at the caret

A completion takes passes until one of them ends it.  When it has taken as many as the settings
allow, the text and the caret are put back to what they were.  Whatever happens, the session that it
runs in ends with it.
-/

namespace StatementCompletion

/-- What comes of a completion. -/
structure Completion where
  outcome : Outcome
  /-- The passes taken. -/
  passes : Nat
  /-- The offset of the first hole of the last pass. -/
  hole? : Option Nat
  editor : Editor
  /-- How often it was asked whether a popup shows. -/
  polls : Nat

namespace Completion

/-- Put a text and a caret back. -/
def rollBack (text : Text) (caret : Nat) : Step Unit := do
  tryEditor fun e => e.replace { start := 0, stop := e.document.size } text
  changeEditor (·.moveCaret caret)

/-- Take passes, at most the given number of them, or else put back the text and the caret.  The
answer is how it ends and how many passes were taken, together with those taken before. -/
def takePasses (settings : Settings) (popup : Popup) (text : Text) (caret : Nat) :
    Nat → Nat → StateM Workspace (Outcome × Nat)
  | 0, taken => do
    match ← (rollBack text caret).run with
    | .ok () => return (.rolledBack, taken)
    | .error _ => return (.failed, taken)
  | left + 1, taken => do
    match ← (pass settings popup).run with
    | .ok (some outcome) => return (outcome, taken + 1)
    | .ok none => takePasses settings popup text caret left (taken + 1)
    | .error _ => return (.failed, taken + 1)

/-- Complete the statement at the caret of an editor. -/
def run (settings : Settings) (popup : Popup) (e : Editor) : Completion :=
  let begun := e.beginSession
  let start : Workspace := { editor := begun, tree := .ofDocument settings.source begun.document }
  let ((outcome, passes), w) :=
    (takePasses settings popup e.text e.caret settings.maxPasses 0).run start
  { outcome, passes, hole? := w.holes.first?, editor := w.editor.endSession, polls := w.polls }

end Completion

end StatementCompletion
