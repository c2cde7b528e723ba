import StatementCompletion.Completion.Failure
import StatementCompletion.Editor

/-!
# Sessions

A session keeps the stamp that the document has when it begins, as a note of the editor, and forgets
it when it ends.  In between it tells whether the document has changed.
-/

namespace StatementCompletion.Editor

/-- The name of the note that keeps the stamp. -/
def stampName : String :=
  "smart_enter.original_stamp"

/-- Keep the stamp of the document. -/
def beginSession (e : Editor) : Editor :=
  e.keepNote stampName (.number e.document.stamp)

/-- Forget the kept stamp. -/
def endSession (e : Editor) : Editor :=
  e.forgetNote stampName

/-- The stamp the document had when the session began. -/
def originalStamp (e : Editor) : Except Failure Nat :=
  match e.number? stampName with
  | some stamp => .ok stamp
  | none => .error .stampMissing

/-- Whether the document has changed since the session began. -/
def isModified (e : Editor) : Except Failure Bool := do
  let stamp ← e.originalStamp
  pure (e.document.stamp ≠ stamp)

end StatementCompletion.Editor
