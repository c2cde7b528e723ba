import StatementCompletion.Editor.Newline

/-!
# Operations

What the users of an editor can do to it, as data.  An edit or a line break that is refused leaves
the editor as it was, a batch leaves what came in front of the refused edit, and a new line that is
refused leaves the caret at the end of the line.
-/

namespace StatementCompletion

namespace Editor

/-- Delete the text of a span. -/
def delete (e : Editor) (span : Span) : Except EditError Editor :=
  e.replace span []

/-- The editor after an attempt to change it: the changed one, or if the change is refused the one
before. -/
def attempt (e : Editor) : Except EditError Editor → Editor
  | .ok e' => e'
  | .error _ => e

end Editor

/-- What can be done to an editor. -/
inductive Operation where
  | replace (span : Span) (text : Text)
  | insert (offset : Nat) (text : Text)
  | delete (span : Span)
  | applyEdits (edits : List TextEdit)
  | moveCaret (offset : Nat)
  | breakLine (style : CodeStyle)
  | openLine (style : CodeStyle)
  | mark (span : Span)
  | release (slot : Nat)
  | keepNote (name : String) (note : Note)
  | forgetNote (name : String)

namespace Editor

/-- The editor after an operation, which may have been refused. -/
def perform (e : Editor) : Operation → Editor
  | .replace span text => e.attempt (e.replace span text)
  | .insert offset text => e.attempt (e.insert offset text)
  | .delete span => e.attempt (e.delete span)
  | .applyEdits edits => (e.applyEdits edits).1
  | .moveCaret offset => e.moveCaret offset
  | .breakLine style => e.attempt (e.breakLine style)
  | .openLine style =>
    -- the caret goes to the end of the line first, and stays there
    (e.moveCaret (e.text.lineEnd (e.text.lineOf e.caret))).attempt (e.openLine style)
  | .mark span => (e.mark span).1
  | .release slot => e.release slot
  | .keepNote name note => e.keepNote name note
  | .forgetNote name => e.forgetNote name

/-- The editor after some operations, one after the other. -/
def performAll (e : Editor) (operations : List Operation) : Editor :=
  operations.foldl perform e

end Editor

end StatementCompletion
