import StatementCompletion.Document

/-!
# Batches of edits

An edit is a span and the text to put in its place.  The edits of a batch are all meant for one
text, so they are applied from the last to the first: what is still to be applied then lies in front
of everything already changed.
-/

namespace StatementCompletion

/-- A span and the text to put in its place. -/
structure TextEdit where
  span : Span
  text : Text
deriving DecidableEq

namespace TextEdit

/-- The edit that inserts a text at an offset. -/
def insertion (offset : Nat) (text : Text) : TextEdit :=
  { span := { start := offset, stop := offset }, text }

/-- Whether an edit may be applied before another one: it starts later, or at the same offset and
does not stop earlier. -/
def precedes (a b : TextEdit) : Bool :=
  b.span.start < a.span.start || (a.span.start = b.span.start && b.span.stop ≤ a.span.stop)

/-- Insert an edit into a batch in order of application, in front of those it may precede. -/
def insertOrdered (edit : TextEdit) : List TextEdit → List TextEdit
  | [] => [edit]
  | other :: rest =>
    if edit.precedes other then edit :: other :: rest else other :: insertOrdered edit rest

/-- A batch in order of application, last edit first.  Edits of one span keep their order. -/
def inApplicationOrder (edits : List TextEdit) : List TextEdit :=
  edits.foldr insertOrdered []

end TextEdit

end StatementCompletion
