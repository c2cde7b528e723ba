import StatementCompletion.Text.Lines

/-!
# Documents

A document is a text with a modification stamp that counts its effective edits.  An edit names a
span of byte offsets; it is refused, with the reason, when the span is reversed, leaves the text or
cuts a character in two, and a refused edit changes nothing.  Equal stamps of one document therefore
mean equal texts.
-/

namespace StatementCompletion

/-! ## Spans -/

/-- The byte offsets where a piece of text starts and stops. -/
structure Span where
  start : Nat
  stop : Nat
deriving DecidableEq

/-! ## Why an edit is refused -/

/-- The reasons for which a document refuses an offset or a span. -/
inductive EditError where
  | offsetOutOfBounds (offset size : Nat)
  | reversedSpan (span : Span)
  | notCharBoundary (offset : Nat)
deriving DecidableEq

/-- The reason in words. -/
def EditError.message : EditError → String
  | .offsetOutOfBounds offset size =>
    s!"offset {offset} is out of bounds (document length {size})"
  | .reversedSpan span => s!"invalid range {span.start}..{span.stop}"
  | .notCharBoundary offset => s!"offset {offset} is not on a character boundary"

/-! ## Documents -/

/-- A text and the number of its effective edits so far.  That number is not bounded here.  Where it
is a word of 64 bits, it is this one as long as there are fewer than `2 ^ 64`. -/
structure Document where
  text : Text
  stamp : Nat := 0
deriving DecidableEq

namespace Document

/-- The length in bytes. -/
def size (d : Document) : Nat :=
  d.text.size

/-- The text before and after an offset. -/
def splitAt (d : Document) (offset : Nat) : Except EditError (Text × Text) :=
  if d.size < offset then
    .error (.offsetOutOfBounds offset d.size)
  else
    match d.text.splitAt? offset with
    | some parts => .ok parts
    | none => .error (.notCharBoundary offset)

/-- The text before, inside and after a span. -/
def cut (d : Document) (span : Span) : Except EditError (Text × Text × Text) :=
  if span.stop < span.start then
    .error (.reversedSpan span)
  else do
    let (before, _) ← d.splitAt span.start
    let (upTo, after) ← d.splitAt span.stop
    pure (before, upTo.drop before.length, after)

/-- The text of a span. -/
def slice (d : Document) (span : Span) : Except EditError Text := do
  let (_, inside, _) ← d.cut span
  pure inside

/-- Put a text in the place of a span.  Only putting nothing in place of nothing leaves the stamp
as it is. -/
def replace (d : Document) (span : Span) (text : Text) : Except EditError Document := do
  let (before, _, after) ← d.cut span
  if span.start = span.stop ∧ text = [] then
    pure d
  else
    pure { text := before ++ text ++ after, stamp := d.stamp + 1 }

end Document

end StatementCompletion
