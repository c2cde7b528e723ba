import StatementCompletion.Document.Edit

/-!
# Editors

An editor holds a document together with a caret, with markers that follow spans of the text
through later edits, and with notes kept under names.

A position is moved across an edit by `Span.carry`.  A marker's start has one rule more: what is
inserted exactly at the start stays outside the marker.
-/

namespace StatementCompletion

/-! ## Positions across an edit -/

namespace Span

/-- Where a position is after `inserted` bytes took the place of a span: at or before the start it
stays, at or behind the stop it moves along, and in between it goes to the end of the new text. -/
def carry (span : Span) (inserted position : Nat) : Nat :=
  if position ≤ span.start then position
  else if span.stop ≤ position then position - (span.stop - span.start) + inserted
  else span.start + inserted

/-- Where a marked span is after `inserted` bytes took the place of a span.  An insertion at the
marker's start moves the marker. -/
def carryMarker (span : Span) (inserted : Nat) (marker : Span) : Span :=
  let start :=
    if span.start = span.stop ∧ marker.start = span.start then marker.start + inserted
    else span.carry inserted marker.start
  { start, stop := max (span.carry inserted marker.stop) start }

end Span

/-! ## Editors -/

/-- What a note holds. -/
inductive Note where
  | text (value : Text)
  | number (value : Nat)
deriving DecidableEq

/-- A document with a caret, marked spans and named notes.  A marker is known by its slot; the slot
of a released marker is free. -/
structure Editor where
  document : Document
  caret : Nat := 0
  markers : List (Option Span) := []
  notes : List (String × Note) := []
deriving DecidableEq

namespace Editor

/-- An editor over a text, with the caret at its start. -/
def ofText (text : Text) : Editor :=
  { document := { text } }

/-- The text of the document. -/
def text (e : Editor) : Text :=
  e.document.text

/-! ### The caret and edits -/

/-- Put the caret at an offset, moved back into the text and to the edge of a character. -/
def moveCaret (e : Editor) (offset : Nat) : Editor :=
  { e with caret := e.text.floorBoundary offset }

/-- Put a text in the place of a span, carrying the caret and the markers along. -/
def replace (e : Editor) (span : Span) (text : Text) : Except EditError Editor := do
  let document ← e.document.replace span text
  pure { e with
    document
    caret := span.carry text.size e.caret
    markers := e.markers.map (Option.map (span.carryMarker text.size)) }

/-- Insert a text at an offset. -/
def insert (e : Editor) (offset : Nat) (text : Text) : Except EditError Editor :=
  e.replace { start := offset, stop := offset } text

/-- Apply edits one after the other, up to the first that is refused. -/
def applyInTurn : List TextEdit → Editor → Editor × Except EditError Unit
  | [], e => (e, .ok ())
  | edit :: rest, e =>
    match e.replace edit.span edit.text with
    | .ok e' => applyInTurn rest e'
    | .error reason => (e, .error reason)

/-- Apply a batch of edits meant for the current text, up to the first that is refused. -/
def applyEdits (e : Editor) (edits : List TextEdit) : Editor × Except EditError Unit :=
  applyInTurn (TextEdit.inApplicationOrder edits) e

/-! ### Markers -/

/-- Mark a span.  The slot of the marker comes with the editor. -/
def mark (e : Editor) (span : Span) : Editor × Nat :=
  ({ e with markers := e.markers ++ [some span] }, e.markers.length)

/-- The span that the marker of a slot is on, unless the slot is free. -/
def marker? (e : Editor) (slot : Nat) : Option Span :=
  e.markers[slot]?.join

/-- Slots without the free ones at the end. -/
def dropFree : List (Option Span) → List (Option Span)
  | [] => []
  | slot :: rest =>
    match slot, dropFree rest with
    | none, [] => []
    | slot, rest => slot :: rest

/-- Free the slot of a marker.  Free slots at the end are dropped and will be used again. -/
def release (e : Editor) (slot : Nat) : Editor :=
  { e with markers := dropFree (e.markers.set slot none) }

/-! ### Notes -/

/-- The note kept under a name. -/
def note? (e : Editor) (name : String) : Option Note :=
  e.notes.lookup name

/-- Keep a note under a name, in place of any other. -/
def keepNote (e : Editor) (name : String) (note : Note) : Editor :=
  { e with notes := (name, note) :: e.notes.filter (·.1 ≠ name) }

/-- Forget the note under a name. -/
def forgetNote (e : Editor) (name : String) : Editor :=
  { e with notes := e.notes.filter (·.1 ≠ name) }

/-- The number kept under a name. -/
def number? (e : Editor) (name : String) : Option Nat :=
  match e.note? name with
  | some (.number value) => some value
  | _ => none

/-- The text kept under a name. -/
def text? (e : Editor) (name : String) : Option Text :=
  match e.note? name with
  | some (.text value) => some value
  | _ => none

end Editor

end StatementCompletion
