import StatementCompletion.Text

/-!
# Looking along the bytes of a text

Two searches that step over a set of bytes, one to the left and one to the right.  They are used to
skip the blanks around a caret; since blanks are single bytes, the byte found next to a run of them
is the edge of a character.
-/

namespace StatementCompletion.Text

/-- The bytes of the UTF-8 form. -/
def bytes (text : Text) : List UInt8 :=
  text.flatMap String.utf8EncodeChar

/-- The position of the last byte at or before `offset` that is no byte of `skipped`. -/
def lastByteOutside? (text : Text) (offset : Nat) (skipped : Text) : Option Nat :=
  let kept := (text.bytes.take (offset + 1)).reverse.dropWhile (skipped.bytes.contains ·)
  if kept.isEmpty then none else some (kept.length - 1)

/-- The position of the first byte at or after `offset` that is no byte of `skipped`; the end of
the text if there is none. -/
def firstByteOutside (text : Text) (offset : Nat) (skipped : Text) : Nat :=
  let start := min offset text.bytes.length
  start + ((text.bytes.drop start).takeWhile (skipped.bytes.contains ·)).length

/-- The two blanks. -/
def blanks : Text := [' ', '\t']

/-- The offset behind the last byte at or before `offset` that is not blank; zero if there is
none. -/
def endOfInk (text : Text) (offset : Nat) : Nat :=
  match text.lastByteOutside? offset blanks with
  | some last => last + 1
  | none => 0

/-- The size of a text is the number of its bytes. -/
theorem length_bytes (text : Text) : text.bytes.length = text.size := by
  induction text with
  | nil => rfl
  | cons c rest ih => simp_all [bytes, size]

end StatementCompletion.Text
