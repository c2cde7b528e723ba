import StatementCompletion.Text

/-!
# Lines

A line ends at a line feed, a carriage return, the pair of the two, a vertical tab, a form feed, a
next-line character or one of the two Unicode separators.  `lines` cuts a text after each of these
breaks and keeps the break with the line it ends, so the lines of a text join to the text again and
there is always one line more than there are breaks.
-/

namespace StatementCompletion.Text

/-! ## The lines of a text -/

/-- A character that ends a line. -/
def isBreak (c : Char) : Bool :=
  c = '\n' || c = '\r' || c = '\x0b' || c = '\x0c' || c = '\u0085' || c = '\u2028' || c = '\u2029'

/-- The lines of a text, each with the break that ends it. -/
def lines : Text → List Text
  | [] => [[]]
  | '\r' :: '\n' :: rest => ['\r', '\n'] :: lines rest
  | c :: rest =>
    if isBreak c then
      [c] :: lines rest
    else
      match lines rest with
      | [] => [[c]]
      | line :: more => (c :: line) :: more

/-- The number of lines; the empty text has one. -/
def lineCount (text : Text) : Nat :=
  text.lines.length

/-- The offset where a line starts; the end of the text for a line that does not exist. -/
def lineStart (text : Text) (line : Nat) : Nat :=
  size (text.lines.take line).flatten

/-- The index, among lines of the given texts, of the line that holds an offset.  An offset past
the end belongs to the last line. -/
def indexOfLine : List Text → Nat → Nat
  | [], _ => 0
  | [_], _ => 0
  | line :: more, offset =>
    if offset < size line then 0 else indexOfLine more (offset - size line) + 1

/-- The line that holds an offset. -/
def lineOf (text : Text) (offset : Nat) : Nat :=
  indexOfLine text.lines offset

/-- A text without the line feeds and carriage returns at its end. -/
def dropReturns (line : Text) : Text :=
  (line.reverse.dropWhile fun c => c = '\n' || c = '\r').reverse

/-- The offset where a line ends: in front of its line feed, carriage return or pair of the two,
but behind any other break. -/
def lineEnd (text : Text) (line : Nat) : Nat :=
  text.lineStart line + size (dropReturns (text.lines[line]?.getD []))

/-- The spaces and tabs at the start of the line that holds an offset. -/
def lineIndent (text : Text) (offset : Nat) : Text :=
  indentation (text.lines[text.lineOf offset]?.getD [])

/-! ## Small laws -/

/-- The lines of a text join to the text. -/
theorem flatten_lines (text : Text) : text.lines.flatten = text := by
  fun_induction lines text with
  | case1 => rfl
  | case2 rest ih => simp [ih]
  | case3 c rest _ _ ih => simp [ih]
  | case4 c rest _ _ h ih => simp_all
  | case5 c rest _ _ line more h ih =>
    rw [h] at ih
    simp only [List.flatten_cons] at ih ⊢
    simp [ih]

end StatementCompletion.Text
