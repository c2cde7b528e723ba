import StatementCompletion.Editor
import StatementCompletion.Style
import StatementCompletion.Text.WhiteSpace

/-!
# Opening a new line

A new line starts with the indentation of the line it leaves, one level deeper if the text before
the caret ends in an opening brace.  A closing brace right behind the caret then goes to a line of
its own, back at the outer indentation.
-/

namespace StatementCompletion.Editor

/-- Break the line at the caret and indent the new line. -/
def breakLine (e : Editor) (style : CodeStyle) : Except EditError Editor := do
  let line := e.text.lineOf e.caret
  let before ← e.document.slice { start := e.text.lineStart line, stop := e.caret }
  let after ← e.document.slice { start := e.caret, stop := e.text.lineEnd line }
  let indent := e.text.lineIndent e.caret
  let opensBlock := before.trimEnd.getLast? = some '\x7b'
  let inner := if opensBlock then indent ++ style.indentUnit else indent
  let blanks := after.indentation
  let closing :=
    if opensBlock ∧ (after.drop blanks.length).head? = some '\x7d' then '\n' :: indent else []
  let broken ←
    e.replace { start := e.caret, stop := e.caret + blanks.size } ('\n' :: inner ++ closing)
  pure (broken.moveCaret (e.caret + 1 + inner.size))

/-- Go to the end of the caret's line and open a new line there. -/
def openLine (e : Editor) (style : CodeStyle) : Except EditError Editor :=
  (e.moveCaret (e.text.lineEnd (e.text.lineOf e.caret))).breakLine style

end StatementCompletion.Editor
