import StatementCompletion.Editor
import StatementCompletion.Style.Comments
import StatementCompletion.Text.Bytes
import StatementCompletion.Tree.Snapshot

/-!
# Breaking a comment

A caret between the tokens that open and close a comment breaks it in two lines, of which the second
is indented and starts with what continues a comment of its sort.  The blanks around the caret are
dropped.
-/

namespace StatementCompletion.Landing

/-- Where a comment may be broken, and what its next line starts with. -/
structure CommentInside where
  span : Span
  continuation : Text

/-- The layout of a comment between the tokens of a style. -/
def insideOfComment? (comments : CommentStyle) (c : Cursor) : Option CommentInside :=
  let text := c.node.ownText
  match c.kind with
  | .lineComment => do
    let opener ← comments.line.filter (·.isPrefixOf text)
    let continuation ← comments.lineContinuation
    pure { span := { start := c.offset + opener.size, stop := c.stop }, continuation }
  | .blockComment => do
    let opener ← comments.blockStart.filter (·.isPrefixOf text)
    let closer ← comments.blockEnd
    let continuation ← comments.blockContinuation
    let isClosed := opener.size + closer.size ≤ text.size && closer.isSuffixOf text
    let stop := if isClosed then c.stop - closer.size else c.stop
    pure { span := { start := c.offset + opener.size, stop }, continuation }
  | _ => none

/-- The comment that a caret is in or right behind. -/
def commentAt? (tree : Snapshot) (caret : Nat) : Option Cursor :=
  let positions := if caret = 0 then [caret] else [caret, caret - 1]
  (positions.filterMap tree.cursor.leafAt?).find? (·.kind.isComment)

/-- Break the comment at the caret; nothing if there is none that can be broken there.  The blanks
in front of the caret are looked for from the byte before it, and there is one where a token of a
character or more opens the comment.  With an empty `blockStart` a comment can be broken at a caret
of zero, where `e.caret - 1` is zero again and not an offset before the text: of that one case
nothing is meant to be said. -/
def splitComment (comments : CommentStyle) (tree : Snapshot) (e : Editor) :
    Except EditError (Option Editor) :=
  let layout? := do
    let comment ← commentAt? tree e.caret
    let layout ← insideOfComment? comments comment
    pure (comment, layout)
  match layout? with
  | none => .ok none
  | some (comment, layout) =>
    if e.caret < layout.span.start ∨ layout.span.stop < e.caret then
      .ok none
    else do
      let start := max (e.text.endOfInk (e.caret - 1)) layout.span.start
      let stop := min (e.text.firstByteOutside e.caret Text.blanks) layout.span.stop
      let indent :=
        if comment.kind = .blockComment then e.text.lineIndent comment.offset
        else e.text.lineIndent e.caret
      let opening : Text := '\n' :: indent ++ layout.continuation
      let broken ← e.replace { start, stop := max stop start } opening
      pure (some (broken.moveCaret (start + opening.size)))

end StatementCompletion.Landing
