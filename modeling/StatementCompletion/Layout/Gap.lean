import StatementCompletion.Document.Edit
import StatementCompletion.Layout.Depth
import StatementCompletion.Style
import StatementCompletion.Tree.Snapshot

/-!
# Laying out the gaps between tokens

Laying out changes nothing but the white space between one token and the next.  A gap with line
feeds keeps as many as the style allows and indents the line it opens.  A gap on one line gets a
space in a few places where there is none, and an empty block may be opened over two lines.
-/

namespace StatementCompletion.Layout

/-- Two neighbouring tokens and the white space between them. -/
structure Gap where
  before : Cursor
  text : Text
  after : Cursor

namespace Gap

/-- The gaps between leaves in a row, of which the last token before them and the white space since
then are given. -/
def between (before : Cursor) (blank : Text) : List Cursor → List Gap
  | [] => []
  | leaf :: rest =>
    if leaf.kind = .whitespace then
      between before (blank ++ leaf.node.ownText) rest
    else
      { before, text := blank, after := leaf } :: between leaf [] rest

/-- The gaps between leaves in a row. -/
def ofLeaves (leaves : List Cursor) : List Gap :=
  match leaves.dropWhile (·.kind = .whitespace) with
  | [] => []
  | first :: rest => between first [] rest

/-- The span of the white space. -/
def span (g : Gap) : Span :=
  { start := g.before.stop, stop := g.after.offset }

/-- Whether a span reaches the gap. -/
def isReached (g : Gap) (span : Span) : Bool :=
  g.before.stop ≤ span.stop && span.start ≤ g.after.offset

/-- Whether the gap is all there is inside the braces of a block. -/
def isInsideEmptyBlock (g : Gap) : Bool :=
  g.before.kind = .leftBrace && g.after.kind = .rightBrace
    && match g.before.parent?, g.after.parent? with
      | some opened, some closed => opened.kind = .codeBlock && opened.span = closed.span
      | _, _ => false

/-- Whether two tokens of these kinds on one line have a space between them. -/
def isSpaced : Kind → Kind → Bool
  | .leftParen, .leftBrace => false
  | .leftBrace, .leftBrace => false
  | .leftBracket, .leftBrace => false
  | _, .leftBrace => true
  | .ifKeyword, .leftParen => true
  | .whileKeyword, .leftParen => true
  | .forKeyword, .leftParen => true
  | .switchKeyword, .leftParen => true
  | .catchKeyword, .leftParen => true
  | .synchronizedKeyword, .leftParen => true
  | .rightBrace, .elseKeyword => true
  | .rightBrace, .catchKeyword => true
  | .rightBrace, .finallyKeyword => true
  | .rightBrace, .whileKeyword => true
  | _, _ => false

/-- The white space that belongs into the gap. -/
def wanted (g : Gap) (style : CodeStyle) : Text :=
  let newlines := g.text.count '\n'
  if 0 < newlines then
    List.replicate (min newlines (style.keepBlankLines + 1)) '\n' ++ style.indent (depth g.after)
  else if !style.keepSimpleBlocks && g.isInsideEmptyBlock then
    '\n' :: style.indent (depth g.after)
  else if isSpaced g.before.kind g.after.kind && g.text.isEmpty then
    [' ']
  else
    g.text

/-- The edit that puts the wanted white space into the gap, if it is not there already. -/
def edit? (g : Gap) (style : CodeStyle) : Option TextEdit :=
  if g.wanted style = g.text then none else some { span := g.span, text := g.wanted style }

end Gap

/-- The edits that lay out the gaps a span reaches. -/
def edits (tree : Snapshot) (span : Span) (style : CodeStyle) : List TextEdit :=
  (Gap.ofLeaves tree.cursor.leaves).filterMap fun gap =>
    if gap.isReached span then gap.edit? style else none

end StatementCompletion.Layout
