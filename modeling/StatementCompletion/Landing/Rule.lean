import StatementCompletion.Editor.Newline
import StatementCompletion.Landing.Comment
import StatementCompletion.Repair.Action

/-!
# Where the caret lands

Once nothing is left to mend, the caret goes where the user types on: behind the break in a comment,
on a new line behind a statement, behind the block that a jump leaves, or into a body.  Each of
these rules either handles the target or leaves it to the next one.
-/

namespace StatementCompletion.Landing

/-- What the rules follow. -/
structure Manner where
  style : CodeStyle
  comments : CommentStyle

/-- A way to place the caret. -/
inductive Rule where
  /-- Break the comment at the caret. -/
  | comment
  /-- Open a line behind a statement that ends with a semicolon. -/
  | afterSemicolon
  /-- Open a line behind a jump, or behind the block that it ends. -/
  | afterJump
  /-- Open a line in a body. -/
  | intoBody
deriving DecidableEq

/-- Open a new line at an offset. -/
def openLineAt (style : CodeStyle) (offset : Nat) (e : Editor) :
    Except EditError (Option Editor) := do
  let opened ← (e.moveCaret offset).breakLine style
  pure (some opened)

/-- Whether a new line follows the semicolon of a construct. -/
def endsLine (c : Cursor) : Bool :=
  match c.kind with
  | .expressionStatement | .declarationStatement | .doWhileStatement | .field => true
  | .method => (c.child? .codeBlock).isNone
  | _ => false

/-- Statements that leave their block. -/
def isJump : Kind → Bool
  | .returnStatement | .throwStatement | .breakStatement | .continueStatement => true
  | _ => false

/-- The offset behind the closing brace of a block that a statement is the last of. -/
def stopOfBlockEndedBy? (c : Cursor) : Option Nat := do
  let block ← c.parent?
  if block.kind = .codeBlock ∧ block.parentKind? = some .blockStatement then
    let last ← block.childrenFromEnd.find? (·.kind.isStatement)
    if last.offset = c.offset then
      (block.child? .rightBrace).map (·.stop)
    else
      none
  else
    none

/-- The brace that opens the body of a construct. -/
def openingOfBody? (c : Cursor) : Option Cursor :=
  match c.kind with
  | .classDeclaration => c.child? .leftBrace
  | .method | .initializer | .switchStatement | .tryStatement | .synchronizedStatement
  | .catchSection => (c.child? .codeBlock).bind (·.child? .leftBrace)
  | kind =>
    if kind.isControlStatement then do
      let block ← c.child? .blockStatement
      let block ← block.child? .codeBlock
      block.child? .leftBrace
    else
      none

namespace Rule

/-- The rules in the order in which they are tried. -/
def all : List Rule :=
  [.comment, .afterSemicolon, .afterJump, .intoBody]

/-- The word that identifies a rule. -/
def tag : Rule → String
  | .comment => "CommentBreaker"
  | .afterSemicolon => "AfterSemicolon"
  | .afterJump => "BreakingControlFlow"
  | .intoBody => "Plain"

/-- The rule that a word identifies. -/
def ofTag? (word : String) : Option Rule :=
  all.find? (·.tag = word)

/-- Place the caret for a target in the tree of the editor's text; nothing if the rule does not
handle it. -/
def apply (manner : Manner) (tree : Snapshot) (target : Cursor) (e : Editor) :
    Rule → Except EditError (Option Editor)
  | .comment => splitComment manner.comments tree e
  | .afterSemicolon =>
    if endsLine target && target.endsWithSemicolon then openLineAt manner.style target.stop e
    else .ok none
  | .afterJump =>
    if isJump target.kind && target.endsWithSemicolon then
      openLineAt manner.style ((stopOfBlockEndedBy? target).getD target.stop) e
    else
      .ok none
  | .intoBody =>
    match openingOfBody? target with
    | some brace => openLineAt manner.style brace.stop e
    | none => .ok none

/-- Let the first of some rules that handles a target place the caret. -/
def applyFirst (manner : Manner) (tree : Snapshot) (target : Cursor) (e : Editor) :
    List Rule → Except EditError (Option Editor)
  | [] => .ok none
  | rule :: rest => do
    match ← rule.apply manner tree target e with
    | some e => pure (some e)
    | none => applyFirst manner tree target e rest

end Rule

end StatementCompletion.Landing
