import StatementCompletion.Repair.Action
import StatementCompletion.Text.Lines

/-!
# Bodies

A construct whose header is complete needs a body.  A statement without braces on a later line that
is not indented deeper than the header reads as the next statement, so the body counts as missing
and an empty block is put behind the header.  A deeper one is taken for the body and put in braces.

A loop whose header is still open gets what closes the header together with the body.
-/

namespace StatementCompletion.Repair

/-! ## Which statement is the body -/

/-- The number of spaces and tabs that the line at an offset starts with. -/
def indentWidth (text : Text) (offset : Nat) : Nat :=
  (text.lineIndent offset).size

/-- Whether one offset is on a later line than another. -/
def isOnLaterLine (text : Text) (offset other : Nat) : Bool :=
  text.lineOf other < text.lineOf offset

/-- Whether a statement behind a header reads as the next statement. -/
def readsAsNext (text : Text) (headerStop : Nat) (body : Cursor) : Bool :=
  body.kind ≠ .blockStatement
    && isOnLaterLine text body.offset headerStop
    && indentWidth text body.offset ≤ indentWidth text headerStop

/-- Whether a header has no statement behind it that is its body. -/
def lacksBody (text : Text) (headerStop : Nat) (body : Option Cursor) : Bool :=
  body.all (readsAsNext text headerStop)

/-- The statement between the closing parenthesis of an `if` and its `else`. -/
def thenBranch? (c closed : Cursor) : Option Cursor :=
  ((c.childrenAfter closed.index).takeWhile (·.kind ≠ .elseKeyword)).find? (·.kind.isStatement)

/-- The statement that is the body behind the closing parenthesis of a header. -/
def body? (c closed : Cursor) : Option Cursor :=
  if c.kind = .ifStatement then thenBranch? c closed else c.statementBehind? closed

/-! ## Braces around a body -/

/-- Statements whose body may stand without braces. -/
def ownsUnbracedBody : Kind → Bool
  | .ifStatement | .whileStatement | .forStatement | .foreachStatement => true
  | _ => false

/-- Put a body without braces that starts on a later line into braces; if there is an error in it,
record a hole instead. -/
def braceBody (d : Document) (c : Cursor) : Except EditError (List Action) :=
  if ownsUnbracedBody c.kind then
    match c.child? .rightParen with
    | none => .ok []
    | some closed =>
      match body? c closed with
      | none => .ok []
      | some body =>
        if body.kind = .blockStatement ∨ d.text.lineOf body.offset = d.text.lineOf closed.stop
            ∨ readsAsNext d.text closed.stop body then
          .ok []
        else do
          let gap ← d.slice { start := closed.stop, stop := body.offset }
          if body.node.isErroneous then
            pure [.hole body.offset]
          else
            let braced := '\x7b' :: gap ++ body.node.text ++ ['\n', '\x7d']
            pure [.replace { span := { start := closed.stop, stop := body.stop }, text := braced }]
  else
    .ok []

/-! ## Branches -/

/-- Add the branch of an `if` that is missing. -/
def addBranch (text : Text) (c : Cursor) : List Action :=
  if c.kind = .ifStatement then
    match c.child? .rightParen with
    | none => []
    | some closed =>
      if lacksBody text closed.stop (thenBranch? c closed) then
        Action.openBlock closed.stop
      else
        match c.child? .elseKeyword with
        | some keyword =>
          if (c.statementBehind? keyword).isNone then Action.openBlock keyword.stop else []
        | none => []
  else
    []

/-! ## Loops -/

/-- What the parser took for the body of a loop whose header is open: a block, or a statement on a
later line than the parenthesis. -/
def bodyOfOpenHeader? (text : Text) (c opened : Cursor) : Option Cursor :=
  (c.childrenAfter opened.index).find? fun child =>
    child.kind = .blockStatement
      || (child.kind.isStatement && isOnLaterLine text child.offset opened.offset)

/-- Where an open header ends: behind its last part in front of the body. -/
def openHeaderStop (c opened : Cursor) (body : Option Cursor) : Nat :=
  let parts :=
    (c.parts.filter (opened.index ≤ ·.index)).takeWhile fun child =>
      body.all (child.index < ·.index)
  match parts.getLast? with
  | some part => part.stop
  | none => opened.stop

/-- Close an open header, together with an empty block unless a body is there. -/
def finishHeader (text : Text) (c opened : Cursor) (body : Option Cursor) (closer : Text) :
    List Action :=
  let stop := openHeaderStop c opened body
  if body.any fun body => body.kind = .codeBlock || !readsAsNext text stop body then
    [.insert stop closer]
  else
    [.insert stop (closer ++ ['\x7b', '\x7d']), .caret (stop + closer.size)]

/-- Add the body of a loop whose header is closed. -/
def addLoopBody (text : Text) (c closed : Cursor) : List Action :=
  if lacksBody text closed.stop (c.statementBehind? closed) then
    Action.openBlock closed.stop
  else
    []

/-- Add the body of a `while`. -/
def addWhileBody (text : Text) (c : Cursor) : List Action :=
  if c.kind = .whileStatement then
    match c.child? .rightParen with
    | some closed => addLoopBody text c closed
    | none => []
  else
    []

/-- Close the header of a loop over elements, or add its body. -/
def completeForeach (text : Text) (c : Cursor) : List Action :=
  if c.kind = .foreachStatement then
    match c.child? .rightParen, c.child? .leftParen with
    | some closed, _ => addLoopBody text c closed
    | none, some opened => finishHeader text c opened (bodyOfOpenHeader? text c opened) [')']
    | none, none => []
  else
    []

/-- The number of semicolons in the header of a counting loop. -/
def separatorCount (c : Cursor) : Nat :=
  ((c.children.find? (·.kind.isStatement)).any (·.endsWithSemicolon)).toNat
    + c.children.countP (·.kind = .semicolon)

/-- Close the header of a counting loop with the semicolons it lacks, or add its body. -/
def completeFor (text : Text) (c : Cursor) : List Action :=
  if c.kind = .forStatement then
    match c.child? .leftParen, c.child? .rightParen with
    | none, _ => []
    | some _, some closed => addLoopBody text c closed
    | some opened, none =>
      finishHeader text c opened (bodyOfOpenHeader? text c opened)
        (List.replicate (2 - separatorCount c) ';' ++ [')'])
  else
    []

/-! ## Blocks -/

/-- Add the block of a construct of a kind behind its closed header. -/
def addBlock (kind : Kind) (c : Cursor) : List Action :=
  if c.kind = kind ∧ (c.child? .codeBlock).isNone then
    match c.lastChild? .rightParen with
    | some closed => Action.openBlock closed.stop
    | none => []
  else
    []

/-- Record the holes of a `synchronized`, close its lock and add its block. -/
def completeSynchronized (text : Text) (c : Cursor) : List Action :=
  if c.kind = .synchronizedStatement then
    match c.child? .leftParen with
    | none => []
    | some opened =>
      Action.recordBelow c ++
        if (c.child? .rightParen).isNone then
          finishHeader text c opened (c.child? .codeBlock) [')']
        else
          addBlock .synchronizedStatement c
  else
    []

/-- Add the body of a method, unless it has none on purpose. -/
def addMethodBody (c : Cursor) : List Action :=
  if c.kind = .method ∧ (c.child? .codeBlock).isNone ∧ (c.child? .semicolon).isNone
      ∧ ¬ c.isBodiless
      ∧ (c.child? .parameterList).any fun list => (list.child? .rightParen).isSome then
    Action.openBlock c.partsStop
  else
    []

end StatementCompletion.Repair
