import StatementCompletion.Repair.Action

/-!
# Headers

A header is what stands in parentheses behind the keyword of a statement.  A condition without
parentheses is put into a pair of them, one whose closing parenthesis is missing gets it, and an
absent one leaves an empty pair with a hole.
-/

namespace StatementCompletion.Repair

/-- What can stand as a condition: an expression or a single operand. -/
def canBeCondition (kind : Kind) : Bool :=
  kind.isExpression || kind.isLiteral || kind = .identifier || kind = .thisKeyword
    || kind = .superKeyword

/-- What ends the header of a statement. -/
def endsHeader (kind : Kind) : Bool :=
  kind.isStatement || kind = .codeBlock || kind = .elseKeyword || kind = .semicolon

/-- The children of a statement from behind its keyword up to the end of its header. -/
def headerParts (c keyword : Cursor) : List Cursor :=
  ((c.childrenAfter keyword.index).takeWhile (!endsHeader ·.kind)).filter (!·.kind.isTrivia)

/-- Put an empty pair of parentheses with a hole behind a keyword. -/
def emptyHeader (keyword : Cursor) : List Action :=
  [.insert keyword.stop ['(', ')'], .hole (keyword.stop + 1)]

/-- Complete an opened header: record the holes of what it holds, or one if it holds nothing, and
close it behind that. -/
def closeParentheses (opened : Cursor) (held : Option Cursor) (isClosed : Bool) : List Action :=
  let holes :=
    match held with
    | some held => Action.recordBelow held
    | none => [.hole opened.stop]
  let closing :=
    if isClosed then []
    else [.insert (match held with | some held => held.stop | none => opened.stop) [')']]
  holes ++ closing

/-- Complete the header behind a keyword in statements of a kind. -/
def completeHeader (statement keyword : Kind) (c : Cursor) : List Action :=
  if c.kind = statement then
    match c.child? keyword with
    | none => []
    | some keyword =>
      let parts := headerParts c keyword
      let condition := parts.find? (canBeCondition ·.kind)
      match parts.find? (·.kind = .leftParen), condition with
      | some opened, condition =>
        closeParentheses opened condition (parts.any (·.kind = .rightParen))
      | none, some condition =>
        [.replace { span := condition.span, text := '(' :: condition.node.text ++ [')'] }]
      | none, none => emptyHeader keyword
  else
    []

/-- What closes a `do` loop, up to the hole of its condition. -/
def doWhileTail : Text :=
  " while ()".toList

/-- Complete the condition of a `do` loop, or add it behind the body. -/
def completeDoWhile (c : Cursor) : List Action :=
  if c.kind = .doWhileStatement then
    if (c.child? .whileKeyword).isSome then
      completeHeader .doWhileStatement .whileKeyword c
    else
      match c.children.find? (·.kind.isStatement) with
      | some body =>
        [.insert body.stop doWhileTail, .hole (body.stop + doWhileTail.size - 1)]
      | none => []
  else
    []

/-- Complete the parameter of a `catch`. -/
def completeCatch (c : Cursor) : List Action :=
  if c.kind = .catchSection then
    match c.child? .catchKeyword, c.child? .leftParen with
    | some _, some opened =>
      closeParentheses opened (c.child? .parameter) (c.child? .rightParen).isSome
    | some keyword, none => emptyHeader keyword
    | none, _ => []
  else
    []

end StatementCompletion.Repair
