import StatementCompletion.Grammar.TypeReference

/-!
# Expressions

Assignments bind weakest and to the right, then the conditional, then the binary operators by
precedence and to the left, then the operators in front of an operand, and the accesses, calls and
steps behind one.  An operand that is missing is marked and the expression goes on.
-/

namespace StatementCompletion.Grammar

/-! ## What begins an expression -/

/-- What an expression begins with. -/
def startsExpression : Kind → Bool
  | .identifier | .thisKeyword | .superKeyword | .primitiveType | .leftParen | .newKeyword | .plus
  | .minus | .logicalNot | .bitNot | .increment | .decrement => true
  | kind => kind.isLiteral

/-- An operator in front of an operand. -/
def isUnaryOperator : Kind → Bool
  | .plus | .minus | .logicalNot | .bitNot | .increment | .decrement => true
  | _ => false

/-- The precedence of an operator between two operands; the larger binds tighter. -/
def precedence? : Kind → Option Nat
  | .logicalOr => some 1
  | .logicalAnd => some 2
  | .bitOr => some 3
  | .bitXor => some 4
  | .bitAnd => some 5
  | .equal | .notEqual => some 6
  | .less | .greater | .lessEqual | .greaterEqual | .instanceofKeyword => some 7
  | .plus | .minus => some 8
  | .star | .slash | .percent => some 9
  | _ => none

/-! ## Lists -/

/-- The arguments of a call, from the parenthesis on. -/
def argumentList (inner : Inner) : Parser Unit := do
  let opening ← marker
  take
  unlessAt .rightParen (orMissing (separated .comma (inner .expression)) .expression)
  discard (expect .rightParen)
  wrap opening .argumentList

/-- One element of an array: an expression, or elements in braces. -/
def arrayElement (inner : Inner) : Parser Bool := do
  if ← isAt .rightBrace then
    return false
  else if ← isAt .leftBrace then
    inner .arrayInitializer
  else
    inner .expression

/-- The elements of an array, from the brace on. -/
def arrayInitializer (inner : Inner) : Parser Unit := do
  let opening ← marker
  take
  discard (separated .comma (arrayElement inner))
  discard (expect .rightBrace)
  wrap opening .arrayInitializer

/-- Class members in braces, from the brace on. -/
def memberBlock (inner : Inner) : Parser Unit := do
  take
  itemsUpToBrace (discard (inner .member))

/-! ## Operands -/

/-- One dimension of a new array: a length in square brackets, or empty ones. -/
def arrayLength (inner : Inner) : Parser Bool := do
  if ← takeIf .leftBracket then
    unlessAt .rightBracket (orMissing (inner .expression) .expression)
    discard (expect .rightBracket)
    return true
  else
    return false

/-- The name of the type behind `new`. -/
def createdName (inner : Inner) : Parser Unit := do
  match ← current with
  | .primitiveType => take
  | .identifier => className inner
  | _ => missing (.construct .typeReference)

/-- The type behind `new`. -/
def createdType (inner : Inner) : Parser Unit := do
  let opening ← marker
  createdName inner
  if (← marker) ≠ opening then
    wrap opening .typeReference

/-- What follows the type behind `new`: the arguments and the members of an object, or the lengths
and the elements of an array. -/
def createdParts (inner : Inner) : Parser Unit := do
  if ← isAt .leftParen then
    argumentList inner
    whenAt .leftBrace (memberBlock inner)
  else if ← isAt .leftBracket then
    loop (arrayLength inner)
    whenAt .leftBrace (arrayInitializer inner)
  else
    missing (.construct .leftParen)

/-- An object or an array that is created, from `new` on. -/
def newExpression (inner : Inner) : Parser Unit := do
  let opening ← marker
  take
  createdType inner
  createdParts inner
  wrap opening .newExpression

/-- What tells a cast from an expression in parentheses: the start of an operand, but no sign that
could be an operator between two operands. -/
def startsCastOperand : Kind → Bool
  | .identifier | .leftParen | .thisKeyword | .superKeyword | .newKeyword | .logicalNot
  | .bitNot => true
  | kind => kind.isLiteral

/-- Whether a parenthesis opens a cast. -/
def isCast (inner : Inner) : Parser Bool :=
  lookAhead do
    take
    if ← typeReference inner then
      if ← takeIf .rightParen then
        isAtAny startsCastOperand
      else
        return false
    else
      return false

/-- A cast and its operand, from the parenthesis on. -/
def typeCast (inner : Inner) : Parser Unit := do
  let opening ← marker
  take
  discard (typeReference inner)
  discard (expect .rightParen)
  orMissing (inner .unary) .expression
  wrap opening .typeCast

/-- An expression in parentheses, from the parenthesis on. -/
def parenthesized (inner : Inner) : Parser Unit := do
  let opening ← marker
  take
  orMissing (inner .expression) .expression
  discard (expect .rightParen)
  wrap opening .parenthesized

/-- A cast or an expression in parentheses, from the parenthesis on. -/
def castOrParenthesized (inner : Inner) : Parser Unit := do
  if ← isCast inner then
    typeCast inner
  else
    parenthesized inner

/-- An operand without what may stand in front of it and behind it. -/
def primary (inner : Inner) : Parser Bool := do
  match ← current with
  | .numberLiteral | .stringLiteral | .charLiteral | .boolLiteral | .nullLiteral | .identifier
  | .thisKeyword | .superKeyword =>
    take
    return true
  | .primitiveType =>
    discard (typeReference inner)
    return true
  | .leftParen =>
    castOrParenthesized inner
    return true
  | .newKeyword =>
    newExpression inner
    return true
  | _ => return false

/-- What may stand behind the dot of an access. -/
def accessedName : Parser Unit := do
  if (← isAt .identifier) || (← isAt .classKeyword) || (← isAt .thisKeyword) then
    take
  else
    missing (.construct .identifier)

/-- One access, call or step behind the operand that begins at a marker. -/
def trailer (inner : Inner) (opening : Nat) : Parser Bool := do
  match ← current with
  | .dot =>
    take
    accessedName
    wrap opening .fieldAccess
    return true
  | .leftParen =>
    argumentList inner
    wrap opening .methodCall
    return true
  | .leftBracket =>
    take
    orMissing (inner .expression) .expression
    discard (expect .rightBracket)
    wrap opening .arrayAccess
    return true
  | .increment | .decrement =>
    take
    wrap opening .postfixExpression
    return true
  | _ => return false

/-- An operand with all that stands behind it. -/
def operand (inner : Inner) : Parser Bool := do
  let opening ← marker
  if ← primary inner then
    loop (trailer inner opening)
    return true
  else
    return false

/-! ## Operators -/

/-- An operand with the operators in front of it. -/
def unary (inner : Inner) : Parser Bool := do
  if ← isAtAny isUnaryOperator then
    let opening ← marker
    take
    orMissing (inner .unary) .expression
    wrap opening .unaryExpression
    return true
  else
    operand inner

/-- One operator of at least a precedence and its right operand, behind the left operand that
begins at a marker.  The right operand takes only operators that bind tighter; that of
`instanceof` is a type. -/
def operatorStep (inner : Inner) (least opening : Nat) : Parser Bool := do
  let kind ← current
  match precedence? kind with
  | none => return false
  | some precedence =>
    if precedence < least then
      return false
    else if kind = .instanceofKeyword then
      take
      orMissing (typeReference inner) (.construct .typeReference)
      wrap opening .instanceofExpression
      return true
    else
      take
      orMissing (inner (.operation (precedence + 1))) .expression
      wrap opening .binaryExpression
      return true

/-- Operators of at least a precedence and their operands. -/
def operation (inner : Inner) (least : Nat) : Parser Bool := do
  let opening ← marker
  if ← unary inner then
    loop (operatorStep inner least opening)
    return true
  else
    return false

/-- The two choices of the condition that begins at a marker, behind the question mark. -/
def choices (inner : Inner) (opening : Nat) : Parser Unit := do
  orMissing (inner .expression) .expression
  discard (expect .colon)
  orMissing (inner .conditional) .expression
  wrap opening .conditionalExpression

/-- A condition with its two choices, or an operation. -/
def conditional (inner : Inner) : Parser Bool := do
  let opening ← marker
  if ← operation inner 0 then
    whenTaken .question (choices inner opening)
    return true
  else
    return false

/-- The value of an assignment, behind the `=`. -/
def assignedValue (inner : Inner) : Parser Unit := do
  if ← isAt .leftBrace then
    arrayInitializer inner
  else
    orMissing (inner .expression) .expression

/-- What is assigned, if anything, to the operand that begins at a marker. -/
def assignmentRest (inner : Inner) (opening : Nat) : Parser Unit := do
  if (← isAt .assign) || (← isAt .compoundAssign) then
    take
    assignedValue inner
    wrap opening .assignment

/-- An assignment, or anything that binds tighter. -/
def expression (inner : Inner) : Parser Bool := do
  let opening ← marker
  if ← conditional inner then
    assignmentRest inner opening
    return true
  else
    return false

end StatementCompletion.Grammar
