import StatementCompletion.Grammar.Expression

/-!
# Declarations of variables, and statements

A statement is told by its first token; a type followed by a name begins a declaration, and what
else can begin an expression begins an expression statement.  A part that is missing is marked, and
a token that fits nowhere is left to the block around it.
-/

namespace StatementCompletion.Grammar

/-! ## Modifiers and variables -/

/-- One modifier, or one at sign with its name and arguments. -/
def modifier (inner : Inner) : Parser Bool := do
  match ← current with
  | .modifier | .synchronizedKeyword =>
    take
    return true
  | .atSign =>
    take
    discard (expect .identifier)
    loop dottedName
    whenAt .leftParen (argumentList inner)
    return true
  | _ => return false

/-- The modifiers in front of a declaration; nothing if there are none. -/
def modifiers (inner : Inner) : Parser Unit := do
  let opening ← marker
  loop (modifier inner)
  if (← marker) ≠ opening then
    wrap opening .modifierList

/-- The value of a variable, behind the `=`. -/
def initialValue (inner : Inner) : Parser Unit := do
  if ← isAt .leftBrace then
    arrayInitializer inner
  else
    orMissing (expression inner) .expression

/-- The square brackets and the value behind the name of a variable. -/
def variableRest (inner : Inner) : Parser Unit := do
  loop dimension
  whenTaken .assign (initialValue inner)

/-- Another variable of the same declaration, from the comma on. -/
def nextVariable (inner : Inner) : Parser Bool := do
  if ← takeIf .comma then
    let opening ← marker
    discard (expect .identifier)
    variableRest inner
    wrap opening .localVariable
    return true
  else
    return false

/-- A declaration of variables whose modifiers, begun at a marker, are already read. -/
def variableDeclaration (inner : Inner) (opening : Nat) : Parser Unit := do
  orMissing (typeReference inner) (.construct .typeReference)
  discard (expect .identifier)
  variableRest inner
  wrap opening .localVariable
  loop (nextVariable inner)
  discard (expect .semicolon)
  wrap opening .declarationStatement

/-- A type of several, behind a bar. -/
def alternativeType (inner : Inner) : Parser Bool := do
  if ← takeIf .bitOr then
    discard (typeReference inner)
    return true
  else
    return false

/-- The type and the name of a parameter. -/
def parameterRest (inner : Inner) : Parser Unit := do
  if ← typeReference inner then
    loop (alternativeType inner)
    loop (takeIf .dot)
    discard (expect .identifier)
    loop dimension
  else
    missing (.construct .typeReference)

/-- What a parameter begins with. -/
def startsParameter (kind : Kind) : Bool :=
  startsType kind || kind = .modifier || kind = .atSign

/-- A parameter, if one begins here. -/
def parameter (inner : Inner) : Parser Bool := do
  if ← isAtAny startsParameter then
    let opening ← marker
    modifiers inner
    parameterRest inner
    wrap opening .parameter
    return true
  else
    return false

/-! ## Blocks and bodies -/

/-- Statements in braces, from the brace on. -/
def codeBlock (inner : Inner) : Parser Unit := do
  let opening ← marker
  take
  itemsUpToBrace (discard (inner .statement))
  wrap opening .codeBlock

/-- Statements in braces. -/
def requiredBlock (inner : Inner) (wanted : Wanted) : Parser Unit := do
  if ← isAt .leftBrace then
    codeBlock inner
  else
    missing wanted

/-- What the body of a statement begins with. -/
def startsStatement : Kind → Bool
  | .leftBrace | .ifKeyword | .whileKeyword | .doKeyword | .forKeyword | .switchKeyword
  | .tryKeyword | .synchronizedKeyword | .returnKeyword | .throwKeyword | .breakKeyword
  | .continueKeyword | .semicolon | .modifier | .classKeyword | .interfaceKeyword
  | .enumKeyword => true
  | kind => startsExpression kind

/-- The body of a statement. -/
def body (inner : Inner) : Parser Unit := do
  if ← isAtAny startsStatement then
    discard (inner .statement)
  else
    missing .statement

/-- A condition in parentheses.  Without them, an expression on the same line is taken for it. -/
def condition (inner : Inner) : Parser Unit := do
  if ← takeIf .leftParen then
    orMissing (expression inner) .expression
    discard (expect .rightParen)
  else
    missing (.construct .leftParen)
    if !(← isOnNewLine) && (← isAtAny startsExpression) then
      discard (expression inner)

/-! ## Branches and loops -/

/-- The statement `if`, from its keyword on. -/
def ifStatement (inner : Inner) (opening : Nat) : Parser Unit := do
  take
  condition inner
  body inner
  whenTaken .elseKeyword (body inner)
  wrap opening .ifStatement

/-- The loop `while`, from its keyword on. -/
def whileStatement (inner : Inner) (opening : Nat) : Parser Unit := do
  take
  condition inner
  body inner
  wrap opening .whileStatement

/-- The condition behind the body of a `do`. -/
def doWhileCondition (inner : Inner) : Parser Unit := do
  if ← takeIf .whileKeyword then
    condition inner
  else
    missing (.construct .whileKeyword)

/-- The loop `do`, from its keyword on. -/
def doWhileStatement (inner : Inner) (opening : Nat) : Parser Unit := do
  take
  body inner
  doWhileCondition inner
  discard (expect .semicolon)
  wrap opening .doWhileStatement

/-- Whether a variable and a colon follow, as in the header of a loop over elements. -/
def isElementLoop (inner : Inner) : Parser Bool :=
  lookAhead do
    modifiers inner
    if ← typeReference inner then
      if ← takeIf .identifier then
        isAt .colon
      else
        return false
    else
      return false

/-- Another expression, from the comma on. -/
def nextExpression (inner : Inner) : Parser Bool := do
  if ← takeIf .comma then
    discard (expression inner)
    return true
  else
    return false

/-- The first part of the header of a counting loop, with its semicolon. -/
def forInitializer (inner : Inner) : Parser Unit := do
  let opening ← marker
  if ← isAt .semicolon then
    take
    wrap opening .emptyStatement
  else if (← isAt .modifier) || (← isVariableDeclaration inner) then
    modifiers inner
    variableDeclaration inner opening
  else if ← isAtAny startsExpression then
    discard (expression inner)
    loop (nextExpression inner)
    discard (expect .semicolon)
    wrap opening .expressionStatement
  else
    missing (.construct .semicolon)

/-- The last part of the header of a counting loop. -/
def forUpdate (inner : Inner) : Parser Unit := do
  if ← isAtAny startsExpression then
    let opening ← marker
    discard (expression inner)
    loop (nextExpression inner)
    wrap opening .expressionStatement

/-- A loop over elements, from its variable on. -/
def foreachRest (inner : Inner) (opening : Nat) : Parser Unit := do
  discard (parameter inner)
  take
  orMissing (expression inner) .expression
  discard (expect .rightParen)
  body inner
  wrap opening .foreachStatement

/-- A counting loop, from the first part of its header on. -/
def forRest (inner : Inner) (opening : Nat) : Parser Unit := do
  forInitializer inner
  whenAtAny startsExpression (discard (expression inner))
  discard (expect .semicolon)
  forUpdate inner
  discard (expect .rightParen)
  body inner
  wrap opening .forStatement

/-- A loop `for`, from its keyword on. -/
def forStatement (inner : Inner) (opening : Nat) : Parser Unit := do
  take
  if ← takeIf .leftParen then
    if ← isElementLoop inner then
      foreachRest inner opening
    else
      forRest inner opening
  else
    missing (.construct .leftParen)
    wrap opening .forStatement

/-! ## Switches, handlers and jumps -/

/-- The statement `switch`, from its keyword on. -/
def switchStatement (inner : Inner) (opening : Nat) : Parser Unit := do
  take
  condition inner
  requiredBlock inner .switchBody
  wrap opening .switchStatement

/-- The keyword of a label and the values behind a `case`. -/
def labelValues (inner : Inner) : Parser Unit := do
  if ← takeIf .caseKeyword then
    orMissing (expression inner) .expression
    loop (nextExpression inner)
  else
    take

/-- The colon or the arrow of a label. -/
def labelEnd : Parser Unit := do
  if (← isAt .colon) || (← isAt .arrow) then
    take
  else
    missing (.construct .colon)

/-- A label of a switch, from its keyword on. -/
def switchLabel (inner : Inner) (opening : Nat) : Parser Unit := do
  labelValues inner
  labelEnd
  wrap opening .switchLabel

/-- One resource of a `try`: a variable with its value, or an expression. -/
def resource (inner : Inner) : Parser Unit := do
  let opening ← marker
  if ← isVariableDeclaration inner then
    discard (typeReference inner)
    take
    whenTaken .assign (orMissing (expression inner) .expression)
    wrap opening .localVariable
  else
    discard (expression inner)

/-- One resource of a `try` and the semicolon behind it. -/
def resourceItem (inner : Inner) : Parser Bool := do
  if (← isAtEnd) || (← isAt .rightParen) then
    return false
  else
    let opening ← marker
    resource inner
    if (← marker) = opening then
      return false
    else
      takeIf .semicolon

/-- What a handler catches. -/
def caughtParameter (inner : Inner) : Parser Unit := do
  if ← takeIf .leftParen then
    orMissing (parameter inner) (.construct .parameter)
    discard (expect .rightParen)
  else
    missing (.construct .leftParen)

/-- One handler of a `try`. -/
def catchSection (inner : Inner) : Parser Bool := do
  if ← isAt .catchKeyword then
    let opening ← marker
    take
    caughtParameter inner
    requiredBlock inner (.construct .leftBrace)
    wrap opening .catchSection
    return true
  else
    return false

/-- The resources of a `try`, behind the parenthesis. -/
def resources (inner : Inner) : Parser Unit := do
  loop (resourceItem inner)
  discard (expect .rightParen)

/-- The statement `try`, from its keyword on. -/
def tryStatement (inner : Inner) (opening : Nat) : Parser Unit := do
  take
  whenTaken .leftParen (resources inner)
  requiredBlock inner (.construct .leftBrace)
  loop (catchSection inner)
  whenTaken .finallyKeyword (requiredBlock inner (.construct .leftBrace))
  wrap opening .tryStatement

/-- The statement `synchronized`, from its keyword on. -/
def synchronizedStatement (inner : Inner) (opening : Nat) : Parser Unit := do
  take
  condition inner
  requiredBlock inner (.construct .leftBrace)
  wrap opening .synchronizedStatement

/-- A statement that hands a value on, from its keyword on. -/
def valueJump (inner : Inner) (opening : Nat) (kind : Kind) : Parser Unit := do
  take
  whenAtAny startsExpression (discard (expression inner))
  discard (expect .semicolon)
  wrap opening kind

/-- A statement that goes on at a label, from its keyword on. -/
def labelJump (opening : Nat) (kind : Kind) : Parser Unit := do
  take
  discard (takeIf .identifier)
  discard (expect .semicolon)
  wrap opening kind

/-- An expression and the semicolon behind it. -/
def expressionStatement (inner : Inner) (opening : Nat) : Parser Unit := do
  discard (expression inner)
  discard (expect .semicolon)
  wrap opening .expressionStatement

end StatementCompletion.Grammar
