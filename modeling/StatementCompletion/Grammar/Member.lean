import StatementCompletion.Grammar.Statement

/-!
# Classes and their members

A member begins with its modifiers; what follows decides whether it is a class, an initializer, a
constructor, a method or a field.  The constants of an enum are told from its other members by the
token behind their name.
-/

namespace StatementCompletion.Grammar

/-! ## Methods and fields -/

/-- The parameters of a method, from the parenthesis on. -/
def parameterList (inner : Inner) : Parser Unit := do
  let opening ← marker
  take
  unlessAt .rightParen (orMissing (separated .comma (parameter inner)) (.construct .parameter))
  discard (expect .rightParen)
  wrap opening .parameterList

/-- The exceptions a method throws, if any. -/
def throwsList (inner : Inner) : Parser Unit := do
  if ← isAt .throwsKeyword then
    let opening ← marker
    take
    types inner
    wrap opening .throwsList

/-- The body of a method, or the semicolon in its place. -/
def methodBody (inner : Inner) : Parser Unit := do
  if ← isAt .leftBrace then
    codeBlock inner
  else if ← isAt .semicolon then
    take
  else
    missing .methodBody

/-- A method that begins at a marker, from its parameters on. -/
def methodBehindName (inner : Inner) (opening : Nat) : Parser Unit := do
  parameterList inner
  loop dimension
  throwsList inner
  methodBody inner
  wrap opening .method

/-- Another field of the same declaration, from the comma on. -/
def nextField (inner : Inner) : Parser Bool := do
  if ← takeIf .comma then
    discard (expect .identifier)
    variableRest inner
    return true
  else
    return false

/-- A field that begins at a marker, from behind its name on. -/
def fieldBehindName (inner : Inner) (opening : Nat) : Parser Unit := do
  variableRest inner
  loop (nextField inner)
  discard (expect .semicolon)
  wrap opening .field

/-- A field that begins at a marker and breaks off where something is missing. -/
def brokenField (opening : Nat) (wanted : Wanted) : Parser Unit := do
  missing wanted
  discard (takeIf .semicolon)
  wrap opening .field

/-! ## Enum constants -/

/-- Whether a type and a name go on as a field or a method does. -/
def declaresMember : Parser Bool :=
  lookAhead do
    take
    take
    isAtAny fun
      | .semicolon | .assign | .leftParen | .leftBracket => true
      | _ => false

/-- Whether an enum constant follows.  Of two names the first is a constant if the second is on a
new line or does not go on as a member. -/
def isEnumConstant : Parser Bool := do
  if ← isAt .identifier then
    match ← peek with
    | .comma | .semicolon | .rightBrace | .leftParen | .leftBrace | .endOfFile => return true
    | .identifier => return (← peekIsOnNewLine) || !(← declaresMember)
    | _ => return false
  else
    return false

/-- One enum constant and the comma behind it. -/
def enumConstant (inner : Inner) : Parser Bool := do
  if ← isEnumConstant then
    let opening ← marker
    take
    whenAt .leftParen (argumentList inner)
    whenAt .leftBrace (memberBlock inner)
    wrap opening .enumConstant
    if ← takeIf .comma then
      return true
    else if ← isEnumConstant then
      missing (.construct .comma)
      return true
    else
      return false
  else
    return false

/-- The constants of an enum and what separates them from the other members. -/
def enumConstants (inner : Inner) : Parser Unit := do
  loop (enumConstant inner)
  unless ← takeIf .semicolon do
    unless (← isAtEnd) || (← isAt .rightBrace) do
      missing (.construct .semicolon)

/-! ## Classes -/

/-- The constants at the start of the body of a class, which has some if it is an enum. -/
def constantsOf (inner : Inner) (isEnum : Bool) : Parser Unit :=
  if isEnum then enumConstants inner else pure ()

/-- The body of a class, an interface or an enum. -/
def classBody (inner : Inner) (isEnum : Bool) : Parser Unit := do
  if ← isAt .leftBrace then
    take
    constantsOf inner isEnum
    itemsUpToBrace (discard (inner .member))
  else
    missing .classBody

/-- Types behind a keyword, if the keyword is there. -/
def typesBehind (inner : Inner) (keyword : Kind) : Parser Unit :=
  whenTaken keyword (types inner)

/-- A class, an interface or an enum that begins at a marker, from its keyword on. -/
def classDeclaration (inner : Inner) (opening : Nat) : Parser Unit := do
  let isEnum ← isAt .enumKeyword
  take
  discard (expect .identifier)
  whenAt .less (discard (typeArguments inner))
  typesBehind inner .extendsKeyword
  typesBehind inner .implementsKeyword
  classBody inner isEnum
  wrap opening .classDeclaration

/-- The keyword of a class, an interface or an enum. -/
def startsClass : Kind → Bool
  | .classKeyword | .interfaceKeyword | .enumKeyword => true
  | _ => false

/-- A method or a field that begins at a marker, from its type on. -/
def typedMember (inner : Inner) (opening : Nat) : Parser Unit := do
  if ← typeReference inner then
    if ← takeIf .identifier then
      if ← isAt .leftParen then
        methodBehindName inner opening
      else
        fieldBehindName inner opening
    else
      brokenField opening (.construct .identifier)
  else if (← marker) ≠ opening then
    brokenField opening (.construct .typeReference)

/-- A member of a class, or a declaration outside of classes. -/
def member (inner : Inner) : Parser Unit := do
  let opening ← marker
  modifiers inner
  if ← isAtAny startsClass then
    classDeclaration inner opening
  else if ← isAt .leftBrace then
    codeBlock inner
    wrap opening .initializer
  else if (← isAt .identifier) && (← peek) = .leftParen then
    take
    methodBehindName inner opening
  else
    typedMember inner opening

end StatementCompletion.Grammar
