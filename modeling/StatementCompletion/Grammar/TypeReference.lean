import StatementCompletion.Grammar.Parser

/-!
# Types

A type is a primitive name or a dotted name with arguments in angle brackets, and pairs of square
brackets behind it.  A `<` that opens no closed list of arguments is left to be an operator.
-/

namespace StatementCompletion.Grammar

/-- A dot and the name behind it. -/
def dottedName : Parser Bool := do
  if (← isAt .dot) && (← peek) = .identifier then
    take
    take
    return true
  else
    return false

/-- One pair of square brackets. -/
def dimension : Parser Bool := do
  if (← isAt .leftBracket) && (← peek) = .rightBracket then
    take
    take
    return true
  else
    return false

/-- The bound behind a question mark, if any. -/
def typeBound (inner : Inner) : Parser Unit := do
  if (← isAt .extendsKeyword) || (← isAt .superKeyword) then
    take
    discard (inner .typeReference)

/-- One argument of a type: a type, or a question mark with a bound. -/
def typeArgument (inner : Inner) : Parser Bool := do
  if ← takeIf .question then
    typeBound inner
    return true
  else
    inner .typeReference

/-- The arguments of a type, from the `<` on.  The answer is whether a `>` closes them. -/
def typeArguments (inner : Inner) : Parser Bool := do
  take
  if ← takeIf .greater then
    return true
  else if ← separated .comma (typeArgument inner) then
    takeIf .greater
  else
    return false

/-- The name of a class and its arguments, from the first name on. -/
def className (inner : Inner) : Parser Unit := do
  take
  loop dottedName
  whenAt .less (attempt (typeArguments inner))

/-- What a type begins with. -/
def startsType : Kind → Bool
  | .identifier | .primitiveType | .voidKeyword => true
  | _ => false

/-- A type, if one begins here. -/
def typeReference (inner : Inner) : Parser Bool := do
  let opening ← marker
  match ← current with
  | .primitiveType | .voidKeyword =>
    take
    loop dimension
    wrap opening .typeReference
    return true
  | .identifier =>
    className inner
    loop dimension
    wrap opening .typeReference
    return true
  | _ => return false

/-- Types with commas between them. -/
def types (inner : Inner) : Parser Unit :=
  orMissing (separated .comma (typeReference inner)) (.construct .typeReference)

/-- Whether a type and a name follow, as in a declaration of a variable. -/
def isVariableDeclaration (inner : Inner) : Parser Bool :=
  lookAhead do
    if ← typeReference inner then
      isAt .identifier
    else
      return false

end StatementCompletion.Grammar
