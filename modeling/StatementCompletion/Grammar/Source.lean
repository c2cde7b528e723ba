import StatementCompletion.Grammar.Member

/-!
# Whole sources

A source is a compilation unit, that is a file with its package, imports and declarations, or a code
fragment, that is a row of statements.  Every text has a tree: what is missing is marked and what
fits nowhere is an error, so that no token is lost.

The rules of the grammar contain each other, and a rule enters another one of them only behind a
token of its own.  So the depth to which they nest is less than the number of tokens, and `parseTo`,
which nests them to a given depth, is used with that number.
-/

namespace StatementCompletion

/-- What a text is a source of. -/
inductive SourceKind where
  | compilationUnit
  | codeFragment
deriving DecidableEq

namespace Grammar

/-! ## Statements and constructs -/

/-- A declaration, from its modifiers on. -/
def modifiedStatement (inner : Inner) (opening : Nat) : Parser Unit := do
  modifiers inner
  if ← isAtAny startsClass then
    classDeclaration inner opening
  else
    variableDeclaration inner opening

/-- A statement that begins with no keyword of its own. -/
def plainStatement (inner : Inner) (opening : Nat) : Parser Unit := do
  if ← isVariableDeclaration inner then
    variableDeclaration inner opening
  else if ← isAtAny startsExpression then
    expressionStatement inner opening
  else
    takeUnexpected

/-- A statement. -/
def statement (inner : Inner) : Parser Unit := do
  let opening ← marker
  match ← current with
  | .leftBrace =>
    codeBlock inner
    wrap opening .blockStatement
  | .ifKeyword => ifStatement inner opening
  | .whileKeyword => whileStatement inner opening
  | .doKeyword => doWhileStatement inner opening
  | .forKeyword => forStatement inner opening
  | .switchKeyword => switchStatement inner opening
  | .caseKeyword | .defaultKeyword => switchLabel inner opening
  | .tryKeyword => tryStatement inner opening
  | .returnKeyword => valueJump inner opening .returnStatement
  | .throwKeyword => valueJump inner opening .throwStatement
  | .breakKeyword => labelJump opening .breakStatement
  | .continueKeyword => labelJump opening .continueStatement
  | .semicolon =>
    take
    wrap opening .emptyStatement
  | .classKeyword | .interfaceKeyword | .enumKeyword => classDeclaration inner opening
  | .synchronizedKeyword =>
    if (← peek) = .leftParen then
      synchronizedStatement inner opening
    else
      modifiedStatement inner opening
  | .modifier | .atSign => modifiedStatement inner opening
  | _ => plainStatement inner opening

/-- A parser whose answer is always yes. -/
def present (parser : Parser Unit) : Parser Bool := do
  parser
  return true

/-- The rule of a construct. -/
def rule (inner : Inner) : Construct → Parser Bool
  | .typeReference => typeReference inner
  | .expression => expression inner
  | .conditional => conditional inner
  | .operation least => operation inner least
  | .unary => unary inner
  | .arrayInitializer => present (arrayInitializer inner)
  | .statement => present (statement inner)
  | .member => present (member inner)

/-- Parse a construct with the rules nested to a depth, below which there is no result. -/
def parseTo : Nat → Inner
  | 0 => fun _ => failure
  | depth + 1 => rule (parseTo depth)

/-! ## Sources -/

/-- A dot in a clause and the name or the star behind it.  The answer is whether both are there. -/
def clauseStep : Parser Bool := do
  if ← takeIf .dot then
    if (← isAt .identifier) || (← isAt .star) then
      take
      return true
    else
      missing (.construct .identifier)
      return false
  else
    return false

/-- The dotted name of a clause. -/
def clauseName : Parser Unit := do
  if ← expect .identifier then
    loop clauseStep

/-- A package or import clause, from its keyword on. -/
def clause (kind : Kind) : Parser Unit := do
  let opening ← marker
  take
  discard (takeIf .modifier)
  clauseName
  discard (expect .semicolon)
  wrap opening kind

/-- One clause or declaration of a compilation unit. -/
def unitItem (inner : Inner) : Parser Unit := do
  match ← current with
  | .packageKeyword => clause .packageDeclaration
  | .importKeyword => clause .importDeclaration
  | .semicolon => take
  | .rightBrace => takeUnexpected
  | _ => member inner

/-- One statement of a code fragment. -/
def fragmentItem (inner : Inner) : Parser Unit := do
  if ← isAt .rightBrace then
    takeUnexpected
  else
    statement inner

/-- One of the items up to the end. -/
def itemStep (item : Parser Unit) : Parser Bool := do
  if ← isAtEnd then
    return false
  else
    progress item
    return true

/-- Items up to the end. -/
def itemsUpToEnd (item : Parser Unit) : Parser Unit :=
  loop (itemStep item)

/-- All items of a source. -/
def source (inner : Inner) : SourceKind → Parser Unit
  | .compilationUnit => itemsUpToEnd (unitItem inner)
  | .codeFragment => itemsUpToEnd (fragmentItem inner)

end Grammar

/-- The tree of a row of tokens, if the grammar comes to an end. -/
def Node.ofTokens? (kind : SourceKind) (tokens : List Token) : Option Node := do
  let parser := Grammar.source (Grammar.parseTo (tokens.length + 1)) kind
  let (_, s) ← parser.run (Grammar.State.start tokens)
  some (.branch .file s.built.reverse)

/-- The tree of a text, if the grammar comes to an end. -/
def Node.parse? (kind : SourceKind) (text : Text) : Option Node :=
  Node.ofTokens? kind (Token.ofText text)

/-- The tree of a text. -/
def Node.ofText (kind : SourceKind) (text : Text) : Node :=
  (Node.parse? kind text).getD (.branch .file [])

end StatementCompletion
