import StatementCompletion.Repair.Action

/-!
# Delimiters

The quote that closes a literal, the bracket that closes a list, the semicolon that ends a statement
and the comma or semicolon behind an enum constant.
-/

namespace StatementCompletion.Repair

/-! ## Literals -/

/-- The quote around the literals of a kind. -/
def closingQuote? : Kind → Option Char
  | .stringLiteral => some '"'
  | .charLiteral => some '\''
  | _ => none

/-- Whether the text of a literal lacks its closing quote.  A quote behind an odd number of
backslashes closes nothing. -/
def lacksQuote (text : Text) (quote : Char) : Bool :=
  match text.reverse with
  | last :: before =>
    before.isEmpty || last ≠ quote || (before.takeWhile (· = '\\')).length % 2 = 1
  | [] => true

/-- Whether a node is a literal that lacks its closing quote. -/
def isOpenLiteral (node : Node) : Bool :=
  (closingQuote? node.kind).any (lacksQuote node.ownText)

/-- Close a literal. -/
def closeLiteral (c : Cursor) : List Action :=
  match closingQuote? c.kind with
  | some quote => if lacksQuote c.node.ownText quote then [.insert c.stop [quote]] else []
  | none => []

/-! ## Lists and parentheses -/

/-- Close a construct of a kind that lacks its closing delimiter. -/
def closeWith (kind delimiter : Kind) (closer : Text) (c : Cursor) : List Action :=
  if c.kind = kind ∧ (c.child? delimiter).isNone then [.insert c.partsStop closer] else []

/-- Record the holes among the arguments of a call and close them. -/
def closeArguments (c : Cursor) : List Action :=
  if c.kind = .methodCall ∨ c.kind = .newExpression then
    match c.child? .argumentList with
    | some list =>
      Action.recordBelow list ++ closeWith .argumentList .rightParen [')'] list
    | none => []
  else
    []

/-- Record the holes of an expression in parentheses and close it. -/
def closeParenthesized (c : Cursor) : List Action :=
  if c.kind = .parenthesized then
    Action.recordBelow c ++ closeWith .parenthesized .rightParen [')'] c
  else
    []

/-! ## Semicolons -/

/-- Whether a construct ends with a semicolon. -/
def needsSemicolon (c : Cursor) : Bool :=
  match c.kind with
  | .expressionStatement | .declarationStatement | .returnStatement | .throwStatement
  | .breakStatement | .continueStatement | .doWhileStatement | .field => true
  | .method => (c.child? .codeBlock).isNone && c.isBodiless
  | _ => false

/-- Whether a node marks a missing type. -/
def isMissingType : Node → Bool
  | .error (.expected (.construct .typeReference)) [] => true
  | _ => false

mutual

/-- Whether a declaration lacks its type, as one made of modifiers only does. -/
def lacksType : Node → Bool
  | .branch _ children => anyLacksType children
  | _ => false

/-- Whether a missing type is among trees in a row, or in a variable among them. -/
def anyLacksType : List Node → Bool
  | [] => false
  | node :: rest =>
    (if node.kind = .localVariable then lacksType node else isMissingType node)
      || anyLacksType rest

end

/-- Whether a semicolon cannot be put behind a node: it is one, or ends in an open literal. -/
def refusesSemicolon (c : Cursor) : Bool :=
  c.kind = .semicolon || c.lastLeaf?.any (isOpenLiteral ·.node)

/-- Record the holes of a statement, a field or a method without a body and end it with a
semicolon.  The parts of the header of a `for` are left alone. -/
def addSemicolon (c : Cursor) : List Action :=
  if needsSemicolon c ∧ c.parentKind? ≠ some .forStatement
      ∧ c.parentKind? ≠ some .foreachStatement then
    Action.recordBelow c ++
      if lacksType c.node then
        []
      else
        match c.lastPart? with
        | some last => if refusesSemicolon last then [] else [.insert last.stop [';']]
        | none => []
  else
    []

/-! ## Enum constants -/

/-- The first of some siblings that is no gap. -/
def nearestReal? (siblings : List Cursor) : Option Cursor :=
  siblings.find? (!·.node.isGap)

/-- Put a comma between two enum constants, or a semicolon between the last one and a member. -/
def separateConstant (c : Cursor) : List Action :=
  if c.kind = .enumConstant then
    match (nearestReal? c.before).filter (·.kind = .enumConstant) with
    | some previous => [.insert previous.stop [',']]
    | none =>
      match nearestReal? c.after with
      | some next =>
        if next.kind = .enumConstant then [.insert c.stop [',']]
        else if next.kind.isMember then [.insert c.stop [';']]
        else []
      | none => []
  else
    []

end StatementCompletion.Repair
