import StatementCompletion.Token
import StatementCompletion.Tree.Node

/-!
# Building a tree from tokens

The grammar reads the tokens from left to right and builds a row of nodes.  White space and comments
join the row as soon as they are read, so those in front of the current token are already at its
end; how many of them there are is kept with the token.  A node that ends here ends in front of
them, and so does the mark that something is missing.

A marker is a position in the row.  `wrap` turns everything from a marker on
into the children of one branch.

Reading ahead is running a parser and then going back: the tokens are as they were, and the row is
cut to the length it had.  Nothing that the parser did further down in the row is undone.

The rules of the grammar loop and contain each other.  Both are bounded, and what goes past its
bound has no result at all; so a parser that has a result has come to an end by itself.
-/

namespace StatementCompletion

/-- The node of a token. -/
def Token.node (token : Token) : Node :=
  match token.kind with
  | .error => .error (.invalidCharacter token.text) token.text
  | kind => .leaf kind token.text

/-- Whether a token is white space or a comment. -/
def Token.isTrivia (token : Token) : Bool :=
  token.kind.isTrivia

namespace Grammar

/-! ## The state -/

/-- The nodes built so far, the current token and the tokens behind it. -/
structure State where
  /-- The row of nodes, newest first. -/
  built : List Node
  /-- The current token; none at the end. -/
  token? : Option Token
  /-- How many of the nodes are white space and comments right in front of the current token. -/
  pending : Nat
  /-- Whether there is a line feed among them. -/
  onNewLine : Bool
  /-- The tokens behind the current one. -/
  unread : List Token

namespace State

/-- Whether there is a line feed in the white space among some tokens. -/
def hasNewline (tokens : List Token) : Bool :=
  tokens.any fun token => token.kind = .whitespace && token.text.contains '\n'

/-- Read up to the next token that is no trivia, with some nodes built before. -/
def read (built : List Node) (tokens : List Token) : State :=
  let trivia := tokens.takeWhile Token.isTrivia
  let ahead := tokens.dropWhile Token.isTrivia
  { built := (trivia.map Token.node).reverse ++ built
    token? := ahead.head?
    pending := trivia.length
    onNewLine := hasNewline trivia
    unread := ahead.tail }

/-- Nothing built, everything still to be read. -/
def start (tokens : List Token) : State :=
  read [] tokens

/-- The kind of the current token. -/
def current (s : State) : Kind :=
  match s.token? with
  | some token => token.kind
  | none => .endOfFile

/-- The current token and the tokens behind it. -/
def ahead (s : State) : List Token :=
  s.token?.toList ++ s.unread

/-- What is found when the token behind the current one is read. -/
def next (s : State) : State :=
  read [] s.unread

/-- The position behind all nodes. -/
def marker (s : State) : Nat :=
  s.built.length

/-- The position in front of the white space and comments before the current token. -/
def solid (s : State) : Nat :=
  s.built.length - s.pending

/-- Take the current token in, as the given node. -/
def take (s : State) (node : Token → Node) : State :=
  match s.token? with
  | some token => read (node token :: s.built) s.unread
  | none => s

/-- The node of a token that fits nowhere. -/
def unexpectedNode (token : Token) : Node :=
  match token.kind with
  | .error => token.node
  | kind => .error (.unexpected kind) token.text

/-- Put a node in front of the white space and comments before the current token, in the place of
the last `count` nodes there. -/
def insertSolid (s : State) (count : Nat) (node : Node) : State :=
  { s with built := s.built.take s.pending ++ node :: s.built.drop (s.pending + count) }

/-- Whether the last node in front of the white space and comments is an error. -/
def isAfterError (s : State) : Bool :=
  (s.built.drop s.pending).head?.any (·.kind.isError)

/-- Mark that something is missing, unless that is marked already. -/
def markMissing (s : State) (wanted : Wanted) : State :=
  if s.isAfterError then s else s.insertSolid 0 (.error (.expected wanted) [])

/-- Make the nodes from a marker on the children of one branch. -/
def wrap (s : State) (marker : Nat) (kind : Kind) : State :=
  let count := s.solid - min marker s.solid
  s.insertSolid count (.branch kind ((s.built.drop s.pending).take count).reverse)

/-- Go back to where a state was, with the row of nodes cut to the length it had. -/
def rollBack (s saved : State) : State :=
  { saved with built := s.built.drop (s.built.length - saved.built.length) }

end State

/-! ## Parsers -/

/-- A parser reads tokens, builds nodes and answers.  One that does not come to an end within its
bounds has no result. -/
abbrev Parser := StateT State Option

/-- The kind of the current token. -/
def current : Parser Kind := do
  return (← get).current

/-- Whether the current token is of a kind. -/
def isAt (kind : Kind) : Parser Bool := do
  return (← get).current = kind

/-- Whether the current token's kind is asked for. -/
def isAtAny (wanted : Kind → Bool) : Parser Bool := do
  return wanted (← get).current

/-- Whether all tokens are read. -/
def isAtEnd : Parser Bool :=
  isAt .endOfFile

/-- The kind of the token behind the current one. -/
def peek : Parser Kind := do
  return (← get).next.current

/-- Whether there is a line feed in front of the current token. -/
def isOnNewLine : Parser Bool := do
  return (← get).onNewLine

/-- Whether there is a line feed in front of the token behind the current one. -/
def peekIsOnNewLine : Parser Bool := do
  return (← get).next.onNewLine

/-- The position behind all nodes so far. -/
def marker : Parser Nat := do
  return (← get).marker

/-- Take the current token in. -/
def take : Parser Unit :=
  modify fun s => s.take Token.node

/-- Take the current token in if it is of a kind. -/
def takeIf (kind : Kind) : Parser Bool := do
  if ← isAt kind then
    take
    return true
  else
    return false

/-- Mark that something is missing. -/
def missing (wanted : Wanted) : Parser Unit :=
  modify fun s => s.markMissing wanted

/-- Take the current token in if it is of a kind, and otherwise mark that it is missing. -/
def expect (kind : Kind) : Parser Bool := do
  if ← isAt kind then
    take
    return true
  else
    missing (.construct kind)
    return false

/-- Take the current token in as an error. -/
def takeUnexpected : Parser Unit :=
  modify fun s => s.take State.unexpectedNode

/-- Make the nodes from a marker on the children of one branch. -/
def wrap (marker : Nat) (kind : Kind) : Parser Unit :=
  modify fun s => s.wrap marker kind

/-- Run a parser if the current token is of a kind. -/
def whenAt (kind : Kind) (parser : Parser Unit) : Parser Unit := do
  if ← isAt kind then
    parser

/-- Run a parser unless the current token is of a kind. -/
def unlessAt (kind : Kind) (parser : Parser Unit) : Parser Unit := do
  unless ← isAt kind do
    parser

/-- Run a parser if the current token's kind is asked for. -/
def whenAtAny (wanted : Kind → Bool) (parser : Parser Unit) : Parser Unit := do
  if ← isAtAny wanted then
    parser

/-- Take the current token in if it is of a kind, and then run a parser. -/
def whenTaken (kind : Kind) (parser : Parser Unit) : Parser Unit := do
  if ← takeIf kind then
    parser

/-- Run a parser, and mark what is missing if it finds nothing. -/
def orMissing (parser : Parser Bool) (wanted : Wanted) : Parser Unit := do
  unless ← parser do
    missing wanted

/-- The answer of a parser, from whose work the state goes back. -/
def lookAhead {α : Type} (parser : Parser α) : Parser α := do
  let saved ← get
  let answer ← parser
  modify (·.rollBack saved)
  return answer

/-- Run a parser, and go back if it answers no. -/
def attempt (parser : Parser Bool) : Parser Unit := do
  let saved ← get
  unless ← parser do
    modify (·.rollBack saved)

/-- Run a parser until it answers no, which it has to do within `n` times. -/
def loopWithin : Nat → Parser Bool → Parser Unit
  | 0, _ => failure
  | n + 1, step => do
    if ← step then
      loopWithin n step

/-- Run a parser until it answers no.  A parser that answers yes only after reading a token answers
no at the latest when all tokens are read. -/
def loop (step : Parser Bool) : Parser Unit := do
  loopWithin ((← get).ahead.length + 1) step

/-- Run a parser for an item again after each separator, of which there are fewer than `n`.  The
answer is whether the last item was there. -/
def separatedWithin : Nat → Kind → Parser Bool → Parser Bool
  | 0, _, _ => failure
  | n + 1, separator, item => do
    if ← item then
      if ← takeIf separator then
        separatedWithin n separator item
      else
        return true
    else
      return false

/-- One or more items with separators between them.  The answer is whether the last item was
there. -/
def separated (separator : Kind) (item : Parser Bool) : Parser Bool := do
  separatedWithin ((← get).ahead.length + 1) separator item

/-- Run a parser, and take the current token in as an error if it reads none. -/
def progress (parser : Parser Unit) : Parser Unit := do
  let before := (← get).unread.length
  parser
  if (← get).unread.length = before then
    takeUnexpected

/-- One of the items up to a closing brace or the end. -/
def bracedItem (item : Parser Unit) : Parser Bool := do
  if (← isAtEnd) || (← isAt .rightBrace) then
    return false
  else
    progress item
    return true

/-- Items up to a closing brace, which is taken in, or the end. -/
def itemsUpToBrace (item : Parser Unit) : Parser Unit := do
  loop (bracedItem item)
  discard (expect .rightBrace)

/-! ## Recursion -/

/-- The constructs that contain each other. -/
inductive Construct where
  | typeReference
  | expression
  | conditional
  /-- Operators of at least a precedence and their operands. -/
  | operation (precedence : Nat)
  | unary
  | arrayInitializer
  | statement
  | member
deriving DecidableEq

/-- How the rules of the grammar parse the constructs inside the one they are for.  The answer is
whether the construct was there. -/
abbrev Inner := Construct → Parser Bool

end Grammar

end StatementCompletion
