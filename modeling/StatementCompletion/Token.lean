import StatementCompletion.Kind
import StatementCompletion.Text
import StatementCompletion.Text.Alphabetic
import StatementCompletion.Text.Numeric

/-!
# Tokens

A text is a row of tokens.  Each token is as long as its class allows: blanks run on, a name takes
all its letters and digits, a comment or a literal goes up to what closes it.  A literal also ends
in front of a line break, and an open block comment at the end of the text; no text is refused, a
character that begins no token is a token of the error kind.

Every scanner below cuts the text it is given into what belongs to the token and the rest.
-/

namespace StatementCompletion

/-- A piece of the text and its kind. -/
structure Token where
  kind : Kind
  text : Text
deriving DecidableEq

namespace Token

/-! ## Character classes -/

/-- A space, a tab, a line feed, a carriage return or a form feed. -/
def isSpace (c : Char) : Bool :=
  c = ' ' || c = '\t' || c = '\n' || c = '\r' || c = '\x0c'

/-- A line feed or a carriage return. -/
def isReturn (c : Char) : Bool :=
  c = '\n' || c = '\r'

/-- A character a name may begin with. -/
def isNameStart (c : Char) : Bool :=
  Text.isAlphabetic c || c = '_' || c = '$'

/-- A character a name may go on with. -/
def isNamePart (c : Char) : Bool :=
  Text.isAlphabetic c || Text.isNumeric c || c = '_' || c = '$'

/-! ## Words and signs -/

/-- The reserved words. -/
def reservedWords : List (String × Kind) :=
  [("package", .packageKeyword), ("import", .importKeyword), ("class", .classKeyword),
   ("interface", .interfaceKeyword), ("enum", .enumKeyword), ("extends", .extendsKeyword),
   ("implements", .implementsKeyword), ("throws", .throwsKeyword), ("void", .voidKeyword),
   ("boolean", .primitiveType), ("byte", .primitiveType), ("char", .primitiveType),
   ("short", .primitiveType), ("int", .primitiveType), ("long", .primitiveType),
   ("float", .primitiveType), ("double", .primitiveType), ("public", .modifier),
   ("protected", .modifier), ("private", .modifier), ("static", .modifier), ("final", .modifier),
   ("abstract", .modifier), ("native", .modifier), ("transient", .modifier),
   ("volatile", .modifier), ("strictfp", .modifier), ("synchronized", .synchronizedKeyword),
   ("if", .ifKeyword), ("else", .elseKeyword), ("while", .whileKeyword), ("do", .doKeyword),
   ("for", .forKeyword), ("switch", .switchKeyword), ("case", .caseKeyword),
   ("default", .defaultKeyword), ("try", .tryKeyword), ("catch", .catchKeyword),
   ("finally", .finallyKeyword), ("return", .returnKeyword), ("throw", .throwKeyword),
   ("break", .breakKeyword), ("continue", .continueKeyword), ("new", .newKeyword),
   ("this", .thisKeyword), ("super", .superKeyword), ("instanceof", .instanceofKeyword),
   ("true", .boolLiteral), ("false", .boolLiteral), ("null", .nullLiteral)]

/-- The kind of a name: that of a reserved word, or an identifier. -/
def kindOfName (name : Text) : Kind :=
  match reservedWords.find? fun (word, _) => word.toList = name with
  | some (_, kind) => kind
  | none => .identifier

/-- The punctuation marks and operators.  Of two that begin alike the longer comes first. -/
def signs : List (String × Kind) :=
  [("(", .leftParen), (")", .rightParen), ("\x7b", .leftBrace), ("\x7d", .rightBrace),
   ("[", .leftBracket), ("]", .rightBracket), (";", .semicolon), (",", .comma), (".", .dot),
   (":", .colon), ("?", .question), ("@", .atSign), ("~", .bitNot),
   ("==", .equal), ("=", .assign), ("!=", .notEqual), ("!", .logicalNot),
   ("<=", .lessEqual), ("<<=", .compoundAssign), ("<", .less),
   (">=", .greaterEqual), (">", .greater),
   ("++", .increment), ("+=", .compoundAssign), ("+", .plus),
   ("--", .decrement), ("-=", .compoundAssign), ("->", .arrow), ("-", .minus),
   ("&&", .logicalAnd), ("&=", .compoundAssign), ("&", .bitAnd),
   ("||", .logicalOr), ("|=", .compoundAssign), ("|", .bitOr),
   ("*=", .compoundAssign), ("*", .star), ("/=", .compoundAssign), ("/", .slash),
   ("%=", .compoundAssign), ("%", .percent), ("^=", .compoundAssign), ("^", .bitXor)]

/-- The sign a text begins with. -/
def sign? (text : Text) : Option (Text × Kind) :=
  (signs.find? fun (sign, _) => sign.toList.isPrefixOf text).map fun (sign, kind) =>
    (sign.toList, kind)

/-! ## Scanners -/

/-- Up to the first `*/`, which belongs to the comment, or to the end. -/
def blockComment : Text → Text × Text
  | [] => ([], [])
  | '*' :: '/' :: rest => (['*', '/'], rest)
  | c :: rest =>
    let (taken, left) := blockComment rest
    (c :: taken, left)

/-- Up to the closing quote, which belongs to the literal, a line break or the end.  A backslash
takes the character behind it along, unless that is a line break. -/
def quoted (quote : Char) : Text → Text × Text
  | [] => ([], [])
  | c :: rest =>
    if isReturn c then
      ([], c :: rest)
    else if c = '\\' then
      match rest with
      | [] => ([c], [])
      | d :: rest =>
        if isReturn d then
          ([c], d :: rest)
        else
          let (taken, left) := quoted quote rest
          (c :: d :: taken, left)
    else if c = quote then
      ([c], rest)
    else
      let (taken, left) := quoted quote rest
      (c :: taken, left)

/-- The rest of a number behind one of its characters: ASCII letters and digits, underscores and
dots, and a sign right behind an `e`. -/
def number (previous : Char) : Text → Text × Text
  | [] => ([], [])
  | c :: rest =>
    if c.isAlphanum || c = '_' || c = '.'
        || ((previous = 'e' || previous = 'E') && (c = '+' || c = '-')) then
      let (taken, left) := number c rest
      (c :: taken, left)
    else
      ([], c :: rest)

/-- A text whose first part is of a kind, the first part and the rest. -/
def scanned (kind : Kind) (start : Text) (parts : Text × Text) : Token × Text :=
  ({ kind, text := start ++ parts.1 }, parts.2)

/-- The longest part of a text whose characters are in a class, and the rest. -/
def run (inClass : Char → Bool) (text : Text) : Text × Text :=
  (text.takeWhile inClass, text.dropWhile inClass)

/-- The first token of a text that begins with `c`, and the text behind it. -/
def next (c : Char) (rest : Text) : Token × Text :=
  if isSpace c then
    scanned .whitespace [c] (run isSpace rest)
  else if c = '/' ∧ rest.head? = some '/' then
    scanned .lineComment [c] (run (fun c => !isReturn c) rest)
  else if c = '/' ∧ rest.head? = some '*' then
    scanned .blockComment [c, '*'] (blockComment rest.tail)
  else if c = '"' then
    scanned .stringLiteral [c] (quoted c rest)
  else if c = '\'' then
    scanned .charLiteral [c] (quoted c rest)
  else if c.isDigit || (c = '.' && rest.head?.any Char.isDigit) then
    scanned .numberLiteral [c] (number c rest)
  else if isNameStart c then
    let name := c :: rest.takeWhile isNamePart
    ({ kind := kindOfName name, text := name }, rest.dropWhile isNamePart)
  else
    match sign? (c :: rest) with
    | some (sign, kind) => ({ kind, text := sign }, (c :: rest).drop sign.length)
    | none => ({ kind := .error, text := [c] }, rest)

/-! ## The tokens of a text -/

/-- The first `n` tokens of a text. -/
def ofTextWithin : Nat → Text → List Token
  | 0, _ => []
  | _, [] => []
  | n + 1, c :: rest =>
    let (token, left) := next c rest
    token :: ofTextWithin n left

/-- The tokens of a text.  There are no more of them than characters. -/
def ofText (text : Text) : List Token :=
  ofTextWithin text.length text

end Token

end StatementCompletion
