import StatementCompletion.Json.Value

/-!
# Reading JSON

The grammar of RFC 8259, without extensions.  Each reader takes what it is for from the front of a
text and hands back the rest; there is no limit to nesting.
-/

namespace StatementCompletion.Json

/-! ## Blanks and literals -/

/-- A space, a line feed, a carriage return or a tab. -/
def isSpace (c : Char) : Bool :=
  c = ' ' || c = '\n' || c = '\r' || c = '\t'

/-- A text without the blanks in front. -/
def skipSpace (text : Text) : Text :=
  text.dropWhile isSpace

/-- The text behind a word. -/
def word? (word : String) (text : Text) : Option Text :=
  if word.toList.isPrefixOf text then some (text.drop word.toList.length) else none

/-! ## Strings -/

/-- A part of a string: a character, or half of a surrogate pair. -/
inductive Piece where
  | char (c : Char)
  | half (unit : Nat)

/-- The value of a hexadecimal digit. -/
def hexDigit? (c : Char) : Option Nat :=
  if c.isDigit then some (c.toNat - '0'.toNat)
  else if 'a' ≤ c ∧ c ≤ 'f' then some (c.toNat - 'a'.toNat + 10)
  else if 'A' ≤ c ∧ c ≤ 'F' then some (c.toNat - 'A'.toNat + 10)
  else none

/-- The value of four hexadecimal digits. -/
def hexUnit? (a b c d : Char) : Option Nat := do
  let a ← hexDigit? a
  let b ← hexDigit? b
  let c ← hexDigit? c
  let d ← hexDigit? d
  pure (((a * 16 + b) * 16 + c) * 16 + d)

/-- The part of a string that a code unit is. -/
def pieceOfUnit (unit : Nat) : Piece :=
  if 0xD800 ≤ unit ∧ unit < 0xE000 then .half unit else .char (Char.ofNat unit)

/-- What a letter behind a backslash stands for. -/
def escaped? : Char → Option Char
  | '"' => some '"'
  | '\\' => some '\\'
  | '/' => some '/'
  | 'b' => some '\x08'
  | 'f' => some '\x0c'
  | 'n' => some '\n'
  | 'r' => some '\r'
  | 't' => some '\t'
  | _ => none

/-- The parts of a string up to its closing quote. -/
def pieces? : Text → Option (List Piece × Text)
  | [] => none
  | '"' :: rest => some ([], rest)
  | '\\' :: 'u' :: a :: b :: c :: d :: rest => do
    let unit ← hexUnit? a b c d
    let (pieces, rest) ← pieces? rest
    pure (pieceOfUnit unit :: pieces, rest)
  | '\\' :: c :: rest => do
    let c ← escaped? c
    let (pieces, rest) ← pieces? rest
    pure (.char c :: pieces, rest)
  | c :: rest =>
    if c.toNat < 0x20 ∨ c = '\\' then
      none
    else do
      let (pieces, rest) ← pieces? rest
      pure (.char c :: pieces, rest)

/-- The text that the parts of a string stand for, if its halves come in pairs. -/
def join? : List Piece → Option Text
  | [] => some []
  | .char c :: rest => (join? rest).map (c :: ·)
  | .half high :: .half low :: rest =>
    if high < 0xDC00 ∧ 0xDC00 ≤ low then
      (join? rest).map (Char.ofNat (0x10000 + (high - 0xD800) * 0x400 + (low - 0xDC00)) :: ·)
    else
      none
  | .half _ :: _ => none

/-- The string behind its opening quote. -/
def string? (text : Text) : Option (Option Text × Text) := do
  let (pieces, rest) ← pieces? text
  pure (join? pieces, rest)

/-! ## Numbers -/

/-- One or more digits. -/
def digits? (text : Text) : Option (Text × Text) :=
  match text.takeWhile Char.isDigit with
  | [] => none
  | digits => some (digits, text.dropWhile Char.isDigit)

/-- The whole part of a number: one zero, or digits that begin with none. -/
def whole? : Text → Option (Text × Text)
  | '0' :: c :: rest => if c.isDigit then none else some (['0'], c :: rest)
  | text => digits? text

/-- The fraction of a number, if it has one. -/
def fraction? : Text → Option (Text × Text)
  | '.' :: rest => (digits? rest).map fun (digits, rest) => ('.' :: digits, rest)
  | text => some ([], text)

/-- The exponent of a number, if it has one. -/
def exponent? : Text → Option (Text × Text)
  | [] => some ([], [])
  | c :: rest =>
    if c = 'e' ∨ c = 'E' then
      let (sign, rest) :=
        match rest with
        | '+' :: rest => (['+'], rest)
        | '-' :: rest => (['-'], rest)
        | rest => ([], rest)
      (digits? rest).map fun (digits, rest) => (c :: sign ++ digits, rest)
    else
      some ([], c :: rest)

/-- A number without its sign. -/
def magnitude? (text : Text) : Option (Text × Text) := do
  let (whole, rest) ← whole? text
  let (fraction, rest) ← fraction? rest
  let (exponent, rest) ← exponent? rest
  pure (whole ++ fraction ++ exponent, rest)

/-- A number. -/
def number? : Text → Option (Json × Text)
  | '-' :: rest => (magnitude? rest).map fun (literal, rest) => (.number ('-' :: literal), rest)
  | text => (magnitude? text).map fun (literal, rest) => (.number literal, rest)

/-! ## Values -/

/-- A value without parts. -/
def scalar? (text : Text) : Option (Json × Text) :=
  match text with
  | '"' :: rest => (string? rest).map fun (value, rest) => (.string value, rest)
  | 'n' :: _ => (word? "null" text).map fun rest => (.null, rest)
  | 't' :: _ => (word? "true" text).map fun rest => (.boolean true, rest)
  | 'f' :: _ => (word? "false" text).map fun rest => (.boolean false, rest)
  | _ => number? text

/-- The name of a member and the colon behind it. -/
def name? (text : Text) : Option (Option Text × Text) :=
  match skipSpace text with
  | '"' :: rest => do
    let (name, rest) ← string? rest
    match skipSpace rest with
    | ':' :: rest => pure (name, rest)
    | _ => none
  | _ => none

mutual

/-- A value, read in at most so many steps. -/
def value? : Nat → Text → Option (Json × Text)
  | 0, _ => none
  | steps + 1, text =>
    match skipSpace text with
    | '[' :: rest =>
      match skipSpace rest with
      | ']' :: rest => some (.array [], rest)
      | rest => (items? steps rest).map fun (items, rest) => (.array items, rest)
    | '\x7b' :: rest =>
      match skipSpace rest with
      | '\x7d' :: rest => some (.object [], rest)
      | rest => (members? steps rest).map fun (members, rest) => (.object members, rest)
    | text => scalar? text

/-- One or more items up to the closing bracket, read in at most so many steps. -/
def items? : Nat → Text → Option (List Json × Text)
  | 0, _ => none
  | steps + 1, text => do
    let (item, rest) ← value? steps text
    match skipSpace rest with
    | ',' :: rest =>
      let (items, rest) ← items? steps rest
      pure (item :: items, rest)
    | ']' :: rest => pure ([item], rest)
    | _ => none

/-- One or more members up to the closing brace, read in at most so many steps. -/
def members? : Nat → Text → Option (List (Option Text × Json) × Text)
  | 0, _ => none
  | steps + 1, text => do
    let (name, rest) ← name? text
    let (value, rest) ← value? steps rest
    match skipSpace rest with
    | ',' :: rest =>
      let (members, rest) ← members? steps rest
      pure ((name, value) :: members, rest)
    | '\x7d' :: rest => pure ([(name, value)], rest)
    | _ => none

end

/-- The value that a text is, with nothing but blanks around it.  A character takes no more than two
steps. -/
def ofText? (text : Text) : Option Json :=
  match value? (2 * text.length + 1) text with
  | some (value, rest) => if (skipSpace rest).isEmpty then some value else none
  | none => none

end StatementCompletion.Json
