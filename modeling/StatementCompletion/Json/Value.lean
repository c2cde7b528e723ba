import StatementCompletion.Text

/-!
# JSON values

A JSON value as it is written: the members of an object in their order, repeated names included, and
a number as its digits.  A string with half of a surrogate pair is well formed but stands for no
text.
-/

namespace StatementCompletion

/-- A JSON value. -/
inductive Json where
  | null
  | boolean (value : Bool)
  /-- A number as it is written. -/
  | number (literal : Text)
  /-- A string and the text it stands for, if it stands for one. -/
  | string (value : Option Text)
  | array (items : List Json)
  /-- The members of an object with their names. -/
  | object (members : List (Option Text × Json))

namespace Json

/-- The value of decimal digits. -/
def decimalValue (digits : Text) : Nat :=
  digits.foldl (fun n c => 10 * n + (c.toNat - '0'.toNat)) 0

/-- The natural number of 64 bits that a number is, if it is written without sign, fraction and
exponent. -/
def natural? : Json → Option Nat
  | .number literal =>
    if literal.all Char.isDigit && decimalValue literal < UInt64.size
      then some (decimalValue literal)
    else none
  | _ => none

/-- The truth value that a value is. -/
def boolean? : Json → Option Bool
  | .boolean value => some value
  | _ => none

/-- The text that a string stands for. -/
def text? : Json → Option Text
  | .string value => value
  | _ => none

/-- Whether a value is null. -/
def isNull : Json → Bool
  | .null => true
  | _ => false

end Json

end StatementCompletion
