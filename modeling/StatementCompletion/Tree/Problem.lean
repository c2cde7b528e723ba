import StatementCompletion.Kind.Name
import StatementCompletion.Text

/-!
# Problems of a source

What an error in a syntax tree says: something is missing, a token stands where none fits, or a
character begins no token.  A missing expression, identifier or type is a hole, which only the user
can fill.
-/

namespace StatementCompletion

/-- What the grammar misses. -/
inductive Wanted where
  | construct (kind : Kind)
  | expression
  | statement
  | classBody
  | methodBody
  | switchBody
deriving DecidableEq

namespace Wanted

/-- What is missing, in words. -/
def name : Wanted → String
  | .construct kind => kind.name
  | .expression => "expression"
  | .statement => "statement"
  | .classBody => "class body"
  | .methodBody => "method body"
  | .switchBody => "switch body"

/-- Whether only the user can supply it. -/
def isHole : Wanted → Bool
  | .expression | .construct .identifier | .construct .typeReference => true
  | _ => false

end Wanted

/-- What an error says. -/
inductive Problem where
  | expected (wanted : Wanted)
  | unexpected (kind : Kind)
  | invalidCharacter (text : Text)
deriving DecidableEq

namespace Problem

/-- The problem in words. -/
def message : Problem → String
  | .expected wanted => "expected " ++ wanted.name
  | .unexpected kind => "unexpected " ++ kind.name
  | .invalidCharacter text => "the character `" ++ String.ofList text ++ "` is not valid here"

/-- Whether the problem is a hole. -/
def isHole : Problem → Bool
  | .expected wanted => wanted.isHole
  | _ => false

end Problem

end StatementCompletion
