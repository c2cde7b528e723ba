import StatementCompletion.Text

/-!
# Comment tokens

The tokens that open and close the comments of a language, and what a comment that is split goes on
with on its next line.
-/

namespace StatementCompletion

/-- The comment tokens of a language.  A missing token means that there are no such comments. -/
structure CommentStyle where
  /-- What opens a line comment. -/
  line : Option Text := none
  /-- What opens a block comment. -/
  blockStart : Option Text := none
  /-- What closes a block comment. -/
  blockEnd : Option Text := none
  /-- What the next line of a split block comment starts with. -/
  blockContinuation : Option Text := none
deriving DecidableEq

namespace CommentStyle

/-- Line comments only. -/
def lineOnly (token : Text) : CommentStyle :=
  { line := some token }

/-- Block comments only. -/
def blockOnly (start stop : Text) : CommentStyle :=
  { blockStart := some start, blockEnd := some stop }

/-- Line and block comments. -/
def lineAndBlock (token start stop : Text) : CommentStyle :=
  { line := some token, blockStart := some start, blockEnd := some stop }

/-- The same tokens, with block comments continued as given. -/
def continuedBy (style : CommentStyle) (continuation : Text) : CommentStyle :=
  { style with blockContinuation := some continuation }

/-- The comments of Java. -/
def java : CommentStyle :=
  (lineAndBlock "//".toList "/*".toList "*/".toList).continuedBy " * ".toList

/-- A token that is there and not empty. -/
def isGiven : Option Text → Bool
  | some (_ :: _) => true
  | _ => false

/-- Whether there are line comments. -/
def hasLine (style : CommentStyle) : Bool :=
  isGiven style.line

/-- Whether there are block comments. -/
def hasBlock (style : CommentStyle) : Bool :=
  isGiven style.blockStart && isGiven style.blockEnd

/-- What the next line of a split line comment starts with: the token and a space. -/
def lineContinuation (style : CommentStyle) : Option Text :=
  if style.hasLine then style.line.map (· ++ [' ']) else none

end CommentStyle

end StatementCompletion
