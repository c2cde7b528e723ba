import StatementCompletion.Grammar.Source
import StatementCompletion.Style
import StatementCompletion.Style.Comments

/-!
# Settings

What a completion follows: the layout, the comment tokens, the sort of source, and how many passes
it may take.
-/

namespace StatementCompletion

/-- The number of passes that a completion may take unless it is set. -/
def defaultPasses : Nat :=
  20

/-- What a completion follows. -/
structure Settings where
  style : CodeStyle := {}
  comments : CommentStyle := .java
  source : SourceKind := .compilationUnit
  maxPasses : Nat := defaultPasses
deriving DecidableEq

end StatementCompletion
