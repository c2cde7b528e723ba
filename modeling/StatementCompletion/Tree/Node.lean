import StatementCompletion.Tree.Problem

/-!
# Syntax trees

A tree is a leaf with the text of a token, an error with the text it covers, or a branch with its
children in order.  An error that covers no text marks a place where something is missing.  Nothing
is stored twice: the text of a tree is that of its leaves and errors, from left to right.
-/

namespace StatementCompletion

/-- A syntax tree. -/
inductive Node where
  | leaf (kind : Kind) (text : Text)
  | error (problem : Problem) (text : Text)
  | branch (kind : Kind) (children : List Node)

namespace Node

/-! ## Parts of a tree -/

/-- The kind of a tree. -/
def kind : Node → Kind
  | .leaf kind _ => kind
  | .error _ _ => .error
  | .branch kind _ => kind

/-- The children of a branch. -/
def children : Node → List Node
  | .branch _ children => children
  | _ => []

/-- Whether a tree is no branch. -/
def isLeaf : Node → Bool
  | .branch _ _ => false
  | _ => true

/-- The text of a leaf or an error itself; nothing for a branch. -/
def ownText : Node → Text
  | .leaf _ text => text
  | .error _ text => text
  | .branch _ _ => []

/-- What an error says. -/
def problem? : Node → Option Problem
  | .error problem _ => some problem
  | _ => none

mutual

/-- The whole text of a tree. -/
def text : Node → Text
  | .leaf _ text => text
  | .error _ text => text
  | .branch _ children => textAll children

/-- The text of trees in a row. -/
def textAll : List Node → Text
  | [] => []
  | node :: rest => node.text ++ textAll rest

end

mutual

/-- The length of the text in bytes. -/
def size : Node → Nat
  | .leaf _ text => text.size
  | .error _ text => text.size
  | .branch _ children => sizeAll children

/-- The length of the text of trees in a row. -/
def sizeAll : List Node → Nat
  | [] => 0
  | node :: rest => node.size + sizeAll rest

end

/-- Whether a tree covers no text. -/
def isEmpty (node : Node) : Bool :=
  node.size = 0

/-! ## Problems -/

mutual

/-- The problems in a tree, from left to right. -/
def problems : Node → List Problem
  | .leaf _ _ => []
  | .error problem _ => [problem]
  | .branch _ children => problemsAll children

/-- The problems in trees in a row. -/
def problemsAll : List Node → List Problem
  | [] => []
  | node :: rest => node.problems ++ problemsAll rest

end

/-- Whether there is an error in a tree. -/
def isErroneous (node : Node) : Bool :=
  !node.problems.isEmpty

/-- A place where something is missing that only the user can supply. -/
def isHole : Node → Bool
  | .error problem text => text.isEmpty && problem.isHole
  | _ => false

/-- A place where something is missing. -/
def isGap (node : Node) : Bool :=
  node.kind.isError && node.isEmpty

/-! ## Small laws -/

mutual

theorem size_text (node : Node) : node.text.size = node.size := by
  match node with
  | .leaf _ _ => rfl
  | .error _ _ => rfl
  | .branch _ children => simpa only [text, size] using size_textAll children

theorem size_textAll (nodes : List Node) : (textAll nodes).size = sizeAll nodes := by
  match nodes with
  | [] => rfl
  | node :: rest =>
    simp only [textAll, sizeAll, Text.size_append, size_text node, size_textAll rest]

end

theorem textAll_append (a b : List Node) : textAll (a ++ b) = textAll a ++ textAll b := by
  induction a with
  | nil => simp [textAll]
  | cons node rest ih => simp [textAll, ih]

end Node

end StatementCompletion
