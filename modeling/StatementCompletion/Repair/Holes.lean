import StatementCompletion.Tree.Search

/-!
# Holes

A hole is a place where an expression, a name or a type is missing, which no repair guesses.  Only
the first hole of a text matters, as the place where the user goes on; so recording a hole keeps the
smallest offset.
-/

namespace StatementCompletion

/-- The smallest offset of a recorded hole. -/
structure Holes where
  first? : Option Nat := none
deriving DecidableEq

namespace Holes

/-- Record a hole at an offset. -/
def record (holes : Holes) (offset : Nat) : Holes :=
  match holes.first? with
  | some first => { first? := some (min first offset) }
  | none => { first? := some offset }

/-- Whether no hole is recorded. -/
def isEmpty (holes : Holes) : Bool :=
  holes.first?.isNone

/-- The smallest offset never grows. -/
theorem first?_record (holes : Holes) (offset : Nat) :
    (holes.record offset).first? = some ((holes.first?.getD offset).min offset) := by
  cases h : holes.first? <;> simp [record, h]

end Holes

namespace Node

mutual

/-- The offsets of the holes below a tree that starts at an offset, outside nested statements and
blocks. -/
def holesBelow (offset : Nat) : Node → List Nat
  | .branch _ children => holesAmong offset children
  | _ => []

/-- The offsets of the holes among trees in a row that start at an offset, and below them outside
statements and blocks. -/
def holesAmong (offset : Nat) : List Node → List Nat
  | [] => []
  | node :: rest =>
    (if node.isHole then [offset]
      else if node.kind.isStatement || node.kind = .codeBlock then []
      else node.holesBelow offset)
      ++ holesAmong (offset + node.size) rest

end

end Node

/-- The offsets of the holes below a node, outside nested statements and blocks. -/
def Cursor.holes (c : Cursor) : List Nat :=
  c.node.holesBelow c.offset

end StatementCompletion
