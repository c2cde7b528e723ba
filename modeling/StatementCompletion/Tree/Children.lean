import StatementCompletion.Tree.Cursor

/-!
# Children and siblings

The children of a node are placed one behind the other, each where the one before it stops.  A walk
over the children may take them from either end, in any order: from the front it places them behind
what it has taken there, and from the back in front of what it has taken there.

Steps to a sibling pass over white space and comments.
-/

namespace StatementCompletion

/-! ## Walking over children from both ends -/

/-- The children that a walk has not taken yet, the index of the first of them, and the offsets
between which they lie. -/
structure Walk where
  above : List Placed
  left : List Node
  index : Nat
  front : Nat
  back : Nat

namespace Walk

/-- An end of the row of children. -/
inductive End where
  | front
  | back
deriving DecidableEq

/-- A walk over all children of a node. -/
def ofCursor (c : Cursor) : Walk :=
  { above := c.toPlaced :: c.above, left := c.node.children, index := 0, front := c.offset,
    back := c.stop }

/-- Take the first child that is left. -/
def takeFront? (w : Walk) : Option (Cursor × Walk) :=
  match w.left with
  | [] => none
  | node :: rest =>
    some
      ({ node, offset := w.front, index := w.index, above := w.above },
       { w with left := rest, index := w.index + 1, front := w.front + node.size })

/-- Take the last child that is left. -/
def takeBack? (w : Walk) : Option (Cursor × Walk) :=
  match w.left.getLast? with
  | none => none
  | some node =>
    let back := w.back - node.size
    some
      ({ node, offset := back, index := w.index + (w.left.length - 1), above := w.above },
       { w with left := w.left.dropLast, back })

/-- Take a child from an end. -/
def take? (w : Walk) : End → Option (Cursor × Walk)
  | .front => w.takeFront?
  | .back => w.takeBack?

/-- The children met by a walk that takes them from the given ends in turn. -/
def visit (w : Walk) : List End → List Cursor
  | [] => []
  | side :: rest =>
    match w.take? side with
    | some (child, w) => child :: visit w rest
    | none => visit w rest

end Walk

namespace Cursor

/-! ## Down -/

/-- Put nodes in a row at their places below `above`, from an index and an offset on. -/
def placeAll (above : List Placed) : Nat → Nat → List Node → List Cursor
  | _, _, [] => []
  | index, offset, node :: rest =>
    { node, offset, index, above } :: placeAll above (index + 1) (offset + node.size) rest

/-- The children, in order. -/
def children (c : Cursor) : List Cursor :=
  placeAll (c.toPlaced :: c.above) 0 c.offset c.node.children

/-- The first child of a kind. -/
def child? (c : Cursor) (kind : Kind) : Option Cursor :=
  c.children.find? (·.kind = kind)

/-- The children, last one first, placed from the end of the node. -/
def childrenFromEnd (c : Cursor) : List Cursor :=
  (Walk.ofCursor c).visit (List.replicate c.node.children.length .back)

/-- The last child of a kind. -/
def lastChild? (c : Cursor) (kind : Kind) : Option Cursor :=
  c.childrenFromEnd.find? (·.kind = kind)

/-- The children that are neither trivia nor gaps. -/
def parts (c : Cursor) : List Cursor :=
  c.children.filter fun child => !child.kind.isTrivia && !child.node.isGap

/-- The last child that is neither trivia nor a gap. -/
def lastPart? (c : Cursor) : Option Cursor :=
  c.parts.getLast?

/-- The children behind the one with an index. -/
def childrenAfter (c : Cursor) (index : Nat) : List Cursor :=
  c.children.drop (index + 1)

/-! ## Sideways -/

/-- The siblings in front, nearest first, without trivia. -/
def before (c : Cursor) : List Cursor :=
  match c.parent? with
  | some parent => (parent.children.take c.index).reverse.filter (!·.kind.isTrivia)
  | none => []

/-- The siblings behind, nearest first, without trivia. -/
def after (c : Cursor) : List Cursor :=
  match c.parent? with
  | some parent => (parent.childrenAfter c.index).filter (!·.kind.isTrivia)
  | none => []

/-- The nearest sibling in front that is no trivia. -/
def previousSibling? (c : Cursor) : Option Cursor :=
  c.before.head?

/-- The nearest sibling behind that is no trivia. -/
def nextSibling? (c : Cursor) : Option Cursor :=
  c.after.head?

end Cursor

end StatementCompletion
