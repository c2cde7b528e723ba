import StatementCompletion.Document
import StatementCompletion.Tree.Node

/-!
# Nodes in their place

A cursor is a node together with the offset where its text starts, its index among its siblings,
and the same for every node above it.  It knows the span it covers and its ancestors; the steps down
to the children and sideways to the siblings, and the searches through the tree, build on it.
-/

namespace StatementCompletion

/-- A node, the offset where it starts and its index among its siblings. -/
structure Placed where
  node : Node
  offset : Nat
  index : Nat

/-- A node in its place, and the nodes above it from the inside out. -/
structure Cursor extends Placed where
  above : List Placed

namespace Cursor

/-- The root of a tree. -/
def root (node : Node) : Cursor :=
  { node, offset := 0, index := 0, above := [] }

/-! ## What a cursor is on -/

/-- The kind of the node. -/
def kind (c : Cursor) : Kind :=
  c.node.kind

/-- The offset behind the node. -/
def stop (c : Cursor) : Nat :=
  c.offset + c.node.size

/-- The offsets where the node starts and stops. -/
def span (c : Cursor) : Span :=
  { start := c.offset, stop := c.stop }

/-! ## Up -/

/-- The cursors on placed nodes that stand one above the other. -/
def stack : List Placed → List Cursor
  | [] => []
  | placed :: above => { toPlaced := placed, above } :: stack above

/-- The ancestors, from the inside out. -/
def ancestors (c : Cursor) : List Cursor :=
  stack c.above

/-- The parent. -/
def parent? (c : Cursor) : Option Cursor :=
  c.ancestors.head?

/-- The kind of the parent. -/
def parentKind? (c : Cursor) : Option Kind :=
  c.parent?.map kind

/-- The innermost ancestor whose kind is asked for. -/
def ancestor? (c : Cursor) (wanted : Kind → Bool) : Option Cursor :=
  c.ancestors.find? (wanted ·.kind)

end Cursor

end StatementCompletion
