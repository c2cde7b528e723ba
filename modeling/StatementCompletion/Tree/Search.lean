import StatementCompletion.Tree.Children

/-!
# Searching a tree

Walks over a whole tree in the order of its text: all nodes, or the leaves that cover some text.
The searches for the leaf at a position, the last leaf and the node with a given span go down from
the root and enter only what can hold the answer.
-/

namespace StatementCompletion.Cursor

/-! ## All nodes and all leaves -/

mutual

/-- The nodes of a tree at its place, each in front of its descendants. -/
def preorderAt (above : List Placed) (index offset : Nat) : Node → List Cursor
  | .leaf kind text => [{ node := .leaf kind text, offset, index, above }]
  | .error problem text => [{ node := .error problem text, offset, index, above }]
  | .branch kind children =>
    let here : Placed := { node := .branch kind children, offset, index }
    { toPlaced := here, above } :: preorderAll (here :: above) 0 offset children

/-- The nodes of trees in a row, each in front of its descendants. -/
def preorderAll (above : List Placed) (index offset : Nat) : List Node → List Cursor
  | [] => []
  | node :: rest =>
    preorderAt above index offset node
      ++ preorderAll above (index + 1) (offset + node.size) rest

end

/-- The node and its descendants, each in front of its descendants. -/
def preorder (c : Cursor) : List Cursor :=
  preorderAt c.above c.index c.offset c.node

mutual

/-- The leaves of a tree at its place that cover some text. -/
def leavesAt (above : List Placed) (index offset : Nat) : Node → List Cursor
  | .leaf kind text =>
    if text.isEmpty then [] else [{ node := .leaf kind text, offset, index, above }]
  | .error problem text =>
    if text.isEmpty then [] else [{ node := .error problem text, offset, index, above }]
  | .branch kind children =>
    leavesAll ({ node := .branch kind children, offset, index } :: above) 0 offset children

/-- The leaves of trees in a row that cover some text. -/
def leavesAll (above : List Placed) (index offset : Nat) : List Node → List Cursor
  | [] => []
  | node :: rest =>
    leavesAt above index offset node ++ leavesAll above (index + 1) (offset + node.size) rest

end

/-- The leaves and errors that cover some text, in the order of the text. -/
def leaves (c : Cursor) : List Cursor :=
  leavesAt c.above c.index c.offset c.node

/-! ## Searches -/

/-- Whether a position lies on a piece of text. -/
def covers (offset size position : Nat) : Bool :=
  offset ≤ position && position < offset + size

mutual

/-- The leaf of a tree at its place that covers a position. -/
def findLeaf (position : Nat) (above : List Placed) (index offset : Nat) : Node → Option Cursor
  | .leaf kind text =>
    if covers offset text.size position then
      some { node := .leaf kind text, offset, index, above }
    else none
  | .error problem text =>
    if covers offset text.size position then
      some { node := .error problem text, offset, index, above }
    else none
  | .branch kind children =>
    findLeafAll position ({ node := .branch kind children, offset, index } :: above) 0 offset
      children

/-- The leaf that covers a position, searched in the first of the trees in a row that does. -/
def findLeafAll (position : Nat) (above : List Placed) (index offset : Nat) :
    List Node → Option Cursor
  | [] => none
  | node :: rest =>
    if covers offset node.size position then
      findLeaf position above index offset node
    else
      findLeafAll position above (index + 1) (offset + node.size) rest

end

/-- The leaf that covers a position. -/
def leafAt? (c : Cursor) (position : Nat) : Option Cursor :=
  findLeaf position c.above c.index c.offset c.node

mutual

/-- The last leaf of a tree at its place that covers some text and is no trivia. -/
def findLast (above : List Placed) (index offset : Nat) : Node → Option Cursor
  | .leaf kind text =>
    if kind.isTrivia || text.isEmpty then none
    else some { node := .leaf kind text, offset, index, above }
  | .error problem text =>
    if text.isEmpty then none else some { node := .error problem text, offset, index, above }
  | .branch kind children =>
    findLastAll ({ node := .branch kind children, offset, index } :: above) 0 offset children

/-- The last leaf of trees in a row that covers some text and is no trivia. -/
def findLastAll (above : List Placed) (index offset : Nat) : List Node → Option Cursor
  | [] => none
  | node :: rest =>
    match findLastAll above (index + 1) (offset + node.size) rest with
    | some leaf => some leaf
    | none => findLast above index offset node

end

/-- The last leaf that covers some text and is no trivia. -/
def lastLeaf? (c : Cursor) : Option Cursor :=
  findLast c.above c.index c.offset c.node

/-- Whether a span lies inside a piece of text. -/
def contains (offset size : Nat) (span : Span) : Bool :=
  offset ≤ span.start && span.stop ≤ offset + size

mutual

/-- The outermost node of a tree at its place that has a span and a kind. -/
def findIn (span : Span) (kind : Kind) (above : List Placed) (index offset : Nat) :
    Node → Option Cursor
  | .leaf own text =>
    if span = { start := offset, stop := offset + text.size } ∧ kind = own then
      some { node := .leaf own text, offset, index, above }
    else none
  | .error problem text =>
    if span = { start := offset, stop := offset + text.size } ∧ kind = .error then
      some { node := .error problem text, offset, index, above }
    else none
  | .branch own children =>
    let here : Placed := { node := .branch own children, offset, index }
    if span = { start := offset, stop := offset + here.node.size } ∧ kind = own then
      some { toPlaced := here, above }
    else if contains offset here.node.size span then
      findInAll span kind (here :: above) 0 offset children
    else none

/-- The outermost node that has a span and a kind, searched in the trees in a row that contain the
span. -/
def findInAll (span : Span) (kind : Kind) (above : List Placed) (index offset : Nat) :
    List Node → Option Cursor
  | [] => none
  | node :: rest =>
    let found :=
      if contains offset node.size span then findIn span kind above index offset node else none
    match found with
    | some cursor => some cursor
    | none => findInAll span kind above (index + 1) (offset + node.size) rest

end

/-- The outermost node, of this one and its descendants, that has a span and a kind. -/
def find? (c : Cursor) (span : Span) (kind : Kind) : Option Cursor :=
  findIn span kind c.above c.index c.offset c.node

end StatementCompletion.Cursor
