import StatementCompletion.Text.Bytes
import StatementCompletion.Text.Lines
import StatementCompletion.Tree.Snapshot

/-!
# What a completion is about

The caret is on the last character in front of it that is not blank, or, if that is on an earlier
line, on the first one behind it.  The target is the innermost statement or member around that
character; a part of the header of a `for` that is in order gives way to the loop.  A caret on white
space or on a closing brace has no target, nor has one in a block between its statements.

The repairs visit the parts of the target from the inside out.  They go into no nested statement and
not below a nested class, method or block, and they visit the target itself once more at the end.
-/

namespace StatementCompletion.Target

/-! ## Finding the target -/

/-- The position of the character that the caret is on. -/
def position (text : Text) (caret : Nat) : Nat :=
  let before :=
    match caret with
    | 0 => 0
    | last + 1 => (text.lastByteOutside? last Text.blanks).getD 0
  if text.lineOf before < text.lineOf caret then text.firstByteOutside caret Text.blanks
  else before

/-- What a leaf can be part of: a statement, a member or a block. -/
def isCandidate (kind : Kind) : Bool :=
  kind.isStatement || kind.isMember || kind.isComment || kind = .codeBlock

/-- The loop around a part of its header that is in order, and otherwise the part. -/
def promoted (part : Cursor) : Cursor :=
  match part.parent? with
  | some parent =>
    if parent.kind = .forStatement && !part.node.isErroneous then parent else part
  | none => part

/-- The statement or member to complete when the caret is on a leaf. -/
def around? (leaf : Cursor) : Option Cursor :=
  if leaf.kind = .whitespace ∨ leaf.node.ownText = ['\x7d'] then
    none
  else
    match leaf.ancestor? isCandidate with
    | some candidate =>
      if candidate.kind = .blockStatement then
        none
      else
        let target := promoted candidate
        if target.kind.isStatement || target.kind.isMember then some target else none
    | none => none

/-- The statement or member to complete when the caret is at an offset of the text of the tree. -/
def atCaret? (tree : Snapshot) (text : Text) (caret : Nat) : Option Cursor :=
  (tree.cursor.leafAt? (position text caret)).bind around?

/-! ## The nodes to visit -/

/-- Where the walk goes no further once it has left the target. -/
def stopsWalk (kind : Kind) : Bool :=
  kind.isStatement || kind = .classDeclaration || kind = .codeBlock || kind = .method

/-- Whether the walk skips a child of a node. -/
def isSkipped (kind child : Kind) : Bool :=
  child.isTrivia || (kind.isStatement && child.isStatement)

mutual

/-- The nodes of a tree at its place that the walk meets, from the outside in.  `mayEnter` says
whether the walk may still enter a node that stops it. -/
def walk (mayEnter : Bool) (above : List Placed) (index offset : Nat) : Node → List Cursor
  | .leaf kind text => [{ node := .leaf kind text, offset, index, above }]
  | .error problem text => [{ node := .error problem text, offset, index, above }]
  | .branch kind children =>
    let here : Placed := { node := .branch kind children, offset, index }
    { toPlaced := here, above } ::
      if stopsWalk kind then
        if mayEnter then walkAll kind false (here :: above) 0 offset children else []
      else
        walkAll kind mayEnter (here :: above) 0 offset children

/-- The nodes that the walk meets in the children, in a row, of a node of a kind. -/
def walkAll (kind : Kind) (mayEnter : Bool) (above : List Placed) (index offset : Nat) :
    List Node → List Cursor
  | [] => []
  | node :: rest =>
    (if isSkipped kind node.kind then [] else walk mayEnter above index offset node)
      ++ walkAll kind mayEnter above (index + 1) (offset + node.size) rest

end

/-- The nodes that the repairs visit, in order. -/
def visits (target : Cursor) : List Cursor :=
  (walk true target.above target.index target.offset target.node).reverse ++ [target]

end StatementCompletion.Target
