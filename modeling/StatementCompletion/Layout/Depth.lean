import StatementCompletion.Tree.Search

/-!
# Indentation depth

The depth of a token counts the constructs around it that indent what they hold: the braces of a
block or a class, the unbraced body of a control statement, and the labels of a switch, below which
the statements stand one level deeper.
-/

namespace StatementCompletion.Layout

/-- Whether a position is strictly between the braces of a block or a class. -/
def isBetweenBraces (c : Cursor) (position : Nat) : Bool :=
  (c.kind = .codeBlock || c.kind = .classDeclaration)
    && (c.child? .leftBrace).any (·.offset < position)
    && (c.lastChild? .rightBrace).all (position < ·.offset)

/-- Whether a child of a control statement is its body and stands without braces.  An `if` behind
`else` is none, and neither are the parts of the header of a `for`. -/
def isUnbracedBody (c child : Cursor) : Bool :=
  c.kind.isControlStatement && child.kind.isStatement && child.kind ≠ .blockStatement
    && match c.kind with
      | .ifStatement => child.kind ≠ .ifStatement
      | .forStatement | .foreachStatement =>
        (c.child? .rightParen).any (·.offset < child.offset)
      | _ => true

/-- Whether a child of the block of a switch stands below a label. -/
def isBelowLabel (c child : Cursor) : Bool :=
  c.kind = .codeBlock && c.parentKind? = some .switchStatement
    && child.kind.isStatement && child.kind ≠ .switchLabel

/-- How many levels a node indents its child on the way to a position. -/
def levels (position : Nat) (c child : Cursor) : Nat :=
  (isBetweenBraces c position).toNat + (isUnbracedBody c child).toNat
    + (isBelowLabel c child).toNat

/-- The levels of all the ancestors of a node on the way to a position. -/
def depthBelow (position : Nat) : Cursor → List Cursor → Nat
  | _, [] => 0
  | child, c :: above => levels position c child + depthBelow position c above

/-- The indentation depth of a line that starts with a token. -/
def depth (token : Cursor) : Nat :=
  depthBelow token.offset token token.ancestors

end StatementCompletion.Layout
