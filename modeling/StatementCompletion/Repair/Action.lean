import StatementCompletion.Editor
import StatementCompletion.Repair.Holes

/-!
# What a repair does

A repair looks at one node of a tree and answers with a list of actions: an edit, a place for the
caret, a hole to record.  The actions are values, so what a repair would do can be looked at before
anything is done.  They are carried out in turn on an editor and the holes recorded so far.
-/

namespace StatementCompletion

/-- One thing a repair does. -/
inductive Action where
  | replace (edit : TextEdit)
  | caret (offset : Nat)
  | hole (offset : Nat)
deriving DecidableEq

namespace Action

/-- Insert a text at an offset. -/
def insert (offset : Nat) (text : Text) : Action :=
  .replace (TextEdit.insertion offset text)

/-- Carry out an action. -/
def apply (e : Editor) (holes : Holes) : Action → Except EditError (Editor × Holes)
  | .replace edit => do
    let e ← e.replace edit.span edit.text
    pure (e, holes)
  | .caret offset => .ok (e.moveCaret offset, holes)
  | .hole offset => .ok (e, holes.record offset)

/-- Carry out actions in turn. -/
def applyAll (e : Editor) (holes : Holes) : List Action → Except EditError (Editor × Holes)
  | [] => .ok (e, holes)
  | action :: rest => do
    let (e, holes) ← action.apply e holes
    applyAll e holes rest

/-- Insert an empty block at an offset and put the caret on its brace. -/
def openBlock (offset : Nat) : List Action :=
  [insert offset ['\x7b', '\x7d'], .caret offset]

/-- Record the holes below a node. -/
def recordBelow (c : Cursor) : List Action :=
  c.holes.map hole

end Action

/-! ## Where repairs look -/

namespace Cursor

/-- The offset behind the last child that is neither trivia nor a gap. -/
def partsStop (c : Cursor) : Nat :=
  match c.lastPart? with
  | some child => child.stop
  | none => c.stop

/-- Whether the last child that is neither trivia nor a gap is a semicolon. -/
def endsWithSemicolon (c : Cursor) : Bool :=
  c.lastPart?.any (·.kind = .semicolon)

/-- The first statement among the children behind another child. -/
def statementBehind? (c child : Cursor) : Option Cursor :=
  (c.childrenAfter child.index).find? (·.kind.isStatement)

/-- Whether one of these words is among the modifiers of a declaration. -/
def hasModifier (c : Cursor) (words : List String) : Bool :=
  (c.child? .modifierList).any fun modifiers =>
    modifiers.children.any fun modifier =>
      modifier.kind = .modifier && words.any (·.toList = modifier.node.ownText)

/-- Whether a method has no body on purpose. -/
def isBodiless (c : Cursor) : Bool :=
  c.hasModifier ["abstract", "native"]
    || (c.ancestor? (· = .classDeclaration)).any fun owner =>
      (owner.child? .interfaceKeyword).isSome

end Cursor

end StatementCompletion
