import StatementCompletion.Repair.Body
import StatementCompletion.Repair.Delimiter
import StatementCompletion.Repair.Header
import StatementCompletion.Repair.Value

/-!
# Remedies

A remedy mends one kind of fault in one node.  On a node without that fault it does nothing; on one
with it, it edits the text once, records a hole, or both.  `all` is the order in which remedies are
tried on a node.
-/

namespace StatementCompletion

/-- What can be mended. -/
inductive Remedy where
  /-- An open literal. -/
  | literal
  /-- The arguments of a call. -/
  | call
  /-- The condition of an `if`. -/
  | ifCondition
  /-- The condition of a `while`. -/
  | whileCondition
  /-- The condition of a `do` loop. -/
  | doWhileCondition
  /-- The selector of a `switch`. -/
  | switchSelector
  /-- The parameter of a `catch`. -/
  | catchParameter
  /-- A body without braces on a line of its own. -/
  | unbracedBody
  /-- The branches of an `if`. -/
  | ifBranches
  /-- The body of a `while`. -/
  | whileBody
  /-- The block of a `switch`. -/
  | switchBlock
  /-- The block of a `catch`. -/
  | catchBlock
  /-- The lock and the block of a `synchronized`. -/
  | synchronizedBlock
  /-- The header and the body of a counting loop. -/
  | forLoop
  /-- The header and the body of a loop over elements. -/
  | foreachLoop
  /-- The body of a method. -/
  | methodBody
  /-- The value of a `return`. -/
  | returnValue
  /-- The value of a `throw`. -/
  | thrownValue
  /-- The parameters of a method. -/
  | parameters
  /-- An expression in parentheses. -/
  | parentheses
  /-- The semicolon behind a statement. -/
  | semicolon
  /-- The elements of an array. -/
  | arrayElements
  /-- What separates an enum constant from its neighbours. -/
  | enumSeparator
deriving DecidableEq

namespace Remedy

/-- The remedies in the order in which they are tried. -/
def all : List Remedy :=
  [.literal, .call, .ifCondition, .whileCondition, .doWhileCondition, .switchSelector,
   .catchParameter, .unbracedBody, .ifBranches, .whileBody, .switchBlock, .catchBlock,
   .synchronizedBlock, .forLoop, .foreachLoop, .methodBody, .returnValue, .thrownValue,
   .parameters, .parentheses, .semicolon, .arrayElements, .enumSeparator]

/-- The word that identifies a remedy. -/
def tag : Remedy → String
  | .literal => "Literal"
  | .call => "MethodCall"
  | .ifCondition => "IfCondition"
  | .whileCondition => "WhileCondition"
  | .doWhileCondition => "DoWhileCondition"
  | .switchSelector => "SwitchExpression"
  | .catchParameter => "CatchDeclaration"
  | .unbracedBody => "BlockBrace"
  | .ifBranches => "MissingIfBranches"
  | .whileBody => "MissingWhileBody"
  | .switchBlock => "MissingSwitchBody"
  | .catchBlock => "MissingCatchBody"
  | .synchronizedBlock => "MissingSynchronizedBody"
  | .forLoop => "MissingForBody"
  | .foreachLoop => "MissingForeachBody"
  | .methodBody => "MissingMethodBody"
  | .returnValue => "MissingReturnExpression"
  | .thrownValue => "MissingThrowExpression"
  | .parameters => "ParameterList"
  | .parentheses => "Parenthesized"
  | .semicolon => "Semicolon"
  | .arrayElements => "MissingArrayInitializerBrace"
  | .enumSeparator => "EnumField"

/-- The remedy that a word identifies. -/
def ofTag? (word : String) : Option Remedy :=
  all.find? (·.tag = word)

/-- What a remedy does about a node of the tree of a document. -/
def actions (d : Document) (c : Cursor) : Remedy → Except EditError (List Action)
  | .literal => .ok (Repair.closeLiteral c)
  | .call => .ok (Repair.closeArguments c)
  | .ifCondition => .ok (Repair.completeHeader .ifStatement .ifKeyword c)
  | .whileCondition => .ok (Repair.completeHeader .whileStatement .whileKeyword c)
  | .doWhileCondition => .ok (Repair.completeDoWhile c)
  | .switchSelector => .ok (Repair.completeHeader .switchStatement .switchKeyword c)
  | .catchParameter => .ok (Repair.completeCatch c)
  | .unbracedBody => Repair.braceBody d c
  | .ifBranches => .ok (Repair.addBranch d.text c)
  | .whileBody => .ok (Repair.addWhileBody d.text c)
  | .switchBlock => .ok (Repair.addBlock .switchStatement c)
  | .catchBlock => .ok (Repair.addBlock .catchSection c)
  | .synchronizedBlock => .ok (Repair.completeSynchronized d.text c)
  | .forLoop => .ok (Repair.completeFor d.text c)
  | .foreachLoop => .ok (Repair.completeForeach d.text c)
  | .methodBody => .ok (Repair.addMethodBody c)
  | .returnValue => .ok (Repair.recordReturnValue c)
  | .thrownValue => .ok (Repair.recordThrownValue c)
  | .parameters => .ok (Repair.closeWith .parameterList .rightParen [')'] c)
  | .parentheses => .ok (Repair.closeParenthesized c)
  | .semicolon => .ok (Repair.addSemicolon c)
  | .arrayElements => .ok (Repair.closeWith .arrayInitializer .rightBrace ['\x7d'] c)
  | .enumSeparator => .ok (Repair.separateConstant c)

/-- Mend a node, which is in the tree of the editor's text. -/
def apply (remedy : Remedy) (c : Cursor) (e : Editor) (holes : Holes) :
    Except EditError (Editor × Holes) := do
  let actions ← remedy.actions e.document c
  Action.applyAll e holes actions

/-- No remedy is left out. -/
theorem mem_all (remedy : Remedy) : remedy ∈ all := by
  cases remedy <;> decide

end Remedy

end StatementCompletion
