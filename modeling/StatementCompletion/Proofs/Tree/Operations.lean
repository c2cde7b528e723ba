import StatementCompletion.Grammar.Expression
import StatementCompletion.Proofs.Tree.Whole

/-!
# Operations in a tree

An operation is a binary expression or an `instanceof`: a left operand, an operator and what stands
on its right.  In a tree that reads expressions as they are meant, the left operand of an operation
binds at least as tight as its operator and the right one tighter, so that operators of one
precedence associate to the left.

Where the right operand is missing, nothing is known of what follows it.  `a || * b` has a tree in
which the operation `a ||`, without a right operand, is the left operand of `*`.  So what is asked
of a left operand is asked only if its own right operand is there.
-/

namespace StatementCompletion

/-- What an operator between two operands makes a branch of. -/
def Kind.isOperation : Kind → Bool
  | .binaryExpression | .instanceofExpression => true
  | _ => false

namespace Node

variable {node : Node} {kind : Kind} {nodes : List Node} {precedence : Nat}

/-! ## Every node of a tree -/

/-- A node and all nodes below it have a property. -/
inductive Every (holds : Node → Prop) : Node → Prop where
  | intro {node : Node} : holds node → (∀ child ∈ node.children, Every holds child) →
      Every holds node

theorem Every.holds {holds : Node → Prop} (h : node.Every holds) : holds node := by
  cases h with
  | intro hnode _ => exact hnode

theorem Every.of_mem_children {holds : Node → Prop} (h : node.Every holds) {child : Node}
    (hchild : child ∈ node.children) : child.Every holds := by
  cases h with
  | intro _ hchildren => exact hchildren child hchild

/-! ## Parts -/

/-- The nodes in a row that are neither white space nor comments. -/
def partsOf (nodes : List Node) : List Node :=
  nodes.filter (!·.kind.isTrivia)

/-- The parts of a node. -/
def parts (node : Node) : List Node :=
  partsOf node.children

theorem partsOf_append (a b : List Node) : partsOf (a ++ b) = partsOf a ++ partsOf b :=
  List.filter_append ..

theorem partsOf_singleton (h : node.kind.isTrivia = false) : partsOf [node] = [node] := by
  simp [partsOf, h]

theorem partsOf_eq_nil (h : ∀ node ∈ nodes, node.kind.isTrivia = true) : partsOf nodes = [] := by
  rw [partsOf, List.filter_eq_nil_iff]
  simpa using h

/-! ## Operations -/

/-- The precedence of the operator among the parts of a node. -/
def precedence? (node : Node) : Option Nat :=
  node.parts[1]?.bind fun operator => Grammar.precedence? operator.kind

/-- A mark that something is missing: an error without text. -/
def IsMissing (node : Node) : Prop :=
  ∃ wanted, node = .error (.expected wanted) []

/-- The last part of a node is missing. -/
def LacksLast (node : Node) : Prop :=
  ∃ last, node.parts.getLast? = some last ∧ last.IsMissing

/-- An operand of an operation: neither an assignment nor a conditional. -/
structure IsOperand (node : Node) : Prop where
  kind : node.kind.isOperand = true
  assignment : node.kind ≠ .assignment
  conditional : node.kind ≠ .conditionalExpression

/-- A left operand: a binary expression whose right operand is there binds at least as tight. -/
structure FitsLeft (precedence : Nat) (node : Node) : Prop where
  operand : node.IsOperand
  binds : node.kind = .binaryExpression → ¬ node.LacksLast →
    ∃ own, node.precedence? = some own ∧ precedence ≤ own

/-- A right operand: an operation binds tighter. -/
structure FitsRight (precedence : Nat) (node : Node) : Prop where
  operand : node.IsOperand
  binds : node.kind.isOperation = true → ∃ own, node.precedence? = some own ∧ precedence < own

/-- A binary expression: an operand, an operator and an operand, which may be missing. -/
def IsBinary (node : Node) : Prop :=
  ∃ left operator right precedence, node.parts = [left, operator, right]
    ∧ Grammar.precedence? operator.kind = some precedence ∧ operator.kind ≠ .instanceofKeyword
    ∧ left.FitsLeft precedence ∧ (right.FitsRight precedence ∨ right.IsMissing)

/-- An `instanceof` with its operand and what stands for the type. -/
def IsInstanceof (node : Node) : Prop :=
  ∃ left operator right precedence, node.parts = [left, operator, right]
    ∧ operator.kind = .instanceofKeyword
    ∧ Grammar.precedence? .instanceofKeyword = some precedence ∧ left.FitsLeft precedence

/-- What is asked of every node: an operation has its parts, and they bind as they should. -/
structure BindsTight (node : Node) : Prop where
  binary : node.kind = .binaryExpression → node.IsBinary
  typeTest : node.kind = .instanceofExpression → node.IsInstanceof

/-- Nothing is asked of what is no operation. -/
theorem bindsTight_of_not_isOperation (h : node.kind.isOperation = false) : node.BindsTight := by
  constructor
  · intro hkind
    rw [hkind] at h
    cases h
  · intro hkind
    rw [hkind] at h
    cases h

end Node

end StatementCompletion
