import StatementCompletion.Repair.Action

/-!
# Values handed on

A `return` or `throw` that hands on no value has a hole behind its keyword, except that a `return`
needs none in a method without a result.
-/

namespace StatementCompletion.Repair

/-- The keyword of a statement of a kind that carries no value. -/
def keywordWithoutValue? (statement keyword : Kind) (c : Cursor) : Option Cursor :=
  if c.kind = statement
      ∧ c.parts.all (fun child => child.kind = .semicolon || child.kind = keyword)
  then
    c.child? keyword
  else
    none

/-- Whether the method around a node has no result.  A constructor has none. -/
def yieldsNothing (c : Cursor) : Bool :=
  (c.ancestor? (· = .method)).any fun method =>
    (method.child? .typeReference).all (·.node.text = "void".toList)

/-- Record the missing value of a `return`. -/
def recordReturnValue (c : Cursor) : List Action :=
  match keywordWithoutValue? .returnStatement .returnKeyword c with
  | some keyword => if yieldsNothing c then [] else [.hole keyword.stop]
  | none => []

/-- Record the missing value of a `throw`. -/
def recordThrownValue (c : Cursor) : List Action :=
  match keywordWithoutValue? .throwStatement .throwKeyword c with
  | some keyword => [.hole keyword.stop]
  | none => []

end StatementCompletion.Repair
