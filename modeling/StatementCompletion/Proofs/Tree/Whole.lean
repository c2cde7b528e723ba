import Mathlib.Data.List.Chain
import StatementCompletion.Proofs.Token
import StatementCompletion.Proofs.Tree.Core

/-!
# Whole trees

A tree without problems has every part that its constructs ask for: a call ends with a parenthesis,
a header is a keyword with a condition in parentheses behind it, a declaration ends with a
semicolon.  `Kind.Fits` says for each construct which kinds of parts it then has, as far as a repair
asks for them, and a tree is `Whole` if every branch in it has such parts.

The last part of the header of a counting loop is an expression statement without a semicolon.  So
whether an expression statement has one is not asked of the statement but of the branch around it.
-/

namespace StatementCompletion

namespace Kind

/-- What the grammar makes of others is no white space, no comment and no error. -/
theorem not_isTrivia_of_isConstruct {kind : Kind} (h : kind.isConstruct = true) :
    kind.isTrivia = false ∧ kind ≠ .error := by
  revert h
  cases kind <;> decide

/-- What an expression without problems is: an inner node, a literal, a name or a type. -/
def isOperand (kind : Kind) : Bool :=
  kind.isExpression || kind.isLiteral
    || match kind with
      | .identifier | .thisKeyword | .superKeyword | .typeReference => true
      | _ => false

/-- What can stand where a statement is asked for. -/
def isPhrase (kind : Kind) : Bool :=
  kind.isStatement || kind = .classDeclaration

/-- A member of a class that is no enum constant. -/
def isDeclared (kind : Kind) : Bool :=
  kind.isMember && kind ≠ .enumConstant

/-- Among the parts a keyword has a condition in parentheses behind it, where it first occurs. -/
def HasHeader (keyword : Kind) (parts : List Kind) : Prop :=
  ∃ front condition back, keyword ∉ front ∧ condition.isOperand = true
    ∧ parts = front ++ keyword :: .leftParen :: condition :: .rightParen :: back

/-- Behind an enum constant there is no constant and no other member. -/
def Separates (parts : List Kind) : Prop :=
  parts.IsChain fun part next => part = .enumConstant → next.isMember = false

/-- The kinds of parts that a construct has where nothing is missing. -/
def Fits : Kind → List Kind → Prop
  | .argumentList, parts | .parenthesized, parts | .parameterList, parts | .forStatement, parts
  | .foreachStatement, parts => .rightParen ∈ parts
  | .arrayInitializer, parts => .rightBrace ∈ parts
  | .ifStatement, parts => HasHeader .ifKeyword parts
  | .whileStatement, parts => HasHeader .whileKeyword parts
  | .doWhileStatement, parts =>
    HasHeader .whileKeyword parts ∧ parts.getLast? = some .semicolon
  | .switchStatement, parts => HasHeader .switchKeyword parts ∧ .codeBlock ∈ parts
  | .catchSection, parts => .leftParen ∈ parts ∧ .rightParen ∈ parts ∧ .codeBlock ∈ parts
  | .synchronizedStatement, parts => .rightParen ∈ parts ∧ .codeBlock ∈ parts
  | .method, parts => .codeBlock ∈ parts ∨ parts.getLast? = some .semicolon
  | .field, parts | .declarationStatement, parts | .returnStatement, parts
  | .throwStatement, parts | .breakStatement, parts | .continueStatement, parts =>
    parts.getLast? = some .semicolon
  | .classDeclaration, parts => Separates parts
  | _, _ => True

/-- The parts fit, and there are enum constants in class declarations only. -/
structure Admits (kind : Kind) (parts : List Kind) : Prop where
  fits : kind.Fits parts
  constants : kind ≠ .classDeclaration → .enumConstant ∉ parts

end Kind

namespace Node

theorem problemsAll_eq_nil {nodes : List Node} :
    problemsAll nodes = [] ↔ ∀ node ∈ nodes, node.problems = [] := by
  induction nodes with
  | nil => simp [problemsAll]
  | cons node rest ih => rw [problemsAll, List.append_eq_nil_iff, ih, List.forall_mem_cons]

/-- The kinds of the nodes in a row that are neither white space nor comments. -/
def partKinds (nodes : List Node) : List Kind :=
  (nodes.filter (!·.kind.isTrivia)).map kind

theorem partKinds_append (a b : List Node) : partKinds (a ++ b) = partKinds a ++ partKinds b := by
  rw [partKinds, List.filter_append, List.map_append, partKinds, partKinds]

theorem partKinds_singleton {node : Node} (h : node.kind.isTrivia = false) :
    partKinds [node] = [node.kind] := by
  simp [partKinds, h]

theorem partKinds_eq_nil {nodes : List Node} (h : ∀ node ∈ nodes, node.kind.isTrivia = true) :
    partKinds nodes = [] := by
  rw [partKinds, List.map_eq_nil_iff, List.filter_eq_nil_iff]
  simpa using h

/-- In a row of one part, every other node is white space or a comment. -/
theorem kind_of_partKinds_eq_singleton {nodes : List Node} {kind : Kind}
    (h : partKinds nodes = [kind])
    {node : Node} (hnode : node ∈ nodes) : node.kind.isTrivia = true ∨ node.kind = kind := by
  cases htrivia : node.kind.isTrivia with
  | true => exact .inl rfl
  | false =>
    have hpart : node.kind ∈ partKinds nodes :=
      List.mem_map.2 ⟨node, List.mem_filter.2 ⟨hnode, by rw [htrivia]; rfl⟩, rfl⟩
    rw [h] at hpart
    exact .inr (List.mem_singleton.1 hpart)

/-- An expression statement that ends with a semicolon, or anything else. -/
def IsEnded (node : Node) : Prop :=
  node.kind = .expressionStatement → (partKinds node.children).getLast? = some .semicolon

/-- No error is in a tree, the leaves have some text and are no constructs, and every branch is one
and has parts that fit its kind. -/
inductive Whole : Node → Prop where
  | leaf {kind : Kind} {text : Text} :
      kind.isConstruct = false → kind ≠ .error → text ≠ [] → Whole (.leaf kind text)
  | branch {kind : Kind} {children : List Node} :
      kind.isConstruct = true → (∀ child ∈ children, Whole child) →
        kind.Admits (partKinds children) →
          (kind ≠ .forStatement → ∀ child ∈ children, child.IsEnded) →
            Whole (.branch kind children)

theorem Whole.problems_eq_nil {node : Node} (h : node.Whole) : node.problems = [] := by
  induction h with
  | leaf => rfl
  | branch _ _ _ _ ih =>
    rw [problems, problemsAll_eq_nil]
    exact ih

/-- A whole tree that may be part of another, one that is no counting loop if this is strict. -/
structure IsSound (strict : Bool) (node : Node) : Prop where
  whole : node.Whole
  ended : strict = true → node.IsEnded

theorem IsSound.leaf {strict : Bool} {kind : Kind} {text : Text} (h : kind.isConstruct = false)
    (herror : kind ≠ .error) (htext : text ≠ []) : IsSound strict (.leaf kind text) := by
  refine ⟨.leaf h herror htext, fun _ hkind => ?_⟩
  obtain rfl : kind = .expressionStatement := hkind
  cases h

theorem IsSound.relax {node : Node} {strict strict' : Bool} (h : node.IsSound strict)
    (hstrict : strict' = true → strict = true) : node.IsSound strict' :=
  ⟨h.whole, h.ended ∘ hstrict⟩

end Node

end StatementCompletion
