import StatementCompletion.Proofs.Tree.Leaves

/-!
# The core of a tree

What is left of a tree without its white space, its comments and everything that covers no text: the
marks of what is missing and the branches that are empty without all of these.  Two trees with one
core are the same to whoever asks for the constructs of a text and the tokens in them.
-/

namespace StatementCompletion.Node

mutual

/-- A tree without white space, comments and what covers no text; nothing if that is all of it. -/
def core : Node → List Node
  | .leaf kind text => if kind.isTrivia || text.isEmpty then [] else [.leaf kind text]
  | .error problem text => if text.isEmpty then [] else [.error problem text]
  | .branch kind children => if coreAll children = [] then [] else [.branch kind (coreAll children)]

/-- The cores of trees in a row. -/
def coreAll : List Node → List Node
  | [] => []
  | node :: rest => node.core ++ coreAll rest

end

theorem coreAll_eq_flatMap (nodes : List Node) : coreAll nodes = nodes.flatMap core := by
  induction nodes with
  | nil => rfl
  | cons node rest ih => rw [coreAll, ih, List.flatMap_cons]

@[simp] theorem coreAll_append (a b : List Node) : coreAll (a ++ b) = coreAll a ++ coreAll b := by
  simp only [coreAll_eq_flatMap, List.flatMap_append]

@[simp] theorem coreAll_nil : coreAll [] = [] :=
  rfl

@[simp] theorem coreAll_singleton (node : Node) : coreAll [node] = node.core := by
  rw [coreAll, coreAll_nil, List.append_nil]

/-- Where nodes in a row have no core, the first of them have none. -/
theorem coreAll_take_eq_nil {nodes : List Node} (h : coreAll nodes = []) (n : Nat) :
    coreAll (nodes.take n) = [] := by
  rw [← List.take_append_drop n nodes, coreAll_append] at h
  exact (List.append_eq_nil_iff.1 h).1

/-- A branch that holds nothing has no core. -/
@[simp] theorem core_branch_nil (kind : Kind) : (Node.branch kind []).core = [] := by
  rw [core, coreAll_nil, if_pos rfl]

/-- Branches of one kind have one core if what they hold has. -/
theorem core_branch_congr {kind : Kind} {children children' : List Node}
    (h : coreAll children' = coreAll children) :
    (Node.branch kind children').core = (Node.branch kind children).core := by
  simp only [core, h]

/-- White space and comments have no core. -/
theorem core_of_isTrivia {node : Node} (hleaf : node.isLeaf = true)
    (h : node.kind.isTrivia = true) : node.core = [] := by
  cases node with
  | leaf kind text =>
    have hkind : kind.isTrivia = true := h
    rw [core, hkind, Bool.true_or, if_pos rfl]
  | error problem text => cases h
  | branch kind children => cases hleaf

/-- The tokens of a tree: its leaves and errors with some text, but for white space and comments. -/
def tokens (node : Node) : List Node :=
  node.leaves.filter (!·.kind.isTrivia)

/-- The tokens of trees in a row. -/
def tokensAll (nodes : List Node) : List Node :=
  (leavesAll nodes).filter (!·.kind.isTrivia)

theorem tokensAll_append (a b : List Node) : tokensAll (a ++ b) = tokensAll a ++ tokensAll b := by
  rw [tokensAll, leavesAll_append, List.filter_append, tokensAll, tokensAll]

theorem tokensAll_cons (node : Node) (rest : List Node) :
    tokensAll (node :: rest) = node.tokens ++ tokensAll rest := by
  rw [tokensAll, leavesAll, List.filter_append, tokens, tokensAll]

mutual

/-- The core keeps the tokens and has no other leaves. -/
theorem leavesAll_core (node : Node) : leavesAll node.core = node.tokens := by
  match node with
  | .leaf kind text =>
    rw [core, tokens, leaves]
    cases htrivia : kind.isTrivia <;> cases htext : text.isEmpty <;>
      simp [leavesAll, leaves, Node.kind, htrivia, htext]
  | .error problem text =>
    rw [core, tokens, leaves]
    cases htext : text.isEmpty <;> simp [leavesAll, leaves, Node.kind, Kind.isTrivia, htext]
  | .branch kind children =>
    have hchildren := leavesAll_coreAll children
    rw [core]
    split
    · next hnil => rw [hnil] at hchildren; exact hchildren
    · rw [leavesAll, leavesAll, List.append_nil, leaves, hchildren, tokens, leaves, tokensAll]

theorem leavesAll_coreAll (nodes : List Node) : leavesAll (coreAll nodes) = tokensAll nodes := by
  match nodes with
  | [] => rfl
  | node :: rest =>
    rw [coreAll, leavesAll_append, leavesAll_core node, leavesAll_coreAll rest, tokensAll_cons]

end

/-- The tokens of the core are those of the tree. -/
theorem tokensAll_core (node : Node) : tokensAll node.core = node.tokens := by
  rw [tokensAll, leavesAll_core, tokens, List.filter_filter]
  simp

theorem tokensAll_coreAll (nodes : List Node) : tokensAll (coreAll nodes) = tokensAll nodes := by
  rw [tokensAll, leavesAll_coreAll, tokensAll, List.filter_filter]
  simp

end StatementCompletion.Node
