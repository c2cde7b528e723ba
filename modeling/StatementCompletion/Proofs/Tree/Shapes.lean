import StatementCompletion.Proofs.Tree.Core
import StatementCompletion.Proofs.Tree.Places

/-!
# The shapes of a tree

The tokens of a tree are numbered from left to right.  A node then has an extent, its kind together
with the numbers of its tokens, and a branch has a shape: the kind of its parent, its own extent and
those of its children.  Children without tokens are left out.

Shapes speak of a tree without the white space, the comments and the marks in it, so a tree has the
shapes of its core, up to those of the branches without tokens.  `Among` places a cursor among the
leaves of its tree, and so gives it a number; where it is on a branch, there is a shape for it.
-/

namespace StatementCompletion

/-- The kind of a node, the number of its first token and how many tokens it has. -/
structure Extent where
  kind : Kind
  first : Nat
  count : Nat
deriving DecidableEq

/-- The kind of the parent of a branch, the extent of the branch and those of its children that have
tokens. -/
structure Shape where
  parent? : Option Kind
  extent : Extent
  parts : List Extent
deriving DecidableEq

namespace Node

/-- The extents of nodes in a row that have tokens. -/
def extents (first : Nat) : List Node → List Extent
  | [] => []
  | node :: rest =>
    let behind := extents (first + node.tokens.length) rest
    if node.tokens = [] then behind
    else { kind := node.kind, first, count := node.tokens.length } :: behind

mutual

/-- The shapes of the branches of a tree. -/
def shapes (parent? : Option Kind) (first : Nat) : Node → List Shape
  | .leaf _ _ => []
  | .error _ _ => []
  | .branch kind children =>
    { parent?, extent := { kind, first, count := (tokensAll children).length },
      parts := extents first children } :: shapesAll (some kind) first children

/-- The shapes of the branches of trees in a row. -/
def shapesAll (parent? : Option Kind) (first : Nat) : List Node → List Shape
  | [] => []
  | node :: rest =>
    node.shapes parent? first ++ shapesAll parent? (first + node.tokens.length) rest

end

/-! ## Rows -/

/-- The number of tokens among leaves. -/
def number (leaves : List Node) : Nat :=
  (leaves.filter (!·.kind.isTrivia)).length

theorem number_append (a b : List Node) : number (a ++ b) = number a + number b := by
  rw [number, List.filter_append, List.length_append, number, number]

@[simp] theorem tokensAll_nil : tokensAll [] = [] :=
  rfl

theorem tokens_branch (kind : Kind) (children : List Node) :
    (Node.branch kind children).tokens = tokensAll children :=
  rfl

theorem extents_append (first : Nat) (a b : List Node) :
    extents first (a ++ b) = extents first a ++ extents (first + (tokensAll a).length) b := by
  induction a generalizing first with
  | nil => rfl
  | cons node rest ih =>
    rw [List.cons_append, extents, extents, ih, tokensAll_cons, List.length_append, Nat.add_assoc]
    split <;> rfl

theorem shapesAll_append (parent? : Option Kind) (first : Nat) (a b : List Node) :
    shapesAll parent? first (a ++ b)
      = shapesAll parent? first a ++ shapesAll parent? (first + (tokensAll a).length) b := by
  induction a generalizing first with
  | nil => rfl
  | cons node rest ih =>
    rw [List.cons_append, shapesAll, shapesAll, ih, tokensAll_cons, List.length_append,
      Nat.add_assoc, List.append_assoc]

/-- The extents in a row lie between the tokens in front of the row and those behind it. -/
theorem bounds_of_mem_extents {first : Nat} {nodes : List Node} :
    ∀ e ∈ extents first nodes,
      first ≤ e.first ∧ e.first + e.count ≤ first + (tokensAll nodes).length := by
  induction nodes generalizing first with
  | nil => simp [extents]
  | cons node rest ih =>
    have hrest : ∀ e ∈ extents (first + node.tokens.length) rest,
        first ≤ e.first ∧ e.first + e.count ≤ first + (tokensAll (node :: rest)).length := by
      intro e he
      obtain ⟨hstart, hstop⟩ := ih e he
      rw [tokensAll_cons, List.length_append]
      omega
    rw [extents]
    split
    · exact hrest
    · refine List.forall_mem_cons.2 ⟨⟨Nat.le_refl first, ?_⟩, hrest⟩
      show first + node.tokens.length ≤ _
      rw [tokensAll_cons, List.length_append]
      omega

/-- A node with tokens has an extent among those in its row. -/
theorem mem_extents {first : Nat} {before after : List Node} {node : Node} (h : node.tokens ≠ []) :
    ⟨node.kind, first + (tokensAll before).length, node.tokens.length⟩
      ∈ extents first (before ++ node :: after) := by
  rw [extents_append, extents, if_neg h]
  exact List.mem_append_right _ (List.mem_cons_self ..)

theorem exists_of_mem_extents {first : Nat} {nodes : List Node} {e : Extent}
    (h : e ∈ extents first nodes) : ∃ before node after, nodes = before ++ node :: after
      ∧ e = ⟨node.kind, first + (tokensAll before).length, node.tokens.length⟩ := by
  induction nodes generalizing first with
  | nil => cases h
  | cons node rest ih =>
    have hrest (h : e ∈ extents (first + node.tokens.length) rest) :
        ∃ before other after, node :: rest = before ++ other :: after
          ∧ e = ⟨other.kind, first + (tokensAll before).length, other.tokens.length⟩ := by
      obtain ⟨before, other, after, rfl, rfl⟩ := ih h
      refine ⟨node :: before, other, after, rfl, ?_⟩
      rw [tokensAll_cons, List.length_append, Nat.add_assoc]
    rw [extents] at h
    split at h
    · exact hrest h
    · rcases List.mem_cons.1 h with rfl | h
      · exact ⟨[], node, rest, rfl, rfl⟩
      · exact hrest h

mutual

/-- So do the shapes. -/
theorem bounds_of_mem_shapes {parent? : Option Kind} {first : Nat} (node : Node) :
    ∀ s ∈ node.shapes parent? first,
      first ≤ s.extent.first ∧ s.extent.first + s.extent.count ≤ first + node.tokens.length := by
  match node with
  | .leaf kind text => simp [shapes]
  | .error problem text => simp [shapes]
  | .branch kind children =>
    rw [shapes, tokens_branch]
    exact List.forall_mem_cons.2 ⟨⟨Nat.le_refl _, Nat.le_refl _⟩, bounds_of_mem_shapesAll children⟩

theorem bounds_of_mem_shapesAll {parent? : Option Kind} {first : Nat} (nodes : List Node) :
    ∀ s ∈ shapesAll parent? first nodes,
      first ≤ s.extent.first ∧ s.extent.first + s.extent.count ≤
        first + (tokensAll nodes).length := by
  match nodes with
  | [] => simp [shapesAll]
  | node :: rest =>
    rw [shapesAll, tokensAll_cons, List.length_append]
    intro s hs
    rcases List.mem_append.1 hs with hs | hs
    · have hbounds := bounds_of_mem_shapes node s hs
      omega
    · have hbounds := bounds_of_mem_shapesAll rest s hs
      omega

end

/-! ## Cores -/

mutual

/-- Only what has no tokens has no core. -/
theorem core_eq_nil_of_tokens (node : Node) (h : node.tokens = []) : node.core = [] := by
  match node with
  | .leaf kind text =>
    rw [core]
    cases htrivia : kind.isTrivia <;> cases htext : text.isEmpty <;>
      simp_all [tokens, leaves, Node.kind]
  | .error problem text =>
    rw [core]
    cases htext : text.isEmpty <;> simp_all [tokens, leaves, Node.kind, Kind.isTrivia]
  | .branch kind children =>
    rw [core, coreAll_eq_nil_of_tokensAll children h, if_pos rfl]

theorem coreAll_eq_nil_of_tokensAll (nodes : List Node) (h : tokensAll nodes = []) :
    coreAll nodes = [] := by
  match nodes with
  | [] => rfl
  | node :: rest =>
    rw [tokensAll_cons, List.append_eq_nil_iff] at h
    rw [coreAll, core_eq_nil_of_tokens node h.1, coreAll_eq_nil_of_tokensAll rest h.2]
    rfl

end

/-- The core of what has tokens is one node of its kind. -/
theorem exists_core_eq {node : Node} (h : node.tokens ≠ []) :
    ∃ core, node.core = [core] ∧ core.kind = node.kind := by
  have hcore : node.core ≠ [] := by
    intro hnil
    have htokens := tokensAll_core node
    rw [hnil] at htokens
    exact h htokens.symm
  cases node with
  | leaf kind text =>
    rw [core] at hcore ⊢
    split at hcore
    · exact absurd rfl hcore
    · next hkeeps => exact ⟨_, if_neg hkeeps, rfl⟩
  | error problem text =>
    rw [core] at hcore ⊢
    split at hcore
    · exact absurd rfl hcore
    · next hkeeps => exact ⟨_, if_neg hkeeps, rfl⟩
  | branch kind children =>
    rw [core] at hcore ⊢
    split at hcore
    · exact absurd rfl hcore
    · next hkeeps => exact ⟨_, if_neg hkeeps, rfl⟩

/-- The core keeps the extents. -/
theorem extents_coreAll (first : Nat) (nodes : List Node) :
    extents first (coreAll nodes) = extents first nodes := by
  induction nodes generalizing first with
  | nil => rfl
  | cons node rest ih =>
    rw [coreAll, extents_append, tokensAll_core, ih, extents]
    split
    · next hnil =>
      rw [core_eq_nil_of_tokens node hnil]
      rfl
    · next htokens =>
      obtain ⟨core, hcore, hkind⟩ := exists_core_eq htokens
      have hsame : core.tokens = node.tokens := by
        have hall := tokensAll_core node
        rwa [hcore, tokensAll_cons, tokensAll_nil, List.append_nil] at hall
      rw [hcore, extents, hsame, if_neg htokens, hkind]
      rfl

mutual

/-- The core keeps the shapes of the branches that have tokens, and has no others. -/
theorem shapesAll_core (parent? : Option Kind) (first : Nat) (node : Node) :
    shapesAll parent? first node.core
      = (node.shapes parent? first).filter (0 < ·.extent.count) := by
  match node with
  | .leaf kind text =>
    rw [core]
    split <;> rfl
  | .error problem text =>
    rw [core]
    split <;> rfl
  | .branch kind children =>
    have hchildren := shapesAll_coreAll (some kind) first children
    have hextents := extents_coreAll first children
    have htokens := tokensAll_coreAll children
    rw [core, shapes]
    split
    · next hnil =>
      -- without a core there are no tokens, and no shape is kept
      rw [hnil] at hchildren htokens
      rw [List.filter_cons_of_neg (by rw [← htokens]; simp), ← hchildren]
      rfl
    · next hcore =>
      have hcount : 0 < (tokensAll children).length := by
        refine List.length_pos_iff.2 fun hnil => hcore ?_
        exact coreAll_eq_nil_of_tokensAll children hnil
      rw [List.filter_cons_of_pos (by simpa using hcount), shapesAll, shapes, htokens, hextents,
        hchildren]
      simp [shapesAll]

theorem shapesAll_coreAll (parent? : Option Kind) (first : Nat) (nodes : List Node) :
    shapesAll parent? first (coreAll nodes)
      = (shapesAll parent? first nodes).filter (0 < ·.extent.count) := by
  match nodes with
  | [] => rfl
  | node :: rest =>
    rw [coreAll, shapesAll_append, shapesAll_core parent? first node, tokensAll_core,
      shapesAll_coreAll parent? _ rest, shapesAll, List.filter_append]

end

end Node

/-! ## Cursors among the leaves -/

namespace Cursor

/-- A cursor in a tree, between the leaves in front of it and those behind it. -/
inductive Among (tree : Node) : List Node → Cursor → List Node → Prop where
  | root : Among tree [] (root tree) []
  | child {front back before after : List Node} {kind : Kind} {node : Node} {offset index : Nat}
      {above : List Placed} :
      Among tree front ⟨⟨.branch kind (before ++ node :: after), offset, index⟩, above⟩ back →
        Among tree (front ++ Node.leavesAll before)
          ⟨⟨node, offset + Node.sizeAll before, before.length⟩,
            ⟨.branch kind (before ++ node :: after), offset, index⟩ :: above⟩
          (Node.leavesAll after ++ back)

variable {tree : Node} {front back : List Node} {c : Cursor}

/-- What is below the root stands among the leaves. -/
theorem Below.among (h : Below (root tree) c) : ∃ front back, Among tree front c back := by
  induction h with
  | self => exact ⟨[], [], .root⟩
  | @child c child _ hchild ih =>
    obtain ⟨front, back, hamong⟩ := ih
    obtain ⟨before, node, after, hchildren, rfl⟩ := mem_placeAll.1 hchild
    obtain ⟨⟨own, offset, index⟩, above⟩ := c
    obtain ⟨kind, rfl⟩ := exists_branch_of_append hchildren
    rw [Nat.zero_add]
    exact ⟨_, _, hamong.child⟩

theorem below_of_among (h : Among tree front c back) : Below (Cursor.root tree) c := by
  induction h with
  | root => exact .self
  | @child front back before after kind node offset index above _ ih =>
    refine ih.child (mem_placeAll.2 ⟨before, node, after, rfl, ?_⟩)
    rw [Nat.zero_add]

theorem Among.leaves_eq (h : Among tree front c back) :
    tree.leaves = front ++ c.node.leaves ++ back := by
  induction h with
  | root => simp [Cursor.root]
  | child _ ih => simp [ih, Node.leaves, Node.leavesAll, Node.leavesAll_append]

theorem Among.offset_eq (h : Among tree front c back) :
    c.offset = Text.size (front.flatMap Node.ownText) := by
  induction h with
  | root => rfl
  | @child front back before after kind node offset index above _ ih =>
    rw [List.flatMap_append, Text.size_append, ← ih, Node.flatMap_leavesAll, Node.size_textAll]

/-- The shapes below a cursor are among those of the tree. -/
theorem Among.shapes_subset (h : Among tree front c back) :
    ∀ s ∈ c.node.shapes c.parentKind? (Node.number front), s ∈ tree.shapes none 0 := by
  induction h with
  | root => exact fun s hs => hs
  | @child front back before after kind node offset index above _ ih =>
    intro s hs
    refine ih s ?_
    rw [Node.shapes, Node.shapesAll_append, Node.shapesAll]
    rw [Node.number_append] at hs
    exact List.mem_cons_of_mem _ (List.mem_append_right _ (List.mem_append_left _ hs))

/-- The shape of a cursor whose first token has a number. -/
def shape (c : Cursor) (first : Nat) : Shape where
  parent? := c.parentKind?
  extent := { kind := c.kind, first, count := c.node.tokens.length }
  parts := Node.extents first c.node.children

/-- A branch has its shape among those of the tree. -/
theorem Among.shape_mem (h : Among tree front c back) (hbranch : c.node.isLeaf = false) :
    c.shape (Node.number front) ∈ tree.shapes none 0 := by
  obtain ⟨⟨node, offset, index⟩, above⟩ := c
  cases node with
  | leaf kind text => cases hbranch
  | error problem text => cases hbranch
  | branch kind children => exact h.shapes_subset _ (List.mem_cons_self ..)

mutual

/-- Below a cursor every shape is that of a branch. -/
theorem exists_among_of_mem_shapes {s : Shape} (node : Node) {offset index : Nat}
    {above : List Placed} {front back : List Node}
    (h : Among tree front ⟨⟨node, offset, index⟩, above⟩ back)
    (hs : s ∈ node.shapes (parentKind? ⟨⟨node, offset, index⟩, above⟩) (Node.number front)) :
    ∃ front' c back', Among tree front' c back' ∧ c.node.isLeaf = false
      ∧ s = c.shape (Node.number front') := by
  match node with
  | .leaf kind text => cases hs
  | .error problem text => cases hs
  | .branch kind children =>
    rw [Node.shapes] at hs
    rcases List.mem_cons.1 hs with hs | hs
    · exact ⟨front, _, back, h, rfl, hs⟩
    · refine exists_among_of_mem_shapesAll [] children h ?_
      rwa [Node.leavesAll, List.append_nil]

theorem exists_among_of_mem_shapesAll {s : Shape} {kind : Kind} (before nodes : List Node)
    {offset index : Nat} {above : List Placed} {front back : List Node}
    (h : Among tree front ⟨⟨.branch kind (before ++ nodes), offset, index⟩, above⟩ back)
    (hs : s ∈ Node.shapesAll (some kind) (Node.number (front ++ Node.leavesAll before)) nodes) :
    ∃ front' c back', Among tree front' c back' ∧ c.node.isLeaf = false
      ∧ s = c.shape (Node.number front') := by
  match nodes with
  | [] => cases hs
  | node :: rest =>
    rw [Node.shapesAll] at hs
    rcases List.mem_append.1 hs with hs | hs
    · exact exists_among_of_mem_shapes node h.child hs
    · -- the node joins those in front of the rest
      have happend : before ++ node :: rest = (before ++ [node]) ++ rest := by simp
      rw [happend] at h
      refine exists_among_of_mem_shapesAll (before ++ [node]) rest h ?_
      have hleaves : Node.leavesAll (before ++ [node]) = Node.leavesAll before ++ node.leaves := by
        simp [Node.leavesAll_append, Node.leavesAll]
      rwa [hleaves, ← List.append_assoc, Node.number_append _ node.leaves]

end

/-- Every shape of a tree is that of a branch in it. -/
theorem exists_among_of_mem {s : Shape} (hs : s ∈ tree.shapes none 0) :
    ∃ front c back, Among tree front c back ∧ c.node.isLeaf = false
      ∧ s = c.shape (Node.number front) :=
  exists_among_of_mem_shapes tree .root hs

end Cursor

/-- Trees with one core have the same shapes, up to branches without tokens. -/
theorem Node.mem_shapes_of_core_eq {tree tree' : Node} (h : tree'.core = tree.core) {s : Shape}
    (hs : s ∈ tree.shapes none 0) (hcount : 0 < s.extent.count) : s ∈ tree'.shapes none 0 := by
  have hmem : s ∈ (tree.shapes none 0).filter (0 < ·.extent.count) :=
    List.mem_filter.2 ⟨hs, by simpa using hcount⟩
  rw [← shapesAll_core, ← h, shapesAll_core] at hmem
  exact (List.mem_filter.1 hmem).1

end StatementCompletion
