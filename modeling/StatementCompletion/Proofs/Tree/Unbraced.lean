import StatementCompletion.Proofs.Grammar.Guarded
import StatementCompletion.Proofs.Tree.Parts
import StatementCompletion.Proofs.Tree.Shapes
import StatementCompletion.Repair.Body

/-!
# A body without braces

A statement with a header is cut at the parenthesis that closes the header and around its body.
Braces around the body make a block of it: the opening one stands directly behind the parenthesis,
in front of the gap, and the closing one on a line of its own.
-/

namespace StatementCompletion

open Grammar (opensBlock closesBlock)

/-- The line feed in front of a closing brace. -/
def breaksLine : Token :=
  { kind := .whitespace, text := ['\n'] }

/-- A statement with a header, cut at its closing parenthesis and around its body. -/
structure Unbraced where
  kind : Kind
  front : List Node
  closed : Node
  gap : List Node
  body : Node
  behind : List Node

namespace Unbraced

/-- The statement as it is. -/
def whole (b : Unbraced) : Node :=
  .branch b.kind (b.front ++ b.closed :: (b.gap ++ b.body :: b.behind))

/-- The body in braces. -/
def block (b : Unbraced) : Node :=
  .branch .blockStatement
    [.branch .codeBlock (opensBlock.node :: (b.gap ++ [b.body, breaksLine.node, closesBlock.node]))]

/-- The statement with its body in braces. -/
def braced (b : Unbraced) : Node :=
  .branch b.kind (b.front ++ b.closed :: b.block :: b.behind)

/-- The parenthesis is the first that closes, and the body is the first statement behind it
and in front of any `else`. -/
structure IsCut (b : Unbraced) : Prop where
  owns : Repair.ownsUnbracedBody b.kind = true
  front : ∀ node ∈ b.front, node.kind ≠ .rightParen
  closed : b.closed.kind = .rightParen
  gap : ∀ node ∈ b.gap, node.kind.isStatement = false
  branch : b.kind = .ifStatement → ∀ node ∈ b.gap, node.kind ≠ .elseKeyword
  body : b.body.kind.isStatement = true
  sound : b.body.problems = []

end Unbraced

/-! ## In a tree -/

/-- The body is the first statement behind the parenthesis and in front of any `else`. -/
theorem Repair.exists_gap_of_body? {c closed body : Cursor}
    (h : Repair.body? c closed = some body) :
    ∃ gap behind, c.childrenAfter closed.index = gap ++ body :: behind
      ∧ body.kind.isStatement = true
      ∧ (∀ child ∈ gap, child.kind.isStatement = false)
      ∧ (c.kind = .ifStatement → ∀ child ∈ gap, child.kind ≠ .elseKeyword) := by
  unfold Repair.body? at h
  split at h
  · obtain ⟨hstatement, gap, behind, hsplit, hgap⟩ := List.find?_eq_some_iff_append.1 h
    obtain ⟨rest, hrest⟩ := List.takeWhile_prefix (l := c.childrenAfter closed.index)
      fun child => decide (child.kind ≠ .elseKeyword)
    refine ⟨gap, behind ++ rest, ?_, hstatement, fun child hchild => ?_, fun _ child hchild => ?_⟩
    · rw [← hrest, hsplit, List.append_assoc, List.cons_append]
    · simpa using hgap child hchild
    · have hmem : child ∈ (c.childrenAfter closed.index).takeWhile (·.kind ≠ .elseKeyword) :=
        hsplit ▸ List.mem_append_left (body :: behind) hchild
      simpa using List.mem_takeWhile_imp hmem
  · next hkind =>
    obtain ⟨hstatement, gap, behind, hsplit, hgap⟩ := List.find?_eq_some_iff_append.1 h
    exact ⟨gap, behind, hsplit, hstatement, fun child hchild => by simpa using hgap child hchild,
      fun hif => absurd hif hkind⟩

namespace Unbraced

/-- The statement is that of a cursor, and its parts stand where the parenthesis and the body do. -/
structure IsAt (b : Unbraced) (c closed body : Cursor) : Prop where
  whole_eq : c.node = b.whole
  closed_eq : closed.node = b.closed
  body_eq : body.node = b.body
  closed_offset : closed.offset = c.offset + Node.sizeAll b.front
  body_offset : body.offset = closed.stop + Node.sizeAll b.gap

/-- A statement is cut at its first closing parenthesis and around the body that is found. -/
theorem exists_isAt {c closed body : Cursor} (howns : Repair.ownsUnbracedBody c.kind = true)
    (hclosed : c.child? .rightParen = some closed) (hbody : Repair.body? c closed = some body)
    (hsound : body.node.isErroneous = false) : ∃ b : Unbraced, b.IsCut ∧ b.IsAt c closed body := by
  obtain ⟨hparen, front, rest, hchildren, hfront⟩ := List.find?_eq_some_iff_append.1 hclosed
  obtain ⟨gap, behind, hrest, hstatement, hgap, hbranch⟩ := Repair.exists_gap_of_body? hbody
  rw [Cursor.childrenAfter_of_children_eq hchildren] at hrest
  subst hrest
  have hnodes := Cursor.map_node_of_children_eq hchildren
  have hbehind : c.children = (front ++ closed :: gap) ++ body :: behind := by rw [hchildren]; simp
  have hnode : c.node = .branch c.kind c.node.children := by
    have hne : c.node.children ≠ [] := by
      rw [hnodes]
      exact List.append_ne_nil_of_right_ne_nil _ (List.cons_ne_nil _ _)
    obtain ⟨kind, children, heq⟩ := Cursor.exists_branch_of_children hne
    rw [Cursor.kind, heq]
    rfl
  refine ⟨⟨c.kind, front.map (·.node), closed.node, gap.map (·.node), body.node,
    behind.map (·.node)⟩,
    ⟨howns, ?_, of_decide_eq_true hparen, ?_, ?_, hstatement, ?_⟩,
    ⟨?_, rfl, rfl, Cursor.offset_of_children_eq hchildren, ?_⟩⟩
  · rw [List.forall_mem_map]
    exact fun child hchild hkind => by simpa [Cursor.kind, hkind] using hfront child hchild
  · rwa [List.forall_mem_map]
  · intro hkind
    rw [List.forall_mem_map]
    exact hbranch hkind
  · simpa [Node.isErroneous] using hsound
  · rw [hnode, hnodes, whole, List.map_append, List.map_cons]
  · rw [Cursor.offset_of_children_eq hbehind, Cursor.stop, Cursor.offset_of_children_eq hchildren]
    simp only [List.map_append, List.map_cons, Node.sizeAll_append, Node.sizeAll]
    omega

end Unbraced

end StatementCompletion
