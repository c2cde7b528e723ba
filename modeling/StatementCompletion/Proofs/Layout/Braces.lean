import StatementCompletion.Proofs.Layout.Depth
import StatementCompletion.Proofs.Tree.Tidy

/-!
# Indentation depth between braces

What is above a block counts the same for all of it, since no brace of another construct stands
inside. The block itself counts for what is between its braces and not for the braces, so these have
one depth, and everything between them is deeper.
-/

namespace StatementCompletion.Cursor

open StatementCompletion.Layout

variable {kind : SourceKind} {text : Text} {top c child opened closed leaf : Cursor}
    {position other : Nat}

/-- A position is on the text of a node. -/
def Covers (c : Cursor) (position : Nat) : Prop :=
  c.offset ≤ position ∧ position < c.stop

theorem Covers.parent (h : child.Covers position) (hchild : child ∈ c.children) :
    c.Covers position := by
  obtain ⟨hoffset, hstop⟩ := bounds_of_mem_children hchild
  exact ⟨hoffset.trans h.1, h.2.trans_le hstop⟩

/-! ## Above a node -/

/-- A bracket stands in front of its sibling or behind it. -/
theorem apart_of_isBracket (htidy : ∀ node ∈ c.node.children, node.Tidy)
    (hchild : child ∈ c.children)
    (hkind : child.kind.isBracket = false) {bracket : Cursor} (hmem : bracket ∈ c.children)
    (hbracket : bracket.kind.isBracket = true) :
    bracket.offset < child.offset ∨ child.stop ≤ bracket.offset := by
  obtain ⟨-, -, -, hsize⟩ := (htidy _ (node_mem_of_mem_children hmem)).leaves_of_isBracket hbracket
  have hstop : bracket.stop = bracket.offset + bracket.node.size := rfl
  rcases eq_or_apart_of_mem_children hmem hchild with rfl | happart
  · rw [hbracket] at hkind
    cases hkind
  · omega

/-- The positions on a child are all between the braces of its parent, or none is. -/
theorem isBetweenBraces_eq_of_covers (htidy : ∀ node ∈ c.node.children, node.Tidy)
    (hchild : child ∈ c.children)
    (hkind : child.kind.isBracket = false) (h : child.Covers position)
    (hother : child.Covers other) :
    isBetweenBraces c position = isBetweenBraces c other := by
  obtain ⟨hleft, hright⟩ := h
  obtain ⟨hleft', hright'⟩ := hother
  have hopened : (c.child? .leftBrace).any (·.offset < position)
      = (c.child? .leftBrace).any (·.offset < other) := by
    cases hbrace : c.child? .leftBrace with
    | none => rfl
    | some brace =>
      have happart := apart_of_isBracket htidy hchild hkind (mem_of_child? hbrace) (by
        rw [kind_of_child? hbrace]
        rfl)
      rw [Option.any_some, Option.any_some, decide_eq_decide]
      omega
  have hclosed : (c.lastChild? .rightBrace).all (position < ·.offset)
      = (c.lastChild? .rightBrace).all (other < ·.offset) := by
    cases hbrace : c.lastChild? .rightBrace with
    | none => rfl
    | some brace =>
      have happart := apart_of_isBracket htidy hchild hkind (mem_of_lastChild? hbrace) (by
        rw [kind_of_lastChild? hbrace]
        rfl)
      rw [Option.all_some, Option.all_some, decide_eq_decide]
      omega
  rw [isBetweenBraces, isBetweenBraces, hopened, hclosed]

/-- What is above a node counts the same for every position on it. -/
theorem depthBelow_eq_of_covers (h : Below (root (Node.ofText kind text)) c)
    (hkind : c.kind.isBracket = false) (hcovers : c.Covers position) (hother : c.Covers other) :
    depthBelow position c c.ancestors = depthBelow other c c.ancestors := by
  induction h with
  | self => rfl
  | @child c child hc hchild ih =>
    have hbraces :=
      isBetweenBraces_eq_of_covers hc.tidy_children_of_ofText hchild hkind hcovers hother
    have hc' := hc.isBracket_of_ofText (List.ne_nil_of_mem (node_mem_of_mem_children hchild))
    rw [ancestors_of_mem_children hchild, depthBelow, depthBelow, levels, levels, hbraces,
      ih hc' (hcovers.parent hchild) (hother.parent hchild)]

/-- Below a node the depth is at least what the node and those above it count. -/
theorem Below.exists_le_depthBelow (h : Below c leaf) (hne : leaf ≠ c) (position : Nat) :
    ∃ child ∈ c.children,
      levels position c child + depthBelow position c c.ancestors ≤
        depthBelow position leaf leaf.ancestors := by
  induction h with
  | self => exact absurd rfl hne
  | @child d child hd hchild ih =>
    rw [ancestors_of_mem_children hchild, depthBelow]
    by_cases hsame : d = c
    · subst hsame
      exact ⟨child, hchild, Nat.le_refl _⟩
    · obtain ⟨first, hfirst, hle⟩ := ih hsame
      exact ⟨first, hfirst, hle.trans (Nat.le_add_left _ _)⟩

/-! ## Between the braces -/

/-- A bracket is indented by no more than the braces around it. -/
theorem levels_of_isBracket {brace : Cursor} (hbrace : brace.kind.isBracket = true)
    (hbetween : isBetweenBraces c position = false) : levels position c brace = 0 := by
  have hstatement : brace.kind.isStatement = false := by
    revert hbrace
    cases brace.kind <;> decide
  rw [levels, hbetween, isUnbracedBody, isBelowLabel, hstatement]
  simp

/-- A brace has the depth of what is above its parent. -/
theorem depth_of_isBracket {brace : Cursor} (hmem : brace ∈ c.children)
    (hbrace : brace.kind.isBracket = true) (hbetween : isBetweenBraces c brace.offset = false) :
    depth brace = depthBelow brace.offset c c.ancestors := by
  rw [depth, ancestors_of_mem_children hmem, depthBelow,
    levels_of_isBracket hbrace hbetween, Nat.zero_add]

/-- Two braces that delimit a block or the body of a class. -/
structure Delimits (c opened closed : Cursor) : Prop where
  kind : c.kind = .codeBlock ∨ c.kind = .classDeclaration
  opened : c.child? .leftBrace = some opened
  closed : c.lastChild? .rightBrace = some closed

theorem Delimits.isBetweenBraces_iff (h : Delimits c opened closed) (position : Nat) :
    isBetweenBraces c position = true ↔ opened.offset < position ∧ position < closed.offset := by
  have hkind : (c.kind = .codeBlock || c.kind = .classDeclaration) = true := by simpa using h.kind
  rw [isBetweenBraces, hkind, h.opened, h.closed]
  simp

/-- **Braces of a block or a class have one depth, and what is between them is deeper.** -/
theorem Delimits.depth_eq_and_lt (hc : Below (root (Node.ofText kind text)) c)
    (h : Delimits c opened closed) :
    depth closed = depth opened
      ∧ ∀ leaf, Below (root (Node.ofText kind text)) leaf →
        leaf.node.isLeaf = true → 0 < leaf.node.size →
        opened.offset < leaf.offset → leaf.offset < closed.offset → depth opened < depth leaf := by
  have hopened := mem_of_child? h.opened
  have hclosed := mem_of_lastChild? h.closed
  have hopenedKind : opened.kind.isBracket = true := by rw [kind_of_child? h.opened]; rfl
  have hclosedKind : closed.kind.isBracket = true := by rw [kind_of_lastChild? h.closed]; rfl
  have hkind := hc.isBracket_of_ofText (List.ne_nil_of_mem (node_mem_of_mem_children hopened))
  have hcovers {brace : Cursor} (hmem : brace ∈ c.children) (hbrace : brace.kind.isBracket = true) :
      c.Covers brace.offset := by
    obtain ⟨-, -, -, hsize⟩ :=
      (hc.tidy_children_of_ofText _ (node_mem_of_mem_children hmem)).leaves_of_isBracket hbrace
    exact Covers.parent ⟨Nat.le_refl _, Nat.lt_add_of_pos_right hsize⟩ hmem
  have hdepth : depth opened = depthBelow opened.offset c c.ancestors :=
    depth_of_isBracket hopened hopenedKind (by
      rw [← Bool.not_eq_true, h.isBetweenBraces_iff]
      exact fun hboth => Nat.lt_irrefl _ hboth.1)
  refine ⟨?_, fun leaf hleaf hisLeaf hsize hafter hbefore => ?_⟩
  · rw [hdepth, depth_of_isBracket hclosed hclosedKind (by
      rw [← Bool.not_eq_true, h.isBetweenBraces_iff]
      exact fun hboth => Nat.lt_irrefl _ hboth.2)]
    exact depthBelow_eq_of_covers hc hkind (hcovers hclosed hclosedKind)
      (hcovers hopened hopenedKind)
  · -- a leaf between the braces is below the block
    have hon : c.Covers leaf.offset := by
      obtain ⟨hfirst, -⟩ := hcovers hopened hopenedKind
      obtain ⟨-, hlast⟩ := hcovers hclosed hclosedKind
      exact ⟨hfirst.trans hafter.le, hbefore.trans hlast⟩
    have hne : leaf ≠ c := by
      rintro rfl
      rw [children_of_isLeaf hisLeaf] at hopened
      cases hopened
    have hbelow : Below c leaf :=
      (hc.chain hleaf hon ⟨Nat.le_refl _, Nat.lt_add_of_pos_right hsize⟩).resolve_right
        fun hreverse => hne (hreverse.eq_of_isLeaf hisLeaf).symm
    obtain ⟨child, -, hle⟩ := hbelow.exists_le_depthBelow hne leaf.offset
    have hlevels : 1 ≤ levels leaf.offset c child := by
      rw [levels, (h.isBetweenBraces_iff leaf.offset).2 ⟨hafter, hbefore⟩]
      simp only [Bool.toNat_true]
      omega
    rw [hdepth, depthBelow_eq_of_covers hc hkind (hcovers hopened hopenedKind) hon, depth]
    omega

end StatementCompletion.Cursor
