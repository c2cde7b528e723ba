import StatementCompletion.Proofs.Tree.Shapes

/-!
# One node in the place of another

`Swapped` says of two rows of trees that they are the same but for one node, which
stands at an offset. A node with a text stands at an offset only once, so one row and
the offset tell the other row.

A row may go on to grow without the node ever standing at the offset: what is there is `Missed`.
-/

namespace StatementCompletion

namespace Node

/-- One row of trees is the other one with a new node for the old one at an offset. -/
inductive Swapped (old new : Node) : Nat → List Node → List Node → Prop where
  | here (rest : List Node) : Swapped old new 0 (old :: rest) (new :: rest)
  | within {offset : Nat} {children children' : List Node} (kind : Kind) (rest : List Node) :
      Swapped old new offset children children' →
        Swapped old new offset (.branch kind children :: rest) (.branch kind children' :: rest)
  | behind {offset : Nat} {rest rest' : List Node} (node : Node) :
      Swapped old new offset rest rest' →
        Swapped old new (node.size + offset) (node :: rest) (node :: rest')

namespace Swapped

variable {old new : Node} {offset : Nat} {row row' : List Node}

theorem symm (h : Swapped old new offset row row') : Swapped new old offset row' row := by
  induction h with
  | here rest => exact .here rest
  | within kind rest _ ih => exact .within kind rest ih
  | behind node _ ih => exact .behind node ih

theorem length_eq (h : Swapped old new offset row row') : row'.length = row.length := by
  induction h with
  | here rest => rfl
  | within kind rest _ _ => rfl
  | behind node _ ih => rw [List.length_cons, List.length_cons, ih]

/-- The old node lies in the row. -/
theorem stop_le (h : Swapped old new offset row row') : offset + old.size ≤ sizeAll row := by
  induction h with
  | here rest => simp only [sizeAll]; omega
  | within kind rest _ ih => simp only [sizeAll, size]; omega
  | behind node _ ih => simp only [sizeAll]; omega

/-- The old node is no larger than the trees of the row. -/
theorem sizeOf_le (h : Swapped old new offset row row') : sizeOf old ≤ sizeOf row := by
  induction h with
  | here rest => simp only [List.cons.sizeOf_spec]; omega
  | within kind rest _ ih => simp only [List.cons.sizeOf_spec, branch.sizeOf_spec]; omega
  | behind node _ ih => simp only [List.cons.sizeOf_spec]; omega

/-! ## Rows in a row -/

theorem append_right (h : Swapped old new offset row row') (more : List Node) :
    Swapped old new offset (row ++ more) (row' ++ more) := by
  induction h with
  | here rest => exact .here _
  | within kind rest h _ => exact .within kind _ h
  | behind node _ ih => exact .behind node ih

theorem append_left (h : Swapped old new offset row row') (front : List Node) :
    Swapped old new (sizeAll front + offset) (front ++ row) (front ++ row') := by
  induction front with
  | nil => simpa [sizeAll] using h
  | cons node front ih =>
    rw [sizeAll, Nat.add_assoc]
    exact .behind node ih

/-- The old node lies in the front or behind it. -/
theorem of_append {front back : List Node} (h : Swapped old new offset (front ++ back) row') :
    (∃ front', Swapped old new offset front front' ∧ row' = front' ++ back)
      ∨ ∃ inside back', offset = sizeAll front + inside ∧ Swapped old new inside back back'
        ∧ row' = front ++ back' := by
  induction front generalizing offset row' with
  | nil => exact .inr ⟨offset, row', (Nat.zero_add _).symm, h, rfl⟩
  | cons node front ih =>
    cases h with
    | here => exact .inl ⟨_, .here front, rfl⟩
    | within kind _ h => exact .inl ⟨_, .within kind front h, rfl⟩
    | behind _ h =>
      rcases ih h with ⟨front', hfront, rfl⟩ | ⟨inside, back', rfl, hback, rfl⟩
      · exact .inl ⟨_, .behind node hfront, rfl⟩
      · exact .inr ⟨inside, back', by rw [sizeAll, Nat.add_assoc], hback, rfl⟩

/-- The end of either row becomes a branch. -/
theorem wrap (h : Swapped old new offset row row') (marker : Nat) (kind : Kind) :
    Swapped old new offset (row.take marker ++ [.branch kind (row.drop marker)])
      (row'.take marker ++ [.branch kind (row'.drop marker)]) := by
  rcases Nat.le_total row.length marker with hle | hle
  · have hle' : row'.length ≤ marker := h.length_eq.trans_le hle
    rw [List.take_of_length_le hle, List.drop_of_length_le hle, List.take_of_length_le hle',
      List.drop_of_length_le hle']
    exact h.append_right _
  · have hfront : (row.take marker).length = marker := List.length_take_of_le hle
    have hrow : row.take marker ++ row.drop marker = row := List.take_append_drop _ _
    generalize row.take marker = front at hfront hrow
    generalize row.drop marker = back at hrow
    subst hrow hfront
    rcases h.of_append with ⟨front', hfront, rfl⟩ | ⟨inside, back', rfl, hback, rfl⟩
    · rw [List.take_left' hfront.length_eq, List.drop_left' hfront.length_eq]
      exact hfront.append_right _
    · rw [List.take_left, List.drop_left]
      exact append_left (.within kind [] hback) _

/-- The last trees of the rows are of one kind if the two nodes are. -/
theorem getLast?_map_kind (h : Swapped old new offset row row') (hkind : new.kind = old.kind) :
    row'.getLast?.map kind = row.getLast?.map kind := by
  induction h with
  | here rest =>
    cases rest with
    | nil => exact congrArg some hkind
    | cons node rest => rfl
  | within kind rest h _ => cases rest <;> rfl
  | @behind offset rest rest' node h ih =>
    cases rest with
    | nil => cases h
    | cons first rest =>
      cases rest' with
      | nil => cases h
      | cons first' rest' => rwa [List.getLast?_cons_cons, List.getLast?_cons_cons]

/-! ## Which row it is -/

/-- What is swapped in a node that is swapped. -/
theorem inside {kind : Kind} {children children' : List Node} {inside : Nat}
    (h : Swapped (.branch kind children) (.branch kind children') offset row row')
    (hin : Swapped old new inside children children') :
    Swapped old new (offset + inside) row row' := by
  induction h with
  | here rest =>
    rw [Nat.zero_add]
    exact .within kind rest hin
  | within kind rest _ ih => exact .within kind rest ih
  | behind node _ ih =>
    rw [Nat.add_assoc]
    exact .behind node ih

/-- What is swapped in a tree and is not the whole of it is swapped among its children. -/
theorem exists_children {kind : Kind} {children : List Node} {tree : Node}
    (h : Swapped old new offset [.branch kind children] [tree])
    (hne : old ≠ .branch kind children) :
    ∃ children', tree = .branch kind children' ∧ Swapped old new offset children children' := by
  cases h with
  | here => exact absurd rfl hne
  | within _ _ h => exact ⟨_, rfl, h⟩
  | behind _ hnone => cases hnone

/-- A node with a text stands at an offset only once. -/
theorem unique {row₁ row₂ : List Node} (hold : 0 < old.size) (h₁ : Swapped old new offset row row₁)
    (h₂ : Swapped old new offset row row₂) : row₁ = row₂ := by
  -- where the two are not in the same place, a size or an offset does not fit
  induction h₁ generalizing row₂ with
  | here rest =>
    generalize hoffset : 0 = offset at h₂
    cases h₂ with
    | here => rfl
    | within kind _ h =>
      have hle := h.sizeOf_le
      simp only [branch.sizeOf_spec] at hle
      omega
    | behind => omega
  | @within offset children children' kind rest h ih =>
    generalize hrow : branch kind children :: rest = row at h₂
    cases h₂ with
    | here =>
      obtain ⟨rfl, -⟩ := List.cons.inj hrow
      have hle := h.sizeOf_le
      simp only [branch.sizeOf_spec] at hle
      omega
    | within kind' rest' h' =>
      obtain ⟨hnode, rfl⟩ := List.cons.inj hrow
      obtain ⟨rfl, rfl⟩ := branch.inj hnode
      rw [ih h']
    | behind node h' =>
      obtain ⟨rfl, rfl⟩ := List.cons.inj hrow
      have hle := h.stop_le
      rw [size] at hle
      omega
  | @behind offset rest rest' node h ih =>
    generalize hoffset : node.size + offset = place at h₂
    cases h₂ with
    | here => omega
    | within kind _ h' =>
      have hle := h'.stop_le
      rw [size] at hoffset
      omega
    | behind _ h' =>
      obtain rfl := Nat.add_left_cancel hoffset
      rw [ih h']

end Swapped

/-! ## Missing an offset -/

/-- The row is filled beyond an offset, where neither a branch nor the token stands
that is the first one of it. -/
structure Missed (node first : Node) (offset : Nat) (row : List Node) : Prop where
  filled : offset < sizeAll row
  absent : ∀ {new row'}, ¬ Swapped node new offset row row'
  unopened : ∀ {front rest}, row = front ++ first :: rest → sizeAll front ≠ offset

section

variable {node first : Node} {offset : Nat} {row more : List Node}

/-- No branch stands in a row of leaves. -/
theorem not_swapped_of_leaves {new : Node} {row' : List Node} (hnode : node.isLeaf = false)
    (hrow : ∀ leaf ∈ row, leaf.isLeaf = true) : ¬ Swapped node new offset row row' := by
  intro h
  induction h with
  | here rest =>
    rw [hrow node List.mem_cons_self] at hnode
    cases hnode
  | within kind rest _ _ => cases hrow _ List.mem_cons_self
  | behind other _ ih => exact ih fun leaf hleaf => hrow leaf (List.mem_cons_of_mem _ hleaf)

/-- No branch stands where a token stands by itself. -/
theorem not_swapped_of_isLeaf {new : Node} {row' : List Node} (hnode : node.isLeaf = false)
    (hsize : 0 < node.size) (hleaf : first.isLeaf = true) (hfirst : 0 < first.size) :
    ¬ Swapped node new (sizeAll row) (row ++ first :: more) row' := by
  intro h
  rcases h.of_append with ⟨front', hfront, -⟩ | ⟨inside, back', hinside, hback, -⟩
  · have hle := hfront.stop_le
    omega
  · obtain rfl : inside = 0 := by omega
    generalize hzero : 0 = inside at hback
    cases hback with
    | here => rw [hleaf] at hnode; cases hnode
    | within => cases hleaf
    | behind => omega

namespace Missed

theorem add (h : Missed node first offset row) (more : List Node) :
    Missed node first offset (row ++ more) := by
  have hfilled := h.filled
  refine ⟨?_, fun hswapped => ?_, fun {front rest} hrow hfront => ?_⟩
  · rw [sizeAll_append]
    omega
  · rcases hswapped.of_append with ⟨front', hfront, -⟩ | ⟨inside, back', rfl, -⟩
    · exact h.absent hfront
    · omega
  · rcases List.append_eq_append_iff.1 hrow with ⟨middle, rfl, -⟩ | ⟨middle, rfl, hmore⟩
    · rw [sizeAll_append] at hfront
      omega
    · cases middle with
      | nil =>
        rw [List.append_nil] at hfilled
        omega
      | cons other middle =>
        obtain ⟨rfl, -⟩ := List.cons.inj hmore
        exact h.unopened rfl hfront

/-- A mark covers no text. -/
theorem mark {marked : Node} (hnode : node.isLeaf = false) (hfirst : 0 < first.size)
    (hleaf : marked.isLeaf = true)
    (hmarked : marked.size = 0) (h : Missed node first offset (row ++ more)) :
    Missed node first offset (row ++ marked :: more) := by
  refine ⟨?_, fun hswapped => ?_, fun {front rest} hrow hfront => ?_⟩
  · have hfilled := h.filled
    rw [sizeAll_append] at hfilled ⊢
    rwa [sizeAll, hmarked, Nat.zero_add]
  · rcases hswapped.of_append with ⟨front', hfront, -⟩ | ⟨inside, back', rfl, hback, -⟩
    · exact h.absent (hfront.append_right more)
    · cases hback with
      | here => rw [hleaf] at hnode; cases hnode
      | within => cases hleaf
      | behind _ hmore =>
        rw [hmarked, Nat.zero_add] at h
        exact h.absent (hmore.append_left row)
  · rcases Cursor.split_cases hrow with ⟨-, rfl, -⟩ | ⟨middle, rfl, rfl⟩ | ⟨middle, rfl, rfl⟩
    · omega
    · exact h.unopened (by rw [List.append_assoc, List.cons_append]) hfront
    · refine h.unopened (List.append_assoc row middle _).symm ?_
      rw [← hfront, sizeAll_append, sizeAll_append, sizeAll, hmarked, Nat.zero_add]

/-- A branch of other nodes is none that begins with the token. -/
theorem wrap {kind kind' : Kind} {rest : List Node} {marker : Nat} (hleaf : first.isLeaf = true)
    (h : Missed (.branch kind (first :: rest)) first offset (row ++ more)) :
    Missed (.branch kind (first :: rest)) first offset
      (row.take marker ++ .branch kind' (row.drop marker) :: more) := by
  have hrow : row.take marker ++ row.drop marker = row := List.take_append_drop _ _
  generalize row.take marker = front at hrow ⊢
  generalize row.drop marker = back at hrow ⊢
  subst hrow
  rw [List.append_assoc] at h
  refine ⟨?_, fun hswapped => ?_, fun {front' rest'} hrow hfront => ?_⟩
  · have hfilled := h.filled
    rw [sizeAll_append, sizeAll_append] at hfilled
    rwa [sizeAll_append, sizeAll, size]
  · rcases hswapped.of_append with ⟨front', hfront, -⟩ | ⟨inside, back', rfl, hback, -⟩
    · exact h.absent (hfront.append_right _)
    · cases hback with
      | here => exact h.unopened rfl rfl
      | within _ _ hin => exact h.absent ((hin.append_right more).append_left front)
      | behind _ hmore => exact h.absent ((hmore.append_left back).append_left front)
  · rcases Cursor.split_cases hrow with ⟨-, rfl, -⟩ | ⟨middle, rfl, rfl⟩ | ⟨middle, rfl, rfl⟩
    · cases hleaf
    · exact h.unopened (by rw [List.append_assoc, List.cons_append]) hfront
    · have hrow : front ++ (back ++ (middle ++ first :: rest')) = front ++ (back ++ middle) ++ first
          :: rest' := by
        simp only [List.append_assoc]
      refine h.unopened hrow ?_
      rw [← hfront]
      simp only [sizeAll_append, sizeAll, size]

/-- Another leaf stands at the offset. -/
theorem of_leaf {other : Node} (hnode : node.isLeaf = false) (hsize : 0 < node.size)
    (hfirst : 0 < first.size)
    (hleaf : other.isLeaf = true) (hother : 0 < other.size) (hne : other ≠ first) :
    Missed node first (sizeAll row) (row ++ [other]) := by
  refine ⟨?_, not_swapped_of_isLeaf hnode hsize hleaf hother, fun {front rest} hrow hfront => ?_⟩
  · simp only [sizeAll_append, sizeAll]
    omega
  · rcases Cursor.split_cases hrow with ⟨-, rfl, -⟩ | ⟨middle, rfl, -⟩ | ⟨middle, rfl, -⟩
    · exact hne rfl
    all_goals
      simp only [sizeAll_append, sizeAll] at hfront
      omega

/-- The token stands at the offset in another branch. -/
theorem of_branch {back rest : List Node} {kind : Kind} (hnode : node.isLeaf = false)
    (hsize : 0 < node.size) (hleaf : first.isLeaf = true) (hfirst : 0 < first.size)
    (hne : sizeAll back = 0 → .branch kind (back ++ first :: rest) ≠ node) :
    Missed node first (sizeAll (row ++ back)) (row ++ [.branch kind (back ++ first :: rest)]) := by
  refine ⟨?_, fun hswapped => ?_, fun {front rest'} hrow hfront => ?_⟩
  · simp only [sizeAll_append, sizeAll, size]
    omega
  · rcases hswapped.of_append with ⟨front', hfront, -⟩ | ⟨inside, back', hinside, hback, -⟩
    · have hle := hfront.stop_le
      rw [sizeAll_append] at hle
      omega
    · obtain rfl : sizeAll back = inside := by
        rw [sizeAll_append] at hinside
        exact Nat.add_left_cancel hinside
      generalize hplace : sizeAll back = place at hback
      cases hback with
      | here => exact hne hplace rfl
      | within _ _ hin =>
        subst hplace
        exact not_swapped_of_isLeaf hnode hsize hleaf hfirst hin
      | behind _ hnone => cases hnone
  · rcases Cursor.split_cases hrow with ⟨-, hbranch, -⟩ | ⟨middle, rfl, -⟩ | ⟨middle, -, hnone⟩
    · rw [← hbranch] at hleaf
      cases hleaf
    · simp only [sizeAll_append, sizeAll] at hfront
      omega
    · exact List.append_ne_nil_of_right_ne_nil middle (List.cons_ne_nil _ _) hnone.symm

end Missed

end

end Node

/-! ## In a tree -/

namespace Cursor

open Node (Swapped)

/-- The tree that is made by putting a node among the children of the nodes above it. -/
def regrow (index : Nat) (node : Node) : List Placed → Node
  | [] => node
  | placed :: above =>
    regrow placed.index (.branch placed.node.kind (placed.node.children.set index node)) above

/-- The tree with another node in this place. -/
def graft (c : Cursor) (node : Node) : Node :=
  regrow c.index node c.above

variable {tree old new : Node} {c : Cursor} {offset : Nat} {row row' : List Node}

/-- The tree with another node in a place is the same but for that node. -/
theorem Below.swapped_graft (h : Below (root tree) c) (new : Node) :
    Swapped c.node new c.offset [tree] [c.graft new] := by
  induction h generalizing new with
  | self => exact .here []
  | @child c child _ hchild ih =>
    obtain ⟨front, node, back, hchildren, rfl⟩ := mem_placeAll.1 hchild
    have hne : c.node.children ≠ [] := by
      rw [hchildren]
      exact List.append_ne_nil_of_right_ne_nil front (List.cons_ne_nil _ _)
    obtain ⟨kind, children, hnode⟩ := exists_branch_of_children hne
    have hset : children.set front.length new = front ++ new :: back := by
      rw [hnode] at hchildren
      obtain rfl : children = front ++ node :: back := hchildren
      rw [List.set_append_right _ _ le_rfl, Nat.sub_self, List.set_cons_zero]
    have houter := ih (.branch kind (front ++ new :: back))
    have hinner : Swapped node new (Node.sizeAll front + 0) (front ++ node :: back)
        (front ++ new :: back) :=
      (Swapped.here back).append_left front
    rw [← hchildren] at hinner
    rw [hnode] at houter hinner
    have hgraft : graft
        ⟨⟨node, c.offset + Node.sizeAll front, 0 + front.length⟩, c.toPlaced :: c.above⟩ new
        = c.graft (.branch kind (front ++ new :: back)) := by
      rw [graft, regrow, Nat.zero_add, hnode, Node.children, hset]
      rfl
    rw [hgraft]
    exact houter.inside hinner

/-- A node that is swapped has a place in the tree. -/
theorem exists_below_of_swapped (h : Swapped old new offset row row') (above : List Placed)
    (index start : Nat) :
    ∃ top ∈ placeAll above index start row, ∃ c, Below top c ∧ c.node = old
      ∧ c.offset = start + offset := by
  induction h generalizing above index start with
  | here rest => exact ⟨_, List.mem_cons_self, _, .self, rfl, rfl⟩
  | within kind rest _ ih =>
    obtain ⟨top, htop, c, hc, hnode, hoffset⟩ :=
      ih (⟨.branch kind _, start, index⟩ :: above) 0 start
    exact ⟨_, List.mem_cons_self, c, (Below.self.child htop).trans hc, hnode, hoffset⟩
  | behind node _ ih =>
    obtain ⟨top, htop, c, hc, hnode, hoffset⟩ := ih above (index + 1) (start + node.size)
    exact ⟨top, List.mem_cons_of_mem _ htop, c, hc, hnode, by rw [hoffset, Nat.add_assoc]⟩

end Cursor

end StatementCompletion
