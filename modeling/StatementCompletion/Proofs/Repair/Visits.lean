import StatementCompletion.Proofs.Repair.Target
import StatementCompletion.Proofs.Tree.Spans

/-!
# The nodes that the repairs visit

The repairs visit a target twice at the end, and in front of it, each once and before the nodes
above it, what the walk from the target meets.  `Passes n top c` says what is on the way down to a
node: nothing that is skipped, and `n` nodes that stop the walk.  The walk enters the first of these
and no other, so it meets a node exactly if at most one is on the way.

A statement, a class or a method stops the walk, so this one is the target itself, and nothing in a
nested statement, class, method or block is visited.  A field, an initializer and an enum constant
do not, and the walk from one of them enters a block, class or method below it as well.
-/

namespace StatementCompletion

namespace Cursor

variable {top c d child : Cursor}

/-! ## Steps and children -/

/-- A step on the way down from a node is the first one, or on the way from
the child that it leads to. -/
theorem Below.step_cases {p q : Cursor} (h : Below child c) (hchild : child ∈ top.children)
    (hp : Below top p)
    (hq : q ∈ p.children) (hbelow : Below q c) : (p = top ∧ q = child) ∨ Below child p := by
  rcases hp.eq_or_child with rfl | ⟨other, hother, hp⟩
  · exact .inl ⟨rfl, hbelow.child_unique hq hchild h⟩
  · rw [← ((hp.child hq).trans hbelow).child_unique hother hchild h]
    exact .inr hp

theorem sizeOf_node_lt_of_mem_children (h : child ∈ c.children) :
    sizeOf child.node < sizeOf c.node := by
  obtain ⟨front, node, back, hchildren, rfl⟩ := mem_placeAll.1 h
  have hne : c.node.children ≠ [] := by simp [hchildren]
  obtain ⟨kind, children, hbranch⟩ := exists_branch_of_children hne
  rw [hbranch, Node.children] at hchildren
  have hlt := List.sizeOf_lt_of_mem (show node ∈ front ++ node :: back by simp)
  rw [hbranch, Node.branch.sizeOf_spec, hchildren]
  exact hlt.trans (by omega)

theorem pairwise_index_placeAll (above : List Placed) (index offset : Nat) (nodes : List Node) :
    (placeAll above index offset nodes).Pairwise fun a b => a.index < b.index := by
  induction nodes generalizing index offset with
  | nil => exact .nil
  | cons node rest ih =>
    refine .cons (fun child hchild => ?_) (ih _ _)
    obtain ⟨front, _, _, -, rfl⟩ := mem_placeAll.1 hchild
    exact Nat.lt_of_lt_of_le (Nat.lt_succ_self _) (Nat.le_add_right _ _)

theorem nodup_children (c : Cursor) : c.children.Nodup :=
  (pairwise_index_placeAll _ _ _ _).imp fun hlt => by rintro rfl; exact Nat.lt_irrefl _ hlt

/-- What holds of a node if it holds of its children holds of all nodes. -/
@[elab_as_elim]
theorem children_induction {motive : Cursor → Prop}
    (step : ∀ c, (∀ child ∈ c.children, motive child) → motive c) (c : Cursor) : motive c :=
  step c fun child _ => children_induction step child
termination_by sizeOf c.node
decreasing_by exact sizeOf_node_lt_of_mem_children ‹_›

end Cursor

namespace Target

open Cursor (Below)

variable {kind : Kind} {mayEnter : Bool} {top child target c d : Cursor}

/-! ## What the walk meets -/

/-- What the walk meets from a node on. -/
def walkFrom (mayEnter : Bool) (c : Cursor) : List Cursor :=
  walk mayEnter c.above c.index c.offset c.node

/-- The walk through a row meets what it meets from the nodes that it does not skip. -/
theorem walkAll_eq_flatMap (above : List Placed) (index offset : Nat) (nodes : List Node) :
    walkAll kind mayEnter above index offset nodes
      = ((Cursor.placeAll above index offset nodes).filter
          fun child => !isSkipped kind child.kind).flatMap (walkFrom mayEnter) := by
  induction nodes generalizing index offset with
  | nil => rfl
  | cons node rest ih =>
    rw [walkAll, Cursor.placeAll, ih, List.filter_cons]
    cases hskip : isSkipped kind node.kind with
    | true => simp [Cursor.kind, hskip]
    | false => simp [Cursor.kind, hskip, walkFrom]

/-- The walk meets a node, and unless it stops there what it meets from the children. -/
theorem walkFrom_eq (mayEnter : Bool) (top : Cursor) :
    walkFrom mayEnter top = top ::
      if stopsWalk top.kind && !mayEnter then []
      else (top.children.filter fun child => !isSkipped top.kind child.kind).flatMap
        (walkFrom (mayEnter && !stopsWalk top.kind)) := by
  obtain ⟨⟨node, offset, index⟩, above⟩ := top
  cases node with
  | leaf kind text => simp [walkFrom, walk, Cursor.children, Node.children, Cursor.placeAll]
  | error problem text => simp [walkFrom, walk, Cursor.children, Node.children, Cursor.placeAll]
  | branch kind children =>
    rw [walkFrom, walk]
    simp only [walkAll_eq_flatMap]
    cases hstops : stopsWalk kind <;> cases mayEnter <;>
      simp [Cursor.kind, Node.kind, Cursor.children, Node.children, hstops]

/-! ## What is on the way -/

/-- Nothing on the way from one node down to another is skipped, and `n` nodes above
the other one stop the walk. -/
inductive Passes : Nat → Cursor → Cursor → Prop where
  | self (c : Cursor) : Passes 0 c c
  | child {n : Nat} {top child c : Cursor} : child ∈ top.children →
      isSkipped top.kind child.kind = false → Passes n child c →
      Passes (n + (stopsWalk top.kind).toNat) top c

theorem Passes.isBelow {n : Nat} (h : Passes n top c) : Below top c := by
  induction h with
  | self => exact .self
  | child hchild _ _ ih => exact (Below.self.child hchild).trans ih

theorem Passes.mem_walkFrom {n : Nat} (h : Passes n top c) (hn : n ≤ mayEnter.toNat) :
    c ∈ walkFrom mayEnter top := by
  induction h generalizing mayEnter with
  | self => rw [walkFrom_eq]; exact List.mem_cons_self
  | @child n top child c hchild hskip _ ih =>
    have henters : (stopsWalk top.kind && !mayEnter) = false
        ∧ n ≤ (mayEnter && !stopsWalk top.kind).toNat := by
      revert hn
      cases stopsWalk top.kind <;> cases mayEnter <;> simp
    rw [walkFrom_eq, henters.1]
    refine List.mem_cons_of_mem _ (List.mem_flatMap.2 ⟨child, ?_, ih henters.2⟩)
    exact List.mem_filter.2 ⟨hchild, by rw [hskip]; rfl⟩

/-- The walk meets the nodes on the way to which it may enter all that stops it. -/
theorem exists_passes (h : c ∈ walkFrom mayEnter top) : ∃ n ≤ mayEnter.toNat, Passes n top c := by
  induction top using Cursor.children_induction generalizing mayEnter with
  | step top ih =>
    rw [walkFrom_eq] at h
    rcases List.mem_cons.1 h with rfl | h
    · exact ⟨0, Nat.zero_le _, .self _⟩
    · split at h
      · cases h
      · next henters =>
        obtain ⟨child, hchild, hc⟩ := List.mem_flatMap.1 h
        obtain ⟨hchild, hskip⟩ := List.mem_filter.1 hchild
        obtain ⟨n, hn, hpasses⟩ := ih child hchild hc
        refine ⟨_, ?_, .child hchild (by simpa using hskip) hpasses⟩
        revert hn henters
        cases stopsWalk top.kind <;> cases mayEnter <;> simp

theorem below_of_mem_walkFrom (h : c ∈ walkFrom mayEnter top) : Below top c :=
  Cursor.below_of_mem_walk _ _ _ _ _ .self c h

/-! ## The order -/

theorem pairwise_walkFrom (mayEnter : Bool) (top : Cursor) :
    (walkFrom mayEnter top).Pairwise fun c d => ¬ Below d c := by
  induction top using Cursor.children_induction generalizing mayEnter with
  | step top ih =>
    rw [walkFrom_eq, List.pairwise_cons]
    refine ⟨fun d hd habove => ?_, ?_⟩
    · split at hd
      · cases hd
      · obtain ⟨child, hchild, hd⟩ := List.mem_flatMap.1 hd
        have hlt := (below_of_mem_walkFrom hd).length_above_lt (List.mem_filter.1 hchild).1
        have hle := habove.length_above_le
        omega
    · split
      · exact .nil
      · refine List.pairwise_flatMap.2 ⟨fun child hchild =>
          ih child (List.mem_filter.1 hchild).1 _, ?_⟩
        refine (top.nodup_children.sublist List.filter_sublist).imp_of_mem ?_
        intro child other hchild hother hne c hc d hd hbelow
        exact hne (((below_of_mem_walkFrom hc).child_unique (List.mem_filter.1 hchild).1
          (List.mem_filter.1 hother).1) ((below_of_mem_walkFrom hd).trans hbelow))

/-! ## What is visited -/

/-- What is visited in front of the target itself. -/
def partsOf (target : Cursor) : List Cursor :=
  (walkFrom true target).tail.reverse

theorem walkFrom_eq_partsOf (target : Cursor) :
    walkFrom true target = target :: (partsOf target).reverse := by
  rw [partsOf, List.reverse_reverse, walkFrom_eq, List.tail_cons]

theorem visits_eq (target : Cursor) : visits target = partsOf target ++ [target, target] := by
  rw [visits, ← walkFrom, walkFrom_eq_partsOf, List.reverse_cons, List.reverse_reverse,
    List.append_assoc]
  rfl

/-- What is visited comes before the nodes above it, and the parts are visited once. -/
theorem pairwise_partsOf (target : Cursor) :
    (partsOf target ++ [target]).Pairwise fun c d => ¬ Below c d := by
  have hwalk := pairwise_walkFrom true target
  rwa [walkFrom_eq_partsOf, ← List.pairwise_reverse, List.reverse_cons,
    List.reverse_reverse] at hwalk

theorem mem_partsOf_iff : c ∈ partsOf target ↔ c ≠ target ∧ ∃ n ≤ 1, Passes n target c := by
  have hwalk {d : Cursor} : d ∈ walkFrom true target ↔ d = target ∨ d ∈ partsOf target := by
    rw [walkFrom_eq_partsOf, List.mem_cons, List.mem_reverse]
  constructor
  · intro hc
    refine ⟨?_, exists_passes (hwalk.2 (.inr hc))⟩
    rintro rfl
    exact (List.pairwise_append.1 (pairwise_partsOf c)).2.2 c hc c (List.mem_singleton_self c) .self
  · rintro ⟨hne, n, hn, hpasses⟩
    have hc : c ∈ walkFrom true target := hpasses.mem_walkFrom hn
    exact (hwalk.1 hc).resolve_left hne

/-- A part is at or below a child. -/
theorem exists_child_of_mem_partsOf (h : c ∈ partsOf target) :
    ∃ child ∈ target.children, Below child c ∧ Below target c := by
  obtain ⟨hne, n, -, hpasses⟩ := mem_partsOf_iff.1 h
  obtain ⟨child, hchild, hbelow⟩ := hpasses.isBelow.eq_or_child.resolve_left hne
  exact ⟨child, hchild, hbelow, hpasses.isBelow⟩

/-- **The repairs visit a target twice at the end, and before it the parts that the walk from it
meets.** Each of these is visited once, before the nodes above it. -/
theorem visits_shape (target : Cursor) :
    ∃ parts, visits target = parts ++ [target, target]
      ∧ (parts ++ [target]).Pairwise (fun c d => ¬ Below c d)
      ∧ ∀ c, c ∈ parts ↔ c ≠ target ∧ ∃ n ≤ 1, Passes n target c :=
  ⟨partsOf target, visits_eq target, pairwise_partsOf target, fun _ => mem_partsOf_iff⟩

/-! ## Targets that stop the walk -/

/-- Nothing on the way stops the walk if it does not stop and skips nothing at any step. -/
theorem passes_zero_iff :
    Passes 0 top c ↔ Below top c ∧ ∀ p q, Below top p → q ∈ p.children → Below q c →
    isSkipped p.kind q.kind = false ∧ stopsWalk p.kind = false := by
  constructor
  · intro h
    refine ⟨h.isBelow, ?_⟩
    generalize hn : 0 = n at h
    induction h with
    | self c => exact fun p q hp hq hbelow => absurd hbelow (hp.not_below_child hq)
    | @child n top child c hchild hskip hpasses ih =>
      have hzero : 0 = n ∧ stopsWalk top.kind = false := by
        revert hn
        cases stopsWalk top.kind <;> simp
      intro p q hp hq hbelow
      rcases hpasses.isBelow.step_cases hchild hp hq hbelow with ⟨rfl, rfl⟩ | hp
      · exact ⟨hskip, hzero.2⟩
      · exact ih hzero.1 p q hp hq hbelow
  · rintro ⟨hbelow, hway⟩
    induction top using Cursor.children_induction with
    | step top ih =>
      rcases hbelow.eq_or_child with rfl | ⟨child, hchild, hc⟩
      · exact .self _
      · obtain ⟨hskip, hstops⟩ := hway top child .self hchild hc
        have hpasses := Passes.child hchild hskip <| ih child hchild hc fun p q hp =>
          hway p q ((Below.self.child hchild).trans hp)
        rwa [hstops] at hpasses

/-- From a target that stops the walk it goes on to what is below a child without passing
anything else that stops it. -/
theorem passes_iff_of_stopsWalk (h : stopsWalk target.kind = true) (hne : c ≠ target) :
    (∃ n ≤ 1, Passes n target c) ↔
      ∃ child ∈ target.children, isSkipped target.kind child.kind = false ∧ Passes 0 child c := by
  constructor
  · rintro ⟨n, hn, hpasses⟩
    cases hpasses with
    | self => exact absurd rfl hne
    | @child n _ child _ hchild hskip hpasses =>
      rw [h] at hn
      obtain rfl : n = 0 := Nat.le_zero.1 (Nat.le_of_succ_le_succ hn)
      exact ⟨child, hchild, hskip, hpasses⟩
  · rintro ⟨child, hchild, hskip, hpasses⟩
    have hway := Passes.child hchild hskip hpasses
    rw [h] at hway
    exact ⟨1, Nat.le_refl _, hway⟩

theorem mem_partsOf_of_child (h : stopsWalk target.kind = true) (hchild : child ∈ target.children)
    (hskip : isSkipped target.kind child.kind = false) (hpasses : Passes 0 child c) :
    c ∈ partsOf target := by
  have hne : c ≠ target := by
    rintro rfl
    exact Below.self.not_below_child hchild hpasses.isBelow
  exact mem_partsOf_iff.2 ⟨hne, (passes_iff_of_stopsWalk h hne).2 ⟨child, hchild, hskip, hpasses⟩⟩

/-- **The parts of a target that stops the walk.**  What is visited from a statement, a class or a
method is what is reached without skipping anything and without passing another statement, a
class, a method or a block. -/
theorem mem_visits_iff (h : stopsWalk target.kind = true) :
    c ∈ visits target ↔ Below target c ∧ ∀ p q, Below target p → q ∈ p.children → Below q c →
      isSkipped p.kind q.kind = false ∧ (p ≠ target → stopsWalk p.kind = false) := by
  have hmem : c ∈ visits target ↔ c = target ∨ c ∈ partsOf target := by
    rw [visits_eq]
    simp [or_comm]
  rw [hmem]
  constructor
  · rintro (rfl | hc)
    · exact ⟨.self, fun p q hp hq hbelow => absurd hbelow (hp.not_below_child hq)⟩
    · obtain ⟨hne, hpasses⟩ := mem_partsOf_iff.1 hc
      obtain ⟨child, hchild, hskip, hpasses⟩ := (passes_iff_of_stopsWalk h hne).1 hpasses
      refine ⟨(Below.self.child hchild).trans hpasses.isBelow, fun p q hp hq hbelow => ?_⟩
      rcases hpasses.isBelow.step_cases hchild hp hq hbelow with ⟨rfl, rfl⟩ | hp
      · exact ⟨hskip, fun hne => absurd rfl hne⟩
      · obtain ⟨hskip, hstops⟩ := (passes_zero_iff.1 hpasses).2 p q hp hq hbelow
        exact ⟨hskip, fun _ => hstops⟩
  · rintro ⟨hbelow, hway⟩
    rcases hbelow.eq_or_child with rfl | ⟨child, hchild, hc⟩
    · exact .inl rfl
    · refine .inr (mem_partsOf_of_child h hchild (hway target child .self hchild hc).1 ?_)
      refine passes_zero_iff.2 ⟨hc, fun p q hp hq hbelow => ?_⟩
      obtain ⟨hskip, hstops⟩ := hway p q ((Below.self.child hchild).trans hp) hq hbelow
      refine ⟨hskip, hstops ?_⟩
      rintro rfl
      exact Below.self.not_below_child hchild hp

/-- An initializer does not stop the walk, so the statement in its block is visited. -/
example :
    let tree := Node.ofText .compilationUnit "class A { static { a } }".toList
    ((Cursor.root tree).preorder.find? (·.kind = .initializer)).map
        (fun c => (visits c).map (·.kind))
      = some [.rightBrace, .expressionStatement, .leftBrace, .codeBlock, .modifier, .modifierList,
          .initializer, .initializer] := by
  decide +kernel

end Target

end StatementCompletion
