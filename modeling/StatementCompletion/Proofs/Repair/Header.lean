import StatementCompletion.Proofs.Grammar.Truncation.Headers
import StatementCompletion.Proofs.Repair.Unended

/-!
# Repairs of a header at the end of a text

Where a condition stands at the end of a text, the only statement there lacks its closing
parenthesis, its body or both.  Nothing inside the condition is mended, so the first edit closes the
header if it is open, and it puts an empty block behind it otherwise.
-/

namespace StatementCompletion

/-! ## The remedies for a condition and a body -/

namespace Guarded

/-- The remedy for the condition. -/
def conditionRemedy : Guarded → Remedy
  | branch => .ifCondition
  | loop => .whileCondition

/-- The remedy for the body. -/
def bodyRemedy : Guarded → Remedy
  | branch => .ifBranches
  | loop => .whileBody

/-- What that one does. -/
def addBody : Guarded → Text → Cursor → List Action
  | branch => Repair.addBranch
  | loop => Repair.addWhileBody

end Guarded

namespace Repair

open Completion (trials)

variable {d : Document} {g : Guarded} {x : Node} {closing : List Node} {target c : Cursor}

/-- What is promised of a statement whose header is at the end of the text: what stands in the
parentheses is whole, and behind it there are marks of what is missing and maybe a parenthesis. -/
structure IsHeader (g : Guarded) (x : Node) (closing : List Node) (target : Cursor) : Prop where
  node_eq : target.node = .branch g.kind (g.opened ++ x :: closing)
  parent : target.parentKind? = some .file
  whole : x.Whole
  simple : x.Simple
  condition : canBeCondition x.kind = true
  closing : ∀ node ∈ closing, node = .closer ∨ ∃ problem, node = .error problem []
  literals : ∀ c, Cursor.Below target c → c.node.ownText ≠ [] → isOpenLiteral c.node = false

namespace IsHeader

/-! ## The children -/

/-- A child is a token of the opening, the condition, a parenthesis or a mark. -/
theorem node_cases (h : IsHeader g x closing target) (hc : c ∈ target.children) :
    c.node ∈ g.opened ∨ c.node = x ∨ c.node = .closer ∨ ∃ problem, c.node = .error problem [] := by
  have hmem := Cursor.node_mem_of_mem_children hc
  rw [h.node_eq] at hmem
  rcases List.mem_append.1 hmem with hmem | hmem
  · exact .inl hmem
  · rcases List.mem_cons.1 hmem with hx | hmem
    · exact .inr (.inl hx)
    · exact .inr (.inr (h.closing _ hmem))

theorem isLeaf_of_mem_opened (h : x ∈ g.opened) : x.isLeaf = true := by
  revert x
  cases g <;> simp [Guarded.opened, Node.isLeaf]

theorem kind_eq (h : IsHeader g x closing target) : target.kind = g.kind := by
  rw [Cursor.kind, h.node_eq]
  rfl

theorem isOnly (h : IsHeader g x closing target) : IsOnly target where
  isStatement := by
    rw [h.kind_eq]
    cases g <;> rfl
  ne_block := by
    rw [h.kind_eq]
    cases g <;> decide
  isBranch := by
    rw [h.node_eq]
    rfl
  parent := h.parent
  inside p hp hne hchildren := by
    obtain ⟨child, hchild, hbelow⟩ := hp.eq_or_child.resolve_left hne
    have hleaf (hisLeaf : child.node.isLeaf = true) : Target.isCandidate p.kind = false := by
      rw [hbelow.eq_of_isLeaf hisLeaf] at hchildren
      exact absurd (Cursor.children_of_isLeaf hisLeaf) hchildren
    rcases h.node_cases hchild with hopened | hx | hcloser | ⟨problem, hgap⟩
    · exact hleaf (isLeaf_of_mem_opened hopened)
    · have hfrayed : Frayed target.stop child := .whole (hx ▸ h.whole) (hx ▸ h.simple)
      exact (hfrayed.below hbelow).isCandidate_eq_false hchildren
    · exact hleaf (by rw [hcloser]; rfl)
    · exact hleaf (by rw [hgap]; rfl)

/-- Below the statement nothing is to be done. -/
theorem actions_of_below (h : IsHeader g x closing target) {child : Cursor}
    (hchild : child ∈ target.children)
    (hbelow : Cursor.Below child c) (remedy : Remedy) : remedy.actions d c = .ok [] := by
  have htoken (hisLeaf : child.node.isLeaf = true) (hkind : remedy.isFor child.node.kind = false) :
      remedy.actions d c = .ok [] := by
    rw [hbelow.eq_of_isLeaf hisLeaf]
    exact Remedy.actions_of_not_isFor hkind
  rcases h.node_cases hchild with hopened | hx | hcloser | ⟨problem, hgap⟩
  · refine htoken (isLeaf_of_mem_opened hopened) ?_
    have hkinds : ∀ node ∈ g.opened, remedy.isFor node.kind = false := by
      cases g <;> cases remedy <;> decide
    exact hkinds _ hopened
  · rw [← hx] at h
    have hfrayed : Frayed target.stop c := (Frayed.whole h.whole h.simple).below hbelow
    refine actions_of_whole (hbelow.whole h.whole) (hbelow.simple h.simple) ?_ remedy
    rcases hfrayed.closingQuote?_or_ownText with hnone | hown
    · rw [isOpenLiteral, hnone]
      rfl
    · exact h.literals c ((Cursor.Below.child .self hchild).trans hbelow) hown
  · refine htoken (by rw [hcloser]; rfl) ?_
    rw [hcloser]
    cases remedy <;> rfl
  · rw [hbelow.eq_of_isLeaf (by rw [hgap]; rfl)]
    exact actions_of_gap hgap remedy

/-! ## The statement itself -/

/-- The condition in its place. -/
def held (g : Guarded) (x : Node) (target : Cursor) : Cursor :=
  { node := x, offset := target.offset + Node.sizeAll g.opened, index := 0 + g.opened.length,
    above := target.toPlaced :: target.above }

theorem children_eq (h : IsHeader g x closing target) : target.children
    = Cursor.placeAll (target.toPlaced :: target.above) 0 target.offset g.opened
      ++ held g x target
        :: Cursor.placeAll (target.toPlaced :: target.above) (0 + g.opened.length + 1)
          (held g x target).stop closing := by
  rw [Cursor.children, h.node_eq, Node.children, Cursor.placeAll_append, Cursor.placeAll]
  rfl

/-- The keyword is the first child, and behind it stand the parenthesis, the
condition and the rest. -/
theorem exists_headerParts (h : IsHeader g x closing target) : ∃ keyword paren rest,
    target.child? g.keyword = some keyword
      ∧ headerParts target keyword = paren :: held g x target :: rest
      ∧ paren.kind = .leftParen ∧ rest.map (·.node) = closing := by
  have hcondition : endsHeader x.kind = false ∧ x.kind.isTrivia = false := by
    have hkind := h.condition
    revert hkind
    cases x.kind <;> decide
  set above := target.toPlaced :: target.above
  set rest := Cursor.placeAll above (0 + g.opened.length + 1) (held g x target).stop closing
  obtain ⟨keyword, space, paren, hopened, hindex, hkeyword, hspace, hparen⟩ : ∃ keyword space paren,
      Cursor.placeAll above 0 target.offset g.opened = [keyword, space, paren] ∧ keyword.index = 0
        ∧ keyword.kind = g.keyword ∧ space.kind = .whitespace ∧ paren.kind = .leftParen := by
    cases g <;> exact ⟨_, _, _, rfl, rfl, rfl, rfl, rfl⟩
  have hrest : ∀ child ∈ rest, endsHeader child.kind = false ∧ child.kind.isTrivia = false := by
    intro child hchild
    obtain ⟨front, node, back, hclosing, rfl⟩ := Cursor.mem_placeAll.1 hchild
    rcases h.closing node (hclosing ▸ List.mem_append_right _ List.mem_cons_self) with rfl
      | ⟨problem, rfl⟩
    · exact ⟨rfl, rfl⟩
    · exact ⟨rfl, rfl⟩
  have hchildren := h.children_eq
  rw [hopened] at hchildren
  refine ⟨keyword, paren, rest, ?_, ?_, hparen, Cursor.map_node_placeAll _ _ _ _⟩
  · rw [Cursor.child?, hchildren, List.cons_append,
      List.find?_cons_of_pos (by simpa using hkeyword)]
  · -- no child behind the keyword ends the header, and only the space is left out
    have hbehind : target.childrenAfter keyword.index =
        space :: paren :: held g x target :: rest := by
      rw [Cursor.childrenAfter, hchildren, hindex]
      rfl
    have hall : ∀ child ∈ space :: paren :: held g x target
        :: rest, (!endsHeader child.kind) = true := by
      simp only [List.forall_mem_cons, hspace, hparen, Bool.not_eq_true']
      exact ⟨rfl, rfl, hcondition.1, fun child hchild => (hrest child hchild).1⟩
    have hreal : ∀ child ∈ paren :: held g x target :: rest, (!child.kind.isTrivia) = true := by
      simp only [List.forall_mem_cons, hparen, Bool.not_eq_true']
      exact ⟨rfl, hcondition.2, fun child hchild => (hrest child hchild).2⟩
    rw [headerParts, hbehind, List.takeWhile_eq_self_iff.2 hall,
      List.filter_cons_of_neg (by rw [hspace]; decide), List.filter_eq_self.2 hreal]

/-- Nothing is missing in the condition, so the header is only closed. -/
theorem completeHeader_eq (h : IsHeader g x closing target) : completeHeader g.kind g.keyword target
    = if closing.any (·.kind = .rightParen) then []
      else [.insert (held g x target).stop [')']] := by
  obtain ⟨keyword, paren, rest, hkeyword, hparts, hparen, hrest⟩ := h.exists_headerParts
  have hcondition : canBeCondition (held g x target).kind = true := h.condition
  have hx : (held g x target).kind ≠ .rightParen := by
    intro hkind
    rw [hkind] at hcondition
    cases hcondition
  have hclosed : rest.any (·.kind = .rightParen) = closing.any (·.kind = .rightParen) := by
    rw [← hrest, List.any_map]
    rfl
  have hholes : Action.recordBelow (held g x target) = [] := by
    show (x.holesBelow _).map Action.hole = []
    rw [h.whole.holesBelow_eq_nil]
    rfl
  rw [completeHeader, if_pos h.kind_eq, hkeyword]
  dsimp only
  rw [hparts, List.find?_cons_of_pos (by simpa using hparen),
    List.find?_cons_of_neg (by rw [hparen]; decide),
    List.find?_cons_of_pos (p := fun part : Cursor => canBeCondition part.kind) hcondition]
  dsimp only
  rw [closeParentheses, hholes, List.any_cons, List.any_cons, hparen, hclosed, decide_eq_false hx]
  rfl

/-- Three remedies are for the statement. -/
theorem actions_eq (h : target.kind = g.kind) (remedy : Remedy) :
    remedy.actions d target = if remedy = g.conditionRemedy
      then .ok (completeHeader g.kind g.keyword target)
      else if remedy = g.bodyRemedy then .ok (g.addBody d.text target)
      else if remedy = .unbracedBody then braceBody d target else .ok [] := by
  cases g with
  | branch =>
    cases remedy with
    | ifCondition | ifBranches | unbracedBody => rfl
    | _ => exact Remedy.actions_of_not_isFor (by rw [h]; rfl)
  | loop =>
    cases remedy with
    | whileCondition | whileBody | unbracedBody => rfl
    | _ => exact Remedy.actions_of_not_isFor (by rw [h]; rfl)

theorem ownsUnbracedBody_kind (g : Guarded) : ownsUnbracedBody g.kind = true := by
  cases g <;> rfl

/-! ## An open header -/

/-- The closing parenthesis is behind the condition, if there is one. -/
theorem child?_rightParen (h : IsHeader g x closing target) : target.child? .rightParen
    = (Cursor.placeAll (target.toPlaced :: target.above) (0 + g.opened.length + 1)
        (held g x target).stop closing).find? (·.kind = .rightParen) := by
  have hopened : ∀ node ∈ g.opened, node.kind ≠ .rightParen := by cases g <;> decide
  have hcondition : (held g x target).kind ≠ .rightParen := by
    intro hkind
    have hcondition : canBeCondition (held g x target).kind = true := h.condition
    rw [hkind] at hcondition
    cases hcondition
  rw [Cursor.child?, h.children_eq, List.find?_append, List.find?_eq_none.2, Option.none_or,
    List.find?_cons_of_neg (by simpa using hcondition)]
  intro child hchild hkind
  obtain ⟨front, node, back, hnodes, rfl⟩ := Cursor.mem_placeAll.1 hchild
  have hmem : node ∈ g.opened := hnodes ▸ List.mem_append_right _ List.mem_cons_self
  exact hopened node hmem (of_decide_eq_true hkind)

/-- Without a closing parenthesis there is no body to add. -/
theorem addBody_of_open (h : IsHeader g x closing target) (hopen : target.child? .rightParen = none)
    (text : Text) : g.addBody text target = [] := by
  have hkind := h.kind_eq
  cases g with
  | branch =>
    show addBranch text target = []
    rw [addBranch, if_pos (show target.kind = .ifStatement from hkind), hopen]
  | loop =>
    show addWhileBody text target = []
    rw [addWhileBody, if_pos (show target.kind = .whileStatement from hkind), hopen]

/-- The trials on the statement itself, which is visited twice. -/
theorem exists_remedy {trial : Cursor × Remedy}
    (h : trial ∈ [target, target].flatMap fun c => Remedy.all.map fun remedy => (c, remedy)) :
    ∃ remedy, trial = (target, remedy) := by
  obtain ⟨c, hc, hremedies⟩ := List.mem_flatMap.1 h
  obtain ⟨remedy, -, rfl⟩ := List.mem_map.1 hremedies
  obtain rfl : c = target := by simpa using hc
  exact ⟨remedy, rfl⟩

/-- **Where the parenthesis is missing, the first edit closes the header.** -/
theorem firstInserts_closing {missed : Problem} (h : IsHeader g x [.error missed []] target) :
    FirstInserts d target.stop [')'] (trials target) := by
  have hstop : (held g x target).stop = target.stop := by
    rw [Cursor.stop, Cursor.stop, h.node_eq, Node.size, Node.sizeAll_append,
      Node.sizeAll, Node.sizeAll, Node.sizeAll, ← Nat.add_assoc]
    rfl
  have hclosed : target.child? .rightParen = none := h.child?_rightParen.trans rfl
  have hheader : completeHeader g.kind g.keyword target = [.insert target.stop [')']] := by
    rw [h.completeHeader_eq, hstop]
    rfl
  have hinserts : InsertsAt target.stop [')'] (completeHeader g.kind g.keyword target) :=
    ⟨[], recordsAt_nil, hheader⟩
  rw [trials, Target.visits_eq, List.flatMap_append]
  -- what is below the header comes first, and nothing is done about it
  refine FirstInserts.behind (fun trial htrial => ?_)
    (FirstInserts.of_exists (fun trial htrial => ?_) ?_)
  · obtain ⟨c, hc, hremedies⟩ := List.mem_flatMap.1 htrial
    obtain ⟨remedy, -, rfl⟩ := List.mem_map.1 hremedies
    obtain ⟨child, hchild, hbelow, -⟩ := Target.exists_child_of_mem_partsOf hc
    exact ⟨[], h.actions_of_below hchild hbelow remedy, recordsAt_nil⟩
  · obtain ⟨remedy, rfl⟩ := exists_remedy htrial
    rw [actions_eq h.kind_eq]
    refine ⟨if remedy = g.conditionRemedy then completeHeader g.kind g.keyword target else [],
      ?_, ?_⟩
    · have hbrace : braceBody d target = .ok [] := by
        rw [braceBody, h.kind_eq, ownsUnbracedBody_kind, if_pos rfl, hclosed]
      rw [h.addBody_of_open hclosed, hbrace, ite_self, ite_self]
      split <;> rfl
    · split
      · exact .inr hinserts
      · exact .inl recordsAt_nil
  · refine ⟨(target, g.conditionRemedy), List.mem_flatMap.2 ⟨target, List.mem_cons_self,
      List.mem_map.2 ⟨_, Remedy.mem_all _, rfl⟩⟩, _, ?_, hinserts⟩
    rw [actions_eq h.kind_eq, if_pos rfl]

/-! ## A header without a body -/

section

variable {missed : Problem} (h : IsHeader g x [.closer, .error missed []] target)
include h

/-- The parenthesis, behind which there is nothing but a mark. -/
theorem exists_closed :
    ∃ closed gap, target.child? .rightParen = some closed ∧ closed.stop = target.stop
    ∧ target.childrenAfter closed.index = [gap] ∧ gap.kind = .error := by
  have hsize : target.node.size = Node.sizeAll g.opened + (x.size + 1) := by
    rw [h.node_eq, Node.size, Node.sizeAll_append, Node.sizeAll]
    rfl
  set above := target.toPlaced :: target.above
  set closed : Cursor := ⟨⟨.closer, (held g x target).stop, 0 + g.opened.length + 1⟩, above⟩
  set gap : Cursor := ⟨⟨.error missed [], closed.stop, 0 + g.opened.length + 1 + 1⟩, above⟩
  refine ⟨closed, gap, h.child?_rightParen.trans rfl, ?_, ?_, rfl⟩
  · show target.offset + Node.sizeAll g.opened + x.size + 1 = target.offset + target.node.size
    omega
  · have hchildren : target.children = Cursor.placeAll above 0 target.offset g.opened
        ++ [held g x target, closed] ++ [gap] := by
      rw [h.children_eq, List.append_assoc]
      rfl
    rw [Cursor.childrenAfter, hchildren, List.drop_left']
    rw [List.length_append, Cursor.length_placeAll]
    show g.opened.length + 2 = 0 + g.opened.length + 1 + 1
    omega

/-- The body to add is an empty block. -/
theorem addBody_of_closed (text : Text) : g.addBody text target = Action.openBlock target.stop := by
  obtain ⟨closed, gap, hclosed, hstop, hbehind, hgap⟩ := h.exists_closed
  have hkind := h.kind_eq
  cases g with
  | branch =>
    have hnone : thenBranch? target closed = none := by
      rw [thenBranch?, hbehind, List.takeWhile_cons_of_pos (by rw [hgap]; decide),
        List.takeWhile_nil, List.find?_cons_of_neg (by rw [hgap]; decide), List.find?_nil]
    show addBranch text target = _
    rw [addBranch, if_pos (show target.kind = .ifStatement from hkind), hclosed]
    dsimp only
    rw [hnone, if_pos (by rfl), hstop]
  | loop =>
    have hnone : target.statementBehind? closed = none := by
      rw [Cursor.statementBehind?, hbehind, List.find?_cons_of_neg (by rw [hgap]; decide),
        List.find?_nil]
    show addWhileBody text target = _
    rw [addWhileBody, if_pos (show target.kind = .whileStatement from hkind), hclosed]
    dsimp only
    rw [addLoopBody, hnone, if_pos (by rfl), hstop]

/-- No body stands there without braces. -/
theorem braceBody_of_closed : braceBody d target = .ok [] := by
  obtain ⟨closed, gap, hclosed, -, hbehind, hgap⟩ := h.exists_closed
  have hnone : body? target closed = none := by
    rw [body?, thenBranch?, Cursor.statementBehind?, hbehind,
      List.takeWhile_cons_of_pos (by rw [hgap]; decide), List.takeWhile_nil,
      List.find?_cons_of_neg (by rw [hgap]; decide), List.find?_nil, ite_self]
  rw [braceBody, h.kind_eq, ownsUnbracedBody_kind, if_pos rfl, hclosed]
  dsimp only
  rw [hnone]

/-- **Where the body is missing, the first trial that does anything opens a block.** -/
theorem exists_opensBlock : ∃ front back, trials target = front ++ (target, g.bodyRemedy) :: back
    ∧ (∀ trial ∈ front, trial.2.actions d trial.1 = .ok [])
    ∧ g.bodyRemedy.actions d target = .ok (Action.openBlock target.stop) := by
  have hheader : completeHeader g.kind g.keyword target = [] := h.completeHeader_eq.trans rfl
  obtain ⟨before, after, hall, hbefore⟩ := List.eq_append_cons_of_mem (Remedy.mem_all g.bodyRemedy)
  obtain ⟨back, htrials⟩ :
      ∃ back, [target, target].flatMap (fun c => Remedy.all.map fun remedy => (c, remedy))
      = before.map (fun remedy => (target, remedy)) ++ (target, g.bodyRemedy) :: back := by
    refine ⟨after.map (fun remedy => (target, remedy))
      ++ Remedy.all.map fun remedy => (target, remedy), ?_⟩
    rw [List.flatMap_cons, List.flatMap_singleton]
    conv_lhs => enter [1]; rw [hall, List.map_append, List.map_cons]
    rw [List.append_assoc, List.cons_append]
  refine ⟨(Target.partsOf target).flatMap (fun c => Remedy.all.map fun remedy => (c, remedy))
    ++ before.map (fun remedy => (target, remedy)), back, ?_, ?_, ?_⟩
  · rw [trials, Target.visits_eq, List.flatMap_append, htrials,
      ← List.append_assoc]
  · intro trial htrial
    rcases List.mem_append.1 htrial with htrial | htrial
    · obtain ⟨c, hc, hremedies⟩ := List.mem_flatMap.1 htrial
      obtain ⟨remedy, -, rfl⟩ := List.mem_map.1 hremedies
      obtain ⟨child, hchild, hbelow, -⟩ := Target.exists_child_of_mem_partsOf hc
      exact h.actions_of_below hchild hbelow remedy
    · obtain ⟨remedy, hremedy, rfl⟩ := List.mem_map.1 htrial
      have hne : remedy ≠ g.bodyRemedy := fun heq => hbefore (heq ▸ hremedy)
      rw [actions_eq h.kind_eq, hheader, if_neg hne, h.braceBody_of_closed, ite_self, ite_self]
  · rw [actions_eq h.kind_eq, if_neg (by cases g <;> decide), if_pos rfl, h.addBody_of_closed]

end

end IsHeader

end Repair

end StatementCompletion
