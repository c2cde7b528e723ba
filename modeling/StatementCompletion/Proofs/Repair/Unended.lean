import StatementCompletion.Completion.Mending
import StatementCompletion.Proofs.Repair.Only
import StatementCompletion.Proofs.Repair.Torn

/-!
# Repairs of an unended statement

Of the trials on a statement without its semicolon the first one that edits the text closes the
expression at its end, if something is torn off there, and puts the semicolon there otherwise.
-/

namespace StatementCompletion

namespace Repair

open Node (Torn Unended)
open Completion (trials)

variable {d : Document} {stop : Nat} {new : Text} {c target : Cursor} {x y : Node}

/-! ## The first edit -/

/-- The first of some trials that does more than to record holes at an offset
inserts a text there. -/
inductive FirstInserts (d : Document) (stop : Nat) (new : Text) :
    List (Cursor × Remedy) → Prop where
  | here {c : Cursor} {remedy : Remedy} {actions : List Action} {rest : List (Cursor × Remedy)} :
      remedy.actions d c = .ok actions → InsertsAt stop new actions →
        FirstInserts d stop new ((c, remedy) :: rest)
  | later {c : Cursor} {remedy : Remedy} {actions : List Action} {rest : List (Cursor × Remedy)} :
      remedy.actions d c = .ok actions → RecordsAt stop actions → FirstInserts d stop new rest →
        FirstInserts d stop new ((c, remedy) :: rest)

namespace FirstInserts

variable {front back : List (Cursor × Remedy)}

theorem append (h : FirstInserts d stop new front) : FirstInserts d stop new (front ++ back) := by
  induction h with
  | here hactions hinserts => exact .here hactions hinserts
  | later hactions hrecords _ ih => exact .later hactions hrecords ih

/-- What only records holes may come before. -/
theorem behind (hfront : ∀ trial ∈ front, ∃ actions, trial.2.actions d trial.1 = .ok actions
      ∧ RecordsAt stop actions) (h : FirstInserts d stop new back) :
    FirstInserts d stop new (front ++ back) := by
  induction front with
  | nil => exact h
  | cons trial front ih =>
    obtain ⟨⟨actions, hactions, hrecords⟩, hrest⟩ := List.forall_mem_cons.1 hfront
    exact .later hactions hrecords (ih hrest)

/-- Where no trial does anything else, it is enough that one of them inserts the text. -/
theorem of_exists (hall : ∀ trial ∈ front, ∃ actions, trial.2.actions d trial.1 = .ok actions
      ∧ (RecordsAt stop actions ∨ InsertsAt stop new actions))
    (h : ∃ trial ∈ front, ∃ actions, trial.2.actions d trial.1 = .ok actions
      ∧ InsertsAt stop new actions) : FirstInserts d stop new front := by
  induction front with
  | nil =>
    obtain ⟨trial, hmem, -⟩ := h
    cases hmem
  | cons trial front ih =>
    obtain ⟨⟨actions, hactions, hrecords | hinserts⟩, hrest⟩ := List.forall_mem_cons.1 hall
    · refine .later hactions hrecords (ih hrest ?_)
      obtain ⟨other, hother, actions', hactions', hinserts⟩ := h
      rcases List.mem_cons.1 hother with rfl | hother
      · -- a trial that inserts does not only record holes
        obtain rfl := Except.ok.inj (hactions.symm.trans hactions')
        obtain ⟨holes, -, rfl⟩ := hinserts
        cases hrecords _ (List.mem_append_right _ List.mem_cons_self)
      · exact ⟨other, hother, actions', hactions', hinserts⟩
    · exact .here hactions hinserts

end FirstInserts

/-! ## A statement made of an expression -/

/-- What is promised of the only statement of a source, if it is an expression that
is torn at its end at most. -/
structure IsPlain (target : Cursor) : Prop where
  kind_eq : target.kind = .expressionStatement
  isBranch : target.node.isLeaf = false
  parent : target.parentKind? = some .file
  children : ∀ c ∈ target.children, Frayed target.stop c
  leaves : ∀ c, Cursor.Below target c → c.node.ownText ≠ [] → isOpenLiteral c.node = false

/-- No literal is open. -/
theorem IsPlain.literals (h : IsPlain target) (hc : Cursor.Below target c) :
    isOpenLiteral c.node = false := by
  by_cases hown : c.node.ownText = []
  · have hnone : closingQuote? c.node.kind = none := by
      rcases hc.eq_or_child with rfl | ⟨child, hchild, hbelow⟩
      · rw [show c.node.kind = _ from h.kind_eq]
        rfl
      · exact (((h.children _ hchild).below hbelow).closingQuote?_or_ownText).resolve_right
          fun hne => hne hown
    rw [isOpenLiteral, hnone]
    rfl
  · exact h.leaves c hc hown

/-- Inside the statement no part of it is a target. -/
theorem IsPlain.isOnly (h : IsPlain target) : IsOnly target where
  isStatement := by
    rw [h.kind_eq]
    rfl
  ne_block := by
    rw [h.kind_eq]
    decide
  isBranch := h.isBranch
  parent := h.parent
  inside p hp hne hchildren := by
    obtain ⟨child, hchild, hbelow⟩ := hp.eq_or_child.resolve_left hne
    exact ((h.children _ hchild).below hbelow).isCandidate_eq_false hchildren

/-! ## An unended statement -/

/-- What is promised of a statement without its semicolon, in its place. -/
structure IsUnended (x y : Node) (target : Cursor) : Prop where
  unended : Unended x y target.node
  tidy : target.node.Tidy
  leaves : ∀ c, Cursor.Below target c → c.node.ownText ≠ [] → isOpenLiteral c.node = false
  parent : target.parentKind? = some .file

namespace IsUnended

theorem kind_eq (h : IsUnended x y target) : target.kind = .expressionStatement := by
  have hunended := h.unended
  rw [Cursor.kind]
  generalize target.node = statement at hunended
  cases hunended
  rfl

theorem isLeaf_eq (h : IsUnended x y target) : target.node.isLeaf = false := by
  have hunended := h.unended
  generalize target.node = statement at hunended ⊢
  cases hunended
  rfl

theorem torn (h : IsUnended x y target) : Torn x y ∧ x.Whole ∧ x.Simple := by
  have hunended := h.unended
  generalize target.node = statement at hunended
  cases hunended with
  | mk htorn _ _ hwhole =>
    exact ⟨htorn, hwhole x (List.mem_append_right _ List.mem_cons_self)⟩

/-- A child is in front of the tear, in its place or goes up to it. -/
theorem child_cases (h : IsUnended x y target) (hc : c ∈ target.children) :
    (c.node.Whole ∧ c.node.Simple) ∨ (∃ problem, c.node = .error problem [])
      ∨ c.node = y ∧ c.stop = target.stop := by
  have hunended := h.unended
  generalize hnode : target.node = statement at hunended
  cases hunended with
  | @mk front back gaps kind htorn hback hgaps hwhole =>
    have hchildren : target.node.children = front ++ y :: (back ++ gaps) := by
      rw [hnode, Node.children, List.append_assoc, List.cons_append]
    rcases mem_children_cases hchildren hc with hfront | hbacks | ⟨hy, hoffset⟩
    · exact .inl (hwhole _ (List.mem_append_left _ hfront))
    · rcases List.mem_append.1 hbacks with hbacks | hgap
      · exact .inl (hwhole _ (List.mem_append_right _ (List.mem_cons_of_mem _ hbacks)))
      · exact .inr (.inl ⟨_, hgaps _ hgap⟩)
    · refine .inr (.inr ⟨hy, ?_⟩)
      have hzero := Node.sizeAll_eq_zero fun gap hgap => ⟨_, hgaps gap hgap⟩
      rw [Cursor.stop, Cursor.stop, hy, hoffset, hnode, Node.size, Node.sizeAll_row hback hzero,
        Nat.add_assoc]

theorem frayed_child (h : IsUnended x y target) (hc : c ∈ target.children) :
    Frayed target.stop c := by
  obtain ⟨htorn, hwhole, hsimple⟩ := h.torn
  rcases h.child_cases hc with ⟨hwhole, hsimple⟩ | ⟨problem, hgap⟩ | ⟨rfl, hstop⟩
  · exact .whole hwhole hsimple
  · exact .gap hgap
  · exact .torn htorn hwhole hsimple hstop

theorem isPlain (h : IsUnended x y target) : IsPlain target :=
  ⟨h.kind_eq, h.isLeaf_eq, h.parent, fun _ => h.frayed_child, h.leaves⟩

/-- The torn node in its place. -/
theorem exists_inserts_closing (h : IsUnended x y target) (hne : y ≠ x) :
    ∃ other ∈ Target.partsOf target, Inserts target.stop [')'] other := by
  have hunended := h.unended
  generalize hnode : target.node = statement at hunended
  cases hunended with
  | @mk front back gaps kind htorn hback hgaps hwhole hkind hparts =>
    obtain ⟨hx, hsimple⟩ := hwhole x (List.mem_append_right _ List.mem_cons_self)
    have hchildren : target.node.children = front ++ y :: (back ++ gaps) := by
      rw [hnode, Node.children, List.append_assoc, List.cons_append]
    have htrivia : y.kind.isTrivia = false := by
      cases htrivia : y.kind.isTrivia with
      | false => rfl
      | true => exact absurd (htorn.eq_of_isTrivia hx htrivia) hne
    obtain ⟨child, hchild, hplace⟩ : ∃ child ∈ target.children, child
        = ⟨⟨y, target.offset + Node.sizeAll front, 0 + front.length⟩,
          target.toPlaced :: target.above⟩ :=
      ⟨_, Cursor.mem_placeAll.2 ⟨front, y, back ++ gaps, hchildren, rfl⟩, rfl⟩
    have hstop : child.stop = target.stop := by
      have hzero := Node.sizeAll_eq_zero fun gap hgap => ⟨_, hgaps gap hgap⟩
      rw [Cursor.stop, Cursor.stop, hnode, Node.size, Node.sizeAll_row hback hzero, hplace,
        Nat.add_assoc]
    have hchildTidy := h.tidy.of_mem_children (Cursor.node_mem_of_mem_children hchild)
    have hskip : Target.isSkipped target.kind child.kind = false := by
      have hstatement : y.kind.isStatement = false := by
        have hkind := (htorn.simple hsimple).isSimple
        revert hkind
        cases y.kind <;> decide
      rw [show child.kind = y.kind by rw [hplace]; rfl, Target.isSkipped, htrivia, hstatement,
        Bool.and_false, Bool.or_false]
    rcases exists_inserts htorn hne hx hsimple child (by rw [hplace]) hchildTidy hstop with
      ⟨other, hother, hinserts⟩ | ⟨hlist, -⟩
    · refine ⟨other, Target.mem_partsOf_of_child ?_ hchild hskip hother, hinserts⟩
      rw [h.kind_eq]
      rfl
    · -- an expression is no list of arguments
      have hxlist : x.kind = .argumentList := by
        rwa [← htorn.kind_eq, show y.kind = child.kind by rw [hplace]; rfl]
      have hx :=
        Node.kind_of_partKinds_eq_singleton hparts (List.mem_append_right _ List.mem_cons_self)
      rw [hxlist] at hx
      rcases hx with htrivia | rfl
      · cases htrivia
      · cases hkind

/-- **Where something is torn off, the first edit closes a parenthesis there.** -/
theorem firstInserts_closing (h : IsUnended x y target) (hne : y ≠ x) :
    FirstInserts d target.stop [')'] (trials target) := by
  rw [trials, Target.visits_eq, List.flatMap_append]
  refine (FirstInserts.of_exists (fun trial htrial => ?_) ?_).append
  · obtain ⟨c, hc, hremedies⟩ := List.mem_flatMap.1 htrial
    obtain ⟨remedy, -, rfl⟩ := List.mem_map.1 hremedies
    obtain ⟨child, hchild, hbelow, hunder⟩ := Target.exists_child_of_mem_partsOf hc
    exact ((h.frayed_child hchild).below hbelow).exists_actions (hunder.tidy h.tidy)
      (h.isPlain.literals hunder) remedy
  · obtain ⟨other, hother, remedy, hinserts⟩ := h.exists_inserts_closing hne
    refine ⟨(other, remedy), ?_, hinserts d⟩
    exact List.mem_flatMap.2 ⟨other, hother,
      List.mem_map.2 ⟨remedy, remedy.mem_all, rfl⟩⟩

/-! ## The semicolon -/

/-- White space and comments in the row of the statement are leaves with some text. -/
theorem hasBlankLeaves (h : IsUnended x y target) : target.HasBlankLeaves := by
  intro node hnode htrivia
  rw [← Cursor.map_node_placeAll (target.toPlaced :: target.above) 0 target.offset
    target.node.children] at hnode
  obtain ⟨child, hchild, rfl⟩ := List.mem_map.1 hnode
  exact (h.frayed_child hchild).leaves_of_isTrivia htrivia

/-- A child is a mark of the missing semicolon, or it is in the row of the expression. -/
theorem row_cases (h : IsUnended x y target) (hc : c ∈ target.children) :
    c.node = .error (.expected (.construct .semicolon)) []
      ∨ c.node.kind ≠ .error ∧ (c.node.kind.isTrivia = true ∨ c.node.kind.isOperand = true) := by
  have hmem := Cursor.node_mem_of_mem_children hc
  have hunended := h.unended
  generalize target.node = statement at hunended hmem
  cases hunended with
  | @mk front back gaps kind htorn hback hgaps hwhole hkind hparts =>
    rcases List.mem_append.1 hmem with hmem | hmem
    · refine .inr ⟨?_, ?_⟩
      · rcases List.mem_append.1 hmem with hmem | hmem
        · exact (hwhole _ (List.mem_append_left _ hmem)).1.kind_ne_error
        · rcases List.mem_cons.1 hmem with heq | hmem
          · rw [heq]
            exact htorn.kind_ne_error (hwhole x (List.mem_append_right _ List.mem_cons_self)).1
          · exact (hwhole _ (List.mem_append_right _ (List.mem_cons_of_mem _ hmem))).1.kind_ne_error
      · have hrow : Node.partKinds (front ++ y :: back) = [kind] :=
          (htorn.partKinds_eq _ _).trans hparts
        refine (Node.kind_of_partKinds_eq_singleton hrow hmem).imp_right fun heq => ?_
        rwa [heq]
    · exact .inl (hgaps _ hmem)

/-- The last part is the expression, and it goes up to the end. -/
theorem exists_lastPart? (h : IsUnended x y target) :
    ∃ last, target.lastPart? = some last ∧ last.kind.isOperand = true
      ∧ last.stop = target.stop := by
  have hpart : ∃ part ∈ target.children, part.kind.isTrivia = false ∧ part.node.isGap = false := by
    have hunended := h.unended
    generalize hnode : target.node = statement at hunended
    cases hunended with
    | @mk front back gaps kind htorn hback hgaps hwhole hkind hparts =>
      have hmem : kind ∈ Node.partKinds (front ++ y :: back) := by
        rw [htorn.partKinds_eq, hparts]
        exact List.mem_cons_self
      obtain ⟨node, hnode', rfl⟩ := List.mem_map.1 hmem
      obtain ⟨hrow, htrivia⟩ := List.mem_filter.1 hnode'
      have hchild : node ∈ target.node.children := by
        rw [hnode]
        exact List.mem_append_left _ hrow
      rw [← Cursor.map_node_placeAll (target.toPlaced :: target.above) 0 target.offset
        target.node.children] at hchild
      obtain ⟨part, hpart, rfl⟩ := List.mem_map.1 hchild
      have herror : part.node.kind.isError = false := by
        revert hkind
        cases part.node.kind <;> decide
      exact ⟨part, hpart, by rwa [Bool.not_eq_true'] at htrivia, by rw [Node.isGap, herror]; rfl⟩
  -- there is a part, so there is a last one
  obtain ⟨part, hpart, htrivia, hgap⟩ := hpart
  have hne : target.parts ≠ [] :=
    List.ne_nil_of_mem (List.mem_filter.2 ⟨hpart, by rw [htrivia, hgap]; rfl⟩)
  have hlast : target.lastPart? = some (target.parts.getLast hne) :=
    List.getLast?_eq_some_getLast hne
  obtain ⟨hchild, hreal⟩ := List.mem_filter.1 (List.getLast_mem hne)
  rw [Bool.and_eq_true, Bool.not_eq_true', Bool.not_eq_true'] at hreal
  refine ⟨_, hlast, ?_, Cursor.stop_of_lastPart? h.tidy.endsWithToken h.hasBlankLeaves hlast⟩
  rcases h.row_cases hchild with herror | ⟨-, htrivia | hoperand⟩
  · rw [herror] at hreal
    cases hreal.2
  · exact absurd (hreal.1.symm.trans htrivia) Bool.false_ne_true
  · exact hoperand

theorem lacksType_eq_false (h : IsUnended x y target) : lacksType target.node = false := by
  have hrow {nodes : List Node} (hnodes : ∀ node ∈ nodes, node.kind ≠ .localVariable
      ∧ isMissingType node = false) : anyLacksType nodes = false := by
    induction nodes with
    | nil => rfl
    | cons node rest ih =>
      obtain ⟨⟨hkind, hmissing⟩, hrest⟩ := List.forall_mem_cons.1 hnodes
      rw [anyLacksType, if_neg hkind, hmissing, ih hrest]
      rfl
  have hchildren : ∀ node ∈ target.node.children, node.kind ≠ .localVariable
      ∧ isMissingType node = false := by
    intro node hnode
    rw [← Cursor.map_node_placeAll (target.toPlaced :: target.above) 0 target.offset
      target.node.children] at hnode
    obtain ⟨child, hchild, rfl⟩ := List.mem_map.1 hnode
    rcases h.row_cases hchild with herror | ⟨herror, hkind⟩
    · rw [herror]
      exact ⟨nofun, rfl⟩
    · constructor
      · intro hvariable
        rw [hvariable] at hkind
        rcases hkind with hkind | hkind <;> cases hkind
      · cases hnode : child.node with
        | leaf | branch => rfl
        | error =>
          rw [hnode] at herror
          exact absurd rfl herror
  cases hnode : target.node with
  | leaf | error => rfl
  | branch =>
    rw [hnode] at hchildren
    exact hrow hchildren

/-- What is missing in the statement is missing at its end. -/
theorem recordsAt_recordBelow (h : IsUnended x y target) :
    RecordsAt target.stop (Action.recordBelow target) := by
  intro action haction
  obtain ⟨hole, hhole, rfl⟩ := List.mem_map.1 haction
  rw [Cursor.holes] at hhole
  rw [Cursor.stop]
  have hunended := h.unended
  generalize target.node = statement at hunended hhole
  cases hunended with
  | mk htorn hback hgaps hwhole =>
    have hx := (hwhole x (List.mem_append_right _ List.mem_cons_self)).1
    rw [htorn.eq_of_mem_holesAmong (fun node hnode => (hwhole node hnode).1) hback
      (fun gap hgap => ⟨_, hgaps gap hgap⟩) (htorn.eq_of_mem_holesBelow hx) hole hhole, Node.size]

theorem insertsAt_addSemicolon (h : IsUnended x y target) :
    InsertsAt target.stop [';'] (addSemicolon target) := by
  obtain ⟨last, hlast, hoperand, hstop⟩ := h.exists_lastPart?
  have hneeds : needsSemicolon target = true := by
    rw [needsSemicolon, h.kind_eq]
  have hrefuses : refusesSemicolon last = false := by
    rw [refusesSemicolon, Bool.or_eq_false_iff, decide_eq_false_iff_not, Option.any_eq_false]
    constructor
    · intro hkind
      rw [hkind] at hoperand
      cases hoperand
    · intro leaf hleaf
      have hbelow := (Cursor.Below.child .self (Cursor.mem_of_lastPart? hlast)).trans
        (Cursor.below_of_lastLeaf? hleaf)
      rw [h.isPlain.literals hbelow]
  refine ⟨_, h.recordsAt_recordBelow, ?_⟩
  rw [addSemicolon, if_pos ⟨hneeds, by rw [h.parent]; decide, by rw [h.parent]; decide⟩,
    if_neg (by rw [h.lacksType_eq_false]; exact Bool.false_ne_true), hlast]
  dsimp only
  rw [hrefuses, if_neg Bool.false_ne_true, hstop]

/-- **Where nothing is torn off, the first edit puts the semicolon.** -/
theorem firstInserts_semicolon (h : IsUnended x y target) (heq : y = x) :
    FirstInserts d target.stop [';'] (trials target) := by
  obtain ⟨-, hx, hsimple⟩ := h.torn
  rw [trials, Target.visits_eq, List.flatMap_append]
  refine FirstInserts.behind (fun trial htrial => ?_) (FirstInserts.append ?_)
  · -- below the statement nothing is to be done
    obtain ⟨c, hc, hremedies⟩ := List.mem_flatMap.1 htrial
    obtain ⟨remedy, -, rfl⟩ := List.mem_map.1 hremedies
    obtain ⟨child, hchild, hbelow, hunder⟩ := Target.exists_child_of_mem_partsOf hc
    have hwhole (hwhole : child.node.Whole) (hsimple : child.node.Simple) :
        remedy.actions d c = .ok [] :=
      actions_of_whole (hbelow.whole hwhole) (hbelow.simple hsimple)
        (h.isPlain.literals hunder) remedy
    refine ⟨[], ?_, recordsAt_nil⟩
    rcases h.child_cases hchild with ⟨hchildWhole, hchildSimple⟩ | ⟨problem, hgap⟩ | ⟨hnode, -⟩
    · exact hwhole hchildWhole hchildSimple
    · rw [hbelow.eq_of_isLeaf (by rw [hgap]; rfl)]
      exact actions_of_gap hgap remedy
    · rw [heq] at hnode
      exact hwhole (hnode ▸ hx) (hnode ▸ hsimple)
  · refine FirstInserts.of_exists (fun trial htrial => ?_) ?_
    · obtain ⟨remedy, -, rfl⟩ := List.mem_map.1 htrial
      refine ⟨_, actions_of_expressionStatement h.kind_eq remedy, ?_⟩
      split
      · exact .inr h.insertsAt_addSemicolon
      · exact .inl recordsAt_nil
    · exact ⟨(target, .semicolon), List.mem_map.2 ⟨_, Remedy.mem_all _, rfl⟩, _, rfl,
        h.insertsAt_addSemicolon⟩

end IsUnended

end Repair

end StatementCompletion
