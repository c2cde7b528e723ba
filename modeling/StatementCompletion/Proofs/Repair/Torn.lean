import StatementCompletion.Proofs.Repair.Complete
import StatementCompletion.Proofs.Repair.Kinds
import StatementCompletion.Proofs.Repair.Visits
import StatementCompletion.Proofs.Tree.Tidy
import StatementCompletion.Proofs.Tree.Torn

/-!
# Repairs of what has been torn

Where parentheses are missing at the end of an expression, the repairs close them at the end and
record holes nowhere else.  Of all remedies only those for arguments and for parentheses find
anything to do, and one of the two does if anything is missing.
-/

namespace StatementCompletion

namespace Node

variable {x y : Node} {nodes : List Node}

/-! ## Holes -/

theorem holesAmong_append (offset : Nat) (a b : List Node) :
    holesAmong offset (a ++ b) = holesAmong offset a ++ holesAmong (offset + sizeAll a) b := by
  induction a generalizing offset with
  | nil => rfl
  | cons node rest ih =>
    rw [List.cons_append, holesAmong, holesAmong, ih, List.append_assoc, sizeAll, Nat.add_assoc]

theorem isHole_eq_false (h : x.kind ≠ .error) : x.isHole = false := by
  cases x with
  | leaf | branch => rfl
  | error => exact absurd rfl h

theorem holesAmong_eq_nil
    (h : ∀ node ∈ nodes, node.isHole = false ∧ ∀ offset, node.holesBelow offset = [])
    (offset : Nat) : holesAmong offset nodes = [] := by
  induction nodes generalizing offset with
  | nil => rfl
  | cons node rest ih =>
    obtain ⟨⟨hhole, hbelow⟩, hrest⟩ := List.forall_mem_cons.1 h
    rw [holesAmong, hhole, if_neg Bool.false_ne_true, hbelow, ite_self, ih hrest]
    rfl

/-- Nothing is missing in a whole tree. -/
theorem Whole.holesBelow_eq_nil (h : x.Whole) (offset : Nat) : x.holesBelow offset = [] := by
  induction h generalizing offset with
  | leaf => rfl
  | branch _ hchildren _ _ ih =>
    exact holesAmong_eq_nil (fun child hchild =>
      ⟨isHole_eq_false (hchildren child hchild).kind_ne_error, ih child hchild⟩) offset

theorem holesAmong_of_whole (h : ∀ node ∈ nodes, node.Whole) (offset : Nat) :
    holesAmong offset nodes = [] :=
  holesAmong_eq_nil (fun node hnode => ⟨isHole_eq_false (h node hnode).kind_ne_error,
    (h node hnode).holesBelow_eq_nil⟩) offset

/-- Marks in a row are all at one place. -/
theorem eq_of_mem_holesAmong_gaps (h : ∀ node ∈ nodes, ∃ problem, node = .error problem [])
    {offset : Nat} :
    ∀ hole ∈ holesAmong offset nodes, hole = offset := by
  induction nodes with
  | nil => exact fun _ => nofun
  | cons node rest ih =>
    obtain ⟨⟨problem, rfl⟩, hrest⟩ := List.forall_mem_cons.1 h
    rw [holesAmong, show offset + (Node.error problem []).size = offset from rfl]
    intro hole hhole
    rcases List.mem_append.1 hhole with hhole | hhole
    · split at hhole
      · exact List.mem_singleton.1 hhole
      · split at hhole <;> cases hhole
    · exact ih hrest hole hhole

namespace Torn

/-- What a torn tree comes from is known where it is no branch. -/
theorem eq_of_isTrivia (h : Torn x y) (hx : x.Whole)
    (htrivia : y.kind.isTrivia = true) : y = x := by
  cases h with
  | whole => rfl
  | inside | opened =>
    cases hx with
    | branch hconstruct =>
      have hne := (Kind.not_isTrivia_of_isConstruct hconstruct).1
      exact absurd (hne.symm.trans htrivia) Bool.false_ne_true

theorem kind_ne_error (h : Torn x y) (hx : x.Whole) : y.kind ≠ .error :=
  h.kind_eq ▸ hx.kind_ne_error

/-- The parts are of the kinds they were. -/
theorem partKinds_eq (h : Torn x y) (front back : List Node) :
    partKinds (front ++ y :: back) = partKinds (front ++ x :: back) := by
  have hkinds (nodes : List Node) :
      partKinds nodes = (nodes.map Node.kind).filter (!·.isTrivia) := by
    rw [partKinds, List.filter_map]
    rfl
  rw [hkinds, hkinds, h.map_kind_eq]

/-- Around a torn node nothing is missing but at the end of the row. -/
theorem eq_of_mem_holesAmong (h : Torn x y) {front back gaps : List Node}
    (hwhole : ∀ node ∈ front ++ x :: back, node.Whole) (hback : sizeAll back = 0)
    (hgaps : ∀ gap ∈ gaps, ∃ problem, gap = .error problem [])
    (hbelow : ∀ offset, ∀ hole ∈ y.holesBelow offset, hole = offset + y.size) {offset : Nat} :
    ∀ hole ∈ holesAmong offset (front ++ y :: back ++ gaps),
      hole = offset + sizeAll (front ++ y :: back ++ gaps) := by
  simp only [List.forall_mem_append, List.forall_mem_cons] at hwhole
  obtain ⟨hfront, hx, hbacks⟩ := hwhole
  have hsize : sizeAll (front ++ y :: back) = sizeAll front + y.size := by
    rw [sizeAll_append, sizeAll, hback, Nat.add_zero]
  intro hole hhole
  rw [holesAmong_append, hsize, holesAmong_append, holesAmong_of_whole hfront, List.nil_append,
    holesAmong, isHole_eq_false (h.kind_ne_error hx), if_neg Bool.false_ne_true,
    holesAmong_of_whole hbacks, List.append_nil] at hhole
  rw [sizeAll_append, hsize, sizeAll_eq_zero hgaps, Nat.add_zero]
  rcases List.mem_append.1 hhole with hhole | hhole
  · split at hhole
    · cases hhole
    · rw [hbelow _ hole hhole, Nat.add_assoc]
  · exact eq_of_mem_holesAmong_gaps hgaps hole hhole

/-- **What is missing in a torn tree is missing at its end.** -/
theorem eq_of_mem_holesBelow (h : Torn x y) (hx : x.Whole) (offset : Nat) :
    ∀ hole ∈ y.holesBelow offset, hole = offset + y.size := by
  induction h generalizing offset with
  | whole node =>
    rw [hx.holesBelow_eq_nil]
    exact fun _ => nofun
  | @inside kind front back x y htorn hback ih =>
    cases hx with
    | branch _ hchildren =>
      have hx := hchildren x (List.mem_append_right _ List.mem_cons_self)
      have hrow := @eq_of_mem_holesAmong _ _ htorn front back [] hchildren hback (fun _ => nofun)
        (ih hx) offset
      rwa [List.append_nil] at hrow
  | @opened kind front back gaps x y htorn hback _ hgaps _ ih =>
    cases hx with
    | branch _ hchildren =>
      have hchildren := (List.forall_mem_append.1 hchildren).1
      have hx := hchildren x (List.mem_append_right _ List.mem_cons_self)
      exact htorn.eq_of_mem_holesAmong hchildren hback hgaps (ih hx)

end Torn

end Node

theorem Cursor.Below.whole {c d : Cursor} (h : Below c d) (hwhole : c.node.Whole) :
    d.node.Whole := by
  induction h with
  | self => exact hwhole
  | child _ hchild ih => exact (ih.of_mem_children (node_mem_of_mem_children hchild)).2

theorem Cursor.Below.simple {c d : Cursor} (h : Below c d) (hsimple : c.node.Simple) :
    d.node.Simple := by
  induction h with
  | self => exact hsimple
  | child _ hchild ih => exact ih.of_mem_children (node_mem_of_mem_children hchild)

/-! ## Where the parts of a node end -/

/-- A row that ends with a token has no text behind it. -/
theorem Node.sizeAll_eq_zero_of_ends {nodes : List Node} (h : EndsWithToken nodes)
    (hblank : ∀ node ∈ nodes, node.kind.isTrivia = true ∧ node.leaves = [node] ∨ node.size = 0) :
    sizeAll nodes = 0 := by
  have hempty : leavesAll nodes = [] := by
    by_contra hne
    obtain ⟨leaf, hlast⟩ := Option.isSome_iff_exists.1 (List.getLast?_isSome.2 hne)
    have hmem := List.mem_of_getLast? hlast
    rw [leavesAll_eq_flatMap, List.mem_flatMap] at hmem
    obtain ⟨node, hnode, hleaf⟩ := hmem
    rcases hblank node hnode with ⟨htrivia, hleaves⟩ | hzero
    · have hkind := h _ hlast
      rw [hleaves, List.mem_singleton] at hleaf
      rw [hleaf, htrivia] at hkind
      cases hkind
    · have htext := flatMap_leaves node
      rw [Text.eq_nil_of_size_eq_zero (node.size_text.trans hzero),
        List.flatMap_eq_nil_iff] at htext
      exact ownText_ne_nil_of_mem_leaves node _ hleaf (htext _ hleaf)
  rw [← size_textAll, ← flatMap_leavesAll, hempty]
  rfl

namespace Cursor

variable {c last : Cursor}

/-- White space and comments among the children are leaves with some text. -/
def HasBlankLeaves (c : Cursor) : Prop :=
  ∀ child ∈ c.node.children, child.kind.isTrivia = true → child.leaves = [child]

/-- Where no white space ends a node, its last part ends it. -/
theorem stop_of_lastPart? (hends : Node.EndsWithToken c.node.children) (hblank : c.HasBlankLeaves)
    (h : c.lastPart? = some last) : last.stop = c.stop := by
  obtain ⟨parts, hparts⟩ := List.getLast?_eq_some_iff.1 h
  obtain ⟨front, rest, hchildren, -, hrest⟩ := List.filter_eq_append_iff.1 hparts
  obtain ⟨before, back, rfl, -, -, hback⟩ := List.filter_eq_cons_iff.1 hrest
  rw [← List.append_assoc] at hchildren
  have hnodes := map_node_of_children_eq hchildren
  have hblanks : ∀ node ∈ back.map (·.node),
      node.kind.isTrivia = true ∧ node.leaves = [node] ∨ node.size = 0 := by
    intro node hnode
    obtain ⟨child, hchild, rfl⟩ := List.mem_map.1 hnode
    have hnot := List.filter_eq_nil_iff.1 hback child hchild
    rw [Bool.and_eq_true, not_and_or, Bool.not_eq_true', Bool.not_eq_true', Bool.not_eq_false,
      Bool.not_eq_false] at hnot
    refine hnot.imp (fun htrivia => ⟨htrivia, hblank _ ?_ htrivia⟩) fun hgap => ?_
    · rw [hnodes]
      exact List.mem_append_right _ (List.mem_cons_of_mem _ hnode)
    · exact of_decide_eq_true (Bool.and_eq_true_iff.1 hgap).2
  -- behind the last part there are gaps only, since no white space ends the node
  have hbacks : Node.EndsWithToken (back.map (·.node)) := by
    have hdrop := hends.drop ((front ++ before).map (·.node) ++ [last.node]).length
    rwa [hnodes, List.append_cons _ last.node (back.map _), List.drop_left] at hdrop
  have hsize := Node.sizeAll_eq_zero_of_ends hbacks hblanks
  have hstop : c.node.size = Node.sizeAll ((front ++ before).map (·.node)) + last.node.size := by
    cases hnode : c.node with
    | leaf | error => simp [hnode, Node.children] at hnodes
    | branch kind children =>
      rw [hnode, Node.children] at hnodes
      rw [Node.size, hnodes, List.append_cons _ last.node (back.map _), Node.sizeAll_append,
        Node.sizeAll_append, hsize]
      simp only [Node.sizeAll, Nat.add_zero]
  rw [stop, stop, offset_of_children_eq hchildren, hstop, Nat.add_assoc]

theorem partsStop_eq_stop (hends : Node.EndsWithToken c.node.children) (hblank : c.HasBlankLeaves) :
    c.partsStop = c.stop := by
  unfold partsStop
  split
  · next last hlast => exact stop_of_lastPart? hends hblank hlast
  · rfl

end Cursor

namespace Repair

open Node (Torn)

variable {c : Cursor} {stop : Nat} {d : Document}

/-! ## What the remedies do in an expression -/

/-- Nothing is done but to record holes at an offset. -/
def RecordsAt (stop : Nat) (actions : List Action) : Prop :=
  ∀ action ∈ actions, action = .hole stop

/-- Holes are recorded at an offset, and then a text is inserted there. -/
def InsertsAt (stop : Nat) (new : Text) (actions : List Action) : Prop :=
  ∃ holes, RecordsAt stop holes ∧ actions = holes ++ [.insert stop new]

theorem recordsAt_nil : RecordsAt stop [] :=
  nofun

/-- Four of the remedies are for an expression without braces and for a statement made of one. -/
theorem actions_of_isUnbraced (h : c.kind.isUnbraced = true) (remedy : Remedy) :
    remedy.actions d c = .ok (match remedy with
      | .literal => closeLiteral c
      | .call => closeArguments c
      | .parentheses => closeParenthesized c
      | .semicolon => addSemicolon c
      | _ => []) := by
  cases remedy with
  | literal | call | parentheses | semicolon => rfl
  | unbracedBody =>
    exact Remedy.actions_of_not_isFor (by
      show ownsUnbracedBody c.kind = false
      revert h
      cases c.kind <;> decide)
  | _ =>
    exact Remedy.actions_of_not_isFor (decide_eq_false fun hkind => by rw [hkind] at h; cases h)

/-- Three of them are for the expression. -/
theorem actions_of_isSimple (h : c.kind.isSimple = true) (remedy : Remedy) :
    remedy.actions d c = .ok (match remedy with
      | .literal => closeLiteral c
      | .call => closeArguments c
      | .parentheses => closeParenthesized c
      | _ => []) := by
  rw [actions_of_isUnbraced (by rw [Kind.isUnbraced, h]; rfl)]
  cases remedy with
  | semicolon => 
    refine Remedy.actions_of_not_isFor (d := d) (c := c)
      (show Remedy.semicolon.isFor c.kind = false from ?_)
    revert h
    cases c.kind <;> decide
  | _ => rfl

/-- One of them is for the statement. -/
theorem actions_of_expressionStatement (h : c.kind = .expressionStatement) (remedy : Remedy) :
    remedy.actions d c = .ok (if remedy = .semicolon then addSemicolon c else []) := by
  cases remedy with
  | semicolon => rfl
  | _ => exact Remedy.actions_of_not_isFor (by rw [h]; rfl)

/-! ## Nodes of an expression whose end is torn off -/

/-- A node in front of the tear, a mark in its place, or a node that goes up to it. -/
inductive Frayed (stop : Nat) (c : Cursor) : Prop where
  | whole : c.node.Whole → c.node.Simple → Frayed stop c
  | gap {problem : Problem} : c.node = .error problem [] → Frayed stop c
  | torn {x : Node} : Torn x c.node → x.Whole → x.Simple → c.stop = stop → Frayed stop c

/-- A child is one of those in front, the torn one or one of those behind it. -/
theorem mem_children_cases {front back : List Node} {y : Node}
    (h : c.node.children = front ++ y :: back) {child : Cursor} (hchild : child ∈ c.children) :
    child.node ∈ front ∨ child.node ∈ back
      ∨ child.node = y ∧ child.offset = c.offset + Node.sizeAll front := by
  obtain ⟨before, node, after, hchildren, rfl⟩ := Cursor.mem_placeAll.1 hchild
  rcases Cursor.split_cases (h.symm.trans hchildren) with ⟨rfl, rfl, rfl⟩ | ⟨middle, rfl, rfl⟩
    | ⟨middle, rfl, rfl⟩
  · exact .inr (.inr ⟨rfl, rfl⟩)
  · exact .inl (List.mem_append_right _ List.mem_cons_self)
  · exact .inr (.inl (List.mem_append_right _ List.mem_cons_self))

namespace Frayed

theorem isSimple (h : Frayed stop c) : c.kind.isSimple = true := by
  cases h with
  | whole _ hsimple => exact hsimple.isSimple
  | gap hnode =>
    rw [Cursor.kind, hnode]
    rfl
  | torn htorn _ hsimple =>
    rw [Cursor.kind, htorn.kind_eq]
    exact hsimple.isSimple

/-- So is what is below it. -/
theorem child (h : Frayed stop c) {child : Cursor} (hchild : child ∈ c.children) :
    Frayed stop child := by
  have hmem := Cursor.node_mem_of_mem_children hchild
  have hwhole (hwhole : c.node.Whole) (hsimple : c.node.Simple) : Frayed stop child :=
    .whole (hwhole.of_mem_children hmem).2 (hsimple.of_mem_children hmem)
  -- a torn child ends where its parent does, and the others are whole
  cases h with
  | whole hx hsimple => exact hwhole hx hsimple
  | gap hnode =>
    rw [hnode] at hmem
    cases hmem
  | @torn x htorn hx hsimple hstop =>
    generalize hnode : c.node = y at htorn
    cases htorn with
    | whole => exact hwhole (hnode ▸ hx) (hnode ▸ hsimple)
    | @inside kind front back x y htorn hback =>
      cases hx with
      | branch _ hwholes =>
        cases hsimple with
        | branch _ hsimples =>
          simp only [List.forall_mem_append, List.forall_mem_cons] at hwholes hsimples
          have hchildren : c.node.children = front ++ y :: back := by rw [hnode, Node.children]
          rcases mem_children_cases hchildren hchild with hfront | hbacks | ⟨rfl, hoffset⟩
          · exact .whole (hwholes.1 _ hfront) (hsimples.1 _ hfront)
          · exact .whole (hwholes.2.2 _ hbacks) (hsimples.2.2 _ hbacks)
          · refine .torn htorn hwholes.2.1 hsimples.2.1 ?_
            rw [← hstop, Cursor.stop, Cursor.stop, hoffset, hnode, Node.size, Node.sizeAll_append,
              Node.sizeAll, hback, Nat.add_zero, Nat.add_assoc]
    | @opened kind front back gaps x y htorn hback hkind hgaps hproblem =>
      cases hx with
      | branch _ hwholes =>
        cases hsimple with
        | branch _ hsimples =>
          simp only [List.forall_mem_append, List.forall_mem_cons] at hwholes hsimples
          have hchildren : c.node.children = front ++ y :: (back ++ gaps) := by
            rw [hnode, Node.children, List.append_assoc, List.cons_append]
          rcases mem_children_cases hchildren hchild with hfront | hbacks | ⟨rfl, hoffset⟩
          · exact .whole (hwholes.1.1 _ hfront) (hsimples.1.1 _ hfront)
          · rcases List.mem_append.1 hbacks with hbacks | hmark
            · exact .whole (hwholes.1.2.2 _ hbacks) (hsimples.1.2.2 _ hbacks)
            · obtain ⟨problem, hgap⟩ := hgaps _ hmark
              exact .gap hgap
          · refine .torn htorn hwholes.1.2.1 hsimples.1.2.1 ?_
            rw [← hstop, Cursor.stop, Cursor.stop, hoffset, hnode, Node.size,
              Node.sizeAll_row hback (Node.sizeAll_eq_zero hgaps), Nat.add_assoc]

theorem below (h : Frayed stop c) {other : Cursor} (hother : Cursor.Below c other) :
    Frayed stop other := by
  induction hother with
  | self => exact h
  | child _ hchild ih => exact ih.child hchild

/-- White space and comments are leaves. -/
theorem leaves_of_isTrivia (h : Frayed stop c) (htrivia : c.kind.isTrivia = true) :
    c.node.leaves = [c.node] := by
  have hleaf {node : Node} (hwhole : node.Whole) (htrivia : node.kind.isTrivia = true) :
      node.leaves = [node] := by
    cases hwhole with
    | leaf _ _ htext => exact Node.leaves_eq_singleton htext
    | branch hconstruct =>
      have hnot := (Kind.not_isTrivia_of_isConstruct hconstruct).1
      exact absurd (hnot.symm.trans htrivia) Bool.false_ne_true
  have htrivia : c.node.kind.isTrivia = true := htrivia
  cases h with
  | whole hwhole => exact hleaf hwhole htrivia
  | gap hnode =>
    rw [hnode] at htrivia
    cases htrivia
  | torn htorn hx =>
    have heq := htorn.eq_of_isTrivia hx htrivia
    rw [heq] at htrivia ⊢
    exact hleaf hx htrivia

/-- No branch of it is a statement, a member or a block. -/
theorem isCandidate_eq_false (h : Frayed stop c) (hchildren : c.children ≠ []) :
    Target.isCandidate c.kind = false := by
  have hcomment : c.kind.isComment = false := by
    cases hcomment : c.kind.isComment with
    | false => rfl
    | true =>
      have htrivia : c.kind.isTrivia = true := by
        revert hcomment
        cases c.kind <;> decide
      have hleaves := h.leaves_of_isTrivia htrivia
      cases hnode : c.node with
      | leaf | error => exact absurd (by rw [Cursor.children, hnode]; rfl) hchildren
      | branch kind children =>
        have htext := Node.ownText_ne_nil_of_mem_leaves c.node c.node (by rw [hleaves]; simp)
        rw [hnode] at htext
        exact absurd rfl htext
  have hsimple := h.isSimple
  revert hsimple hcomment
  rw [Target.isCandidate]
  cases c.kind <;> decide

/-- Only a leaf can be a literal. -/
theorem closingQuote?_or_ownText (h : Frayed stop c) :
    closingQuote? c.node.kind = none ∨ c.node.ownText ≠ [] := by
  have hwhole {node : Node} (hwhole : node.Whole) :
      closingQuote? node.kind = none ∨ node.ownText ≠ [] := by
    cases hwhole with
    | leaf _ _ htext => exact .inr htext
    | @branch kind _ hconstruct =>
      left
      rw [Node.kind]
      cases kind <;> first | rfl | cases hconstruct
  cases h with
  | whole hc => exact hwhole hc
  | gap hnode =>
    rw [hnode]
    exact .inl rfl
  | @torn x htorn hx =>
    rcases hwhole hx with hnone | hown
    · rw [htorn.kind_eq]
      exact .inl hnone
    · -- a leaf is not torn
      have heq : c.node = x := by
        generalize c.node = y at htorn
        cases htorn with
        | whole => rfl
        | inside | opened => exact absurd rfl hown
      rw [heq]
      exact .inr hown

theorem hasBlankLeaves (h : Frayed stop c) : c.HasBlankLeaves := by
  intro node hnode htrivia
  rw [← Cursor.map_node_placeAll (c.toPlaced :: c.above) 0 c.offset c.node.children] at hnode
  obtain ⟨child, hchild, rfl⟩ := List.mem_map.1 hnode
  exact (h.child hchild).leaves_of_isTrivia htrivia

/-- The holes below are at the end. -/
theorem recordsAt_recordBelow (h : Frayed stop c) : RecordsAt stop (Action.recordBelow c) := by
  intro action haction
  obtain ⟨hole, hhole, rfl⟩ := List.mem_map.1 haction
  rw [Cursor.holes] at hhole
  cases h with
  | whole hwhole =>
    rw [hwhole.holesBelow_eq_nil] at hhole
    cases hhole
  | gap hnode =>
    rw [hnode] at hhole
    cases hhole
  | torn htorn hx _ hstop =>
    rw [htorn.eq_of_mem_holesBelow hx _ hole hhole, ← hstop]
    rfl

end Frayed

/-- A closing parenthesis goes to the end of the node. -/
theorem closeWith_cases (kind : Kind) (hends : Node.EndsWithToken c.node.children)
    (hblank : c.HasBlankLeaves) :
    closeWith kind .rightParen [')'] c = []
      ∨ closeWith kind .rightParen [')'] c = [.insert c.stop [')']] := by
  unfold closeWith
  split
  · right
    rw [Cursor.partsStop_eq_stop hends hblank]
  · exact .inl rfl

/-- What is whole has its closing parenthesis. -/
theorem closeWith_of_whole {kind : Kind} (hwhole : c.node.Whole) (hkind : kind.isParens = true) :
    closeWith kind .rightParen [')'] c = [] := by
  refine closeWith_eq_nil _ fun hc => ?_
  subst hc
  have hconstruct : c.node.kind.isConstruct = true := by
    have hkind : c.node.kind.isParens = true := hkind
    revert hkind
    cases c.node.kind <;> decide
  have hfits := (hwhole.admits hconstruct).fits
  have hkind : c.node.kind.isParens = true := hkind
  generalize hc : c.node.kind = kind at hfits hkind
  cases kind <;> first | exact hfits | cases hkind

theorem closes_nothing_of_whole {kind : Kind} (hwhole : c.node.Whole)
    (hkind : kind.isParens = true) :
    Action.recordBelow c ++ closeWith kind .rightParen [')'] c = [] := by
  rw [closeWith_of_whole hwhole hkind, Action.recordBelow, Cursor.holes, hwhole.holesBelow_eq_nil]
  rfl

/-- In front of the tear there is nothing to do. -/
theorem actions_of_whole (hwhole : c.node.Whole) (hsimple : c.node.Simple)
    (hliteral : isOpenLiteral c.node = false) (remedy : Remedy) : remedy.actions d c = .ok [] := by
  rw [actions_of_isSimple hsimple.isSimple]
  congr 1
  split
  · exact closeLiteral_eq_nil hliteral
  · unfold closeArguments
    split
    · split
      · next list hlist =>
        have hmem := Cursor.node_mem_of_mem_children (Cursor.mem_of_child? hlist)
        exact closes_nothing_of_whole (hwhole.of_mem_children hmem).2 rfl
      · rfl
    · rfl
  · unfold closeParenthesized
    split
    · exact closes_nothing_of_whole hwhole rfl
    · rfl
  · rfl

/-- Nor is there anything to do about a mark. -/
theorem actions_of_gap {problem : Problem} (h : c.node = .error problem []) (remedy : Remedy) :
    remedy.actions d c = .ok [] := by
  have hkind : c.kind = .error := by rw [Cursor.kind, h]; rfl
  refine Remedy.actions_of_not_isFor ?_
  rw [hkind]
  cases remedy <;> rfl

namespace Frayed

/-- What is not at the end has its closing parenthesis. -/
theorem stop_eq_of_closeWith {kind : Kind} (h : Frayed stop c) (hkind : kind.isParens = true)
    (hcloses : closeWith kind .rightParen [')'] c ≠ []) : c.stop = stop := by
  cases h with
  | whole hwhole => exact absurd (closeWith_of_whole hwhole hkind) hcloses
  | gap hnode =>
    refine absurd (closeWith_eq_nil _ fun hc => ?_) hcloses
    rw [Cursor.kind, hnode] at hc
    rw [← hc] at hkind
    cases hkind
  | torn _ _ _ hstop => exact hstop

theorem acts_closeWith {kind : Kind} (h : Frayed stop c)
    (hends : Node.EndsWithToken c.node.children) (hkind : kind.isParens = true) :
    RecordsAt stop (Action.recordBelow c ++ closeWith kind .rightParen [')'] c)
      ∨ InsertsAt stop [')'] (Action.recordBelow c ++ closeWith kind .rightParen [')'] c) := by
  rcases closeWith_cases kind hends h.hasBlankLeaves with heq | heq
  · left
    rw [heq, List.append_nil]
    exact h.recordsAt_recordBelow
  · right
    have hstop := h.stop_eq_of_closeWith hkind (by rw [heq]; exact List.cons_ne_nil _ _)
    exact ⟨_, h.recordsAt_recordBelow, by rw [heq, hstop]⟩

/-- **Where the end of an expression is torn off, the remedies close it there or do nothing but
record holes there.** -/
theorem exists_actions (h : Frayed stop c) (htidy : c.node.Tidy)
    (hliteral : isOpenLiteral c.node = false)
    (remedy : Remedy) : ∃ actions, remedy.actions d c = .ok actions
      ∧ (RecordsAt stop actions ∨ InsertsAt stop [')'] actions) := by
  refine ⟨_, actions_of_isSimple h.isSimple remedy, ?_⟩
  split
  · rw [closeLiteral_eq_nil hliteral]
    exact .inl recordsAt_nil
  · unfold closeArguments
    split
    · split
      · next list hlist =>
        have hmem := Cursor.mem_of_child? hlist
        have hlistTidy := htidy.of_mem_children (Cursor.node_mem_of_mem_children hmem)
        exact (h.child hmem).acts_closeWith hlistTidy.endsWithToken rfl
      · exact .inl recordsAt_nil
    · exact .inl recordsAt_nil
  · unfold closeParenthesized
    split
    · exact h.acts_closeWith htidy.endsWithToken rfl
    · exact .inl recordsAt_nil
  · exact .inl recordsAt_nil

end Frayed

/-! ## What is torn off is closed -/

/-- Some remedy inserts a text at an offset. -/
def Inserts (stop : Nat) (new : Text) (c : Cursor) : Prop :=
  ∃ remedy : Remedy, ∀ d, ∃ actions, remedy.actions d c = .ok actions ∧ InsertsAt stop new actions

/-- The walk goes on into the children of an expression. -/
theorem Frayed.passes_child {child other : Cursor} (h : Frayed stop c) (hchild : child ∈ c.children)
    (htrivia : child.kind.isTrivia = false) (hpasses : Target.Passes 0 child other) :
    Target.Passes 0 c other := by
  have hkind : c.kind.isStatement = false ∧ Target.stopsWalk c.kind = false := by
    have hsimple := h.isSimple
    revert hsimple
    cases c.kind <;> decide
  have hskip : Target.isSkipped c.kind child.kind = false := by
    rw [Target.isSkipped, htrivia, hkind.1]
    rfl
  have hway := Target.Passes.child hchild hskip hpasses
  rwa [hkind.2] at hway

/-- A node that lost its closing parenthesis gets it. -/
theorem insertsAt_closeWith {kind : Kind} (h : Frayed stop c)
    (hends : Node.EndsWithToken c.node.children)
    (hkind : c.kind = kind) (hlacks : ∀ child ∈ c.node.children, child.kind ≠ .rightParen)
    (hstop : c.stop = stop) :
    InsertsAt stop [')'] (Action.recordBelow c ++ closeWith kind .rightParen [')'] c) := by
  have hnone : c.child? .rightParen = none := by
    refine List.find?_eq_none.2 fun child hchild => ?_
    rw [decide_eq_true_eq]
    exact hlacks _ (Cursor.node_mem_of_mem_children hchild)
  refine ⟨_, h.recordsAt_recordBelow, ?_⟩
  rw [closeWith, hnone, if_pos ⟨hkind, rfl⟩, Cursor.partsStop_eq_stop hends h.hasBlankLeaves, hstop]

/-- The last child with text ends where its parent does. -/
theorem exists_last_child {kind : Kind} {front back : List Node} {y : Node}
    (hnode : c.node = .branch kind (front ++ y :: back)) (hback : Node.sizeAll back = 0) :
    ∃ child ∈ c.children, child.node = y ∧ child.stop = c.stop := by
  have hchildren : c.node.children = front ++ y :: back := by rw [hnode, Node.children]
  refine ⟨_, Cursor.mem_placeAll.2 ⟨front, y, back, hchildren, rfl⟩, rfl, ?_⟩
  rw [Cursor.stop, Cursor.stop, hnode, Node.size, Node.sizeAll_append, Node.sizeAll,
    hback, Nat.add_zero, Nat.add_assoc]

/-- A list of arguments stands in a call, which holds no other. -/
theorem child?_argumentList (h : c.node.Simple) {child : Cursor} (hchild : child ∈ c.children)
    (hlist : child.kind = .argumentList) :
    (c.kind = .methodCall ∨ c.kind = .newExpression) ∧ c.child? .argumentList = some child := by
  obtain ⟨before, after, hrow⟩ := List.append_of_mem hchild
  have hchildren : c.node.children = before.map (·.node) ++ child.node :: after.map (·.node) := by
    rw [← Cursor.map_node_placeAll (c.toPlaced :: c.above) 0 c.offset c.node.children,
      show Cursor.placeAll _ _ _ _ = c.children from rfl, hrow, List.map_append, List.map_cons]
  cases hnode : c.node with
  | leaf | error => simp [hnode, Node.children] at hchildren
  | branch kind children =>
    rw [hnode] at h hchildren
    obtain rfl : children = _ := hchildren
    cases h with
    | branch _ _ hlast hlists =>
      constructor
      · have hcall : kind.isCall = true := by
          cases hcall : kind.isCall with
          | true => rfl
          | false =>
            exact absurd hlist (hlists hcall _ (List.mem_append_right _ List.mem_cons_self))
        rw [Cursor.kind, hnode]
        rwa [Kind.isCall, Bool.or_eq_true, decide_eq_true_eq, decide_eq_true_eq] at hcall
      · refine List.find?_eq_some_iff_append.2 ⟨decide_eq_true hlist, before, after, hrow, ?_⟩
        intro other hother
        rw [List.dropLast_append_of_ne_nil (List.cons_ne_nil _ _)] at hlast
        have hkind := hlast _ (List.mem_append_left _ (List.mem_map_of_mem hother))
        rw [Bool.not_eq_true', decide_eq_false_iff_not]
        exact hkind

/-- What has lost its closing parenthesis has no other. -/
theorem ne_rightParen_of_opened {kind : Kind} {front back gaps : List Node} {x y : Node}
    (htorn : Torn x y)
    (hkind : kind.isParens = true) (hgaps : ∀ gap ∈ gaps, ∃ problem, gap = .error problem [])
    (hsimple : (Node.branch kind (front ++ x :: back ++ [.closer])).Simple) :
    ∀ child ∈ front ++ y :: back ++ gaps, child.kind ≠ .rightParen := by
  cases hsimple with
  | branch _ _ _ _ hparens =>
    have hparens := hparens hkind
    rw [List.dropLast_concat] at hparens
    simp only [List.forall_mem_append, List.forall_mem_cons, htorn.kind_eq] at hparens ⊢
    refine ⟨hparens, fun gap hgap => ?_⟩
    obtain ⟨problem, rfl⟩ := hgaps gap hgap
    show Kind.error ≠ .rightParen
    decide

/-- **Where something is torn off the end of an expression, a remedy closes it**, one for the node
itself, for a node below it or for the call around it. -/
theorem exists_inserts {x y : Node} (h : Torn x y) (hne : y ≠ x) (hx : x.Whole) (hsimple : x.Simple)
    : ∀ c : Cursor, c.node = y → c.node.Tidy → c.stop = stop →
    (∃ other, Target.Passes 0 c other ∧ Inserts stop [')'] other)
      ∨ c.kind = .argumentList
        ∧ InsertsAt stop [')'] (Action.recordBelow c ++ closeWith .argumentList .rightParen
          [')'] c) := by
  induction h with
  | whole => exact absurd rfl hne
  | @inside kind front back x y htorn hback ih =>
    intro c hnode htidy hstop
    have hsimple' : c.node.Simple := hnode ▸ (htorn.inside hback).simple hsimple
    have hfrayed : Frayed stop c := .torn (hnode ▸ htorn.inside hback) hx hsimple hstop
    have hne : y ≠ x := fun heq => hne (by rw [heq])
    have hmem : x ∈ (Node.branch kind (front ++ x :: back)).children :=
      List.mem_append_right _ List.mem_cons_self
    obtain ⟨-, hwhole⟩ := hx.of_mem_children hmem
    obtain ⟨child, hchild, rfl, hchildStop⟩ := exists_last_child hnode hback
    have hchildTidy := htidy.of_mem_children (Cursor.node_mem_of_mem_children hchild)
    left
    rcases ih hne hwhole (hsimple.of_mem_children hmem) child rfl hchildTidy
        (hchildStop.trans hstop) with
      ⟨other, hother, hinserts⟩ | ⟨hlist, hinserts⟩
    · refine ⟨other, hfrayed.passes_child hchild ?_ hother, hinserts⟩
      cases htrivia : child.kind.isTrivia with
      | false => rfl
      | true => exact absurd (htorn.eq_of_isTrivia hwhole htrivia) hne
    · -- a list belongs to the call that it ends
      obtain ⟨hcall, hfound⟩ := child?_argumentList hsimple' hchild hlist
      refine ⟨c, .self c, .call, fun d => ⟨_, rfl, ?_⟩⟩
      rwa [closeArguments, if_pos hcall, hfound]
  | @opened kind front back gaps x y htorn hback hkind hgaps hproblem ih =>
    intro c hnode htidy hstop
    have hfrayed : Frayed stop c :=
      .torn (hnode ▸ htorn.opened hback hkind hgaps hproblem) hx hsimple hstop
    have hlacks : ∀ child ∈ c.node.children, child.kind ≠ .rightParen := by
      rw [hnode]
      exact ne_rightParen_of_opened htorn hkind hgaps hsimple
    have hends := htidy.endsWithToken
    cases hkinds : kind <;> rw [hkinds] at hkind <;> cases hkind
    case argumentList.refl =>
      have hc : c.kind = .argumentList := by rw [Cursor.kind, hnode, ← hkinds]; rfl
      exact .inr ⟨hc, insertsAt_closeWith hfrayed hends hc hlacks hstop⟩
    case parenthesized.refl =>
      have hc : c.kind = .parenthesized := by rw [Cursor.kind, hnode, ← hkinds]; rfl
      refine .inl ⟨c, .self c, .parentheses, fun d => ⟨_, rfl, ?_⟩⟩
      rw [closeParenthesized, if_pos hc]
      exact insertsAt_closeWith hfrayed hends hc hlacks hstop

end Repair

end StatementCompletion
