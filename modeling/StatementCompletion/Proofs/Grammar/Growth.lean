import Mathlib.Data.List.Forall2
import Mathlib.Data.Nat.Basic
import Mathlib.Order.Basic
import StatementCompletion.Grammar.Parser
import StatementCompletion.Proofs.Tree.Leaves

/-!
# How the row of nodes grows

`Grows floor s s'` says that `s'` comes from `s` by taking tokens in, marking what is missing and
wrapping, and that none of this touched the oldest `floor` nodes of the row.  A token may be taken
in anywhere, for it joins the row at its end.  A mark and a wrap change the row in front of the
white space that is already in it, so they are allowed only when that place lies above the floor.

Three things follow by induction on the growth.  The nodes below the floor stay, which is what makes
cutting the row back the same as going back.  The tokens ahead only get fewer.  And the row with the
tokens ahead keeps its leaves, up to tokens that became errors, so no text is lost.
-/

namespace StatementCompletion

/-! ## Leaves that became errors -/

namespace Node

/-- A leaf that is still there, or stands as an error with the same text. -/
def Softens (old new : Node) : Prop :=
  new.ownText = old.ownText ∧ (new = old ∨ new.kind = .error)

theorem Softens.refl (node : Node) : Softens node node :=
  ⟨rfl, .inl rfl⟩

theorem Softens.trans {a b c : Node} (hab : Softens a b) (hbc : Softens b c) : Softens a c := by
  refine ⟨hbc.1.trans hab.1, ?_⟩
  rcases hbc.2 with rfl | herror
  · exact hab.2
  · exact .inr herror

/-- Leaves of a row that are still there, or became errors, one by one. -/
def SoftensAll (old new : List Node) : Prop :=
  List.Forall₂ Softens old new

theorem SoftensAll.refl (nodes : List Node) : SoftensAll nodes nodes :=
  List.forall₂_same.2 fun node _ => .refl node

theorem SoftensAll.trans {a b c : List Node} (hab : SoftensAll a b) (hbc : SoftensAll b c) :
    SoftensAll a c := by
  induction hab generalizing c with
  | nil => exact hbc
  | cons hhead _ ih =>
    cases hbc with
    | cons hhead' htail' => exact .cons (hhead.trans hhead') (ih htail')

theorem SoftensAll.flatMap_ownText {old new : List Node} (h : SoftensAll old new) :
    new.flatMap ownText = old.flatMap ownText := by
  induction h with
  | nil => rfl
  | cons hhead _ ih => rw [List.flatMap_cons, List.flatMap_cons, hhead.1, ih]

theorem SoftensAll.exists_of_mem {old new : List Node} (h : SoftensAll old new) {leaf : Node}
    (hleaf : leaf ∈ new) : ∃ node ∈ old, Softens node leaf := by
  induction h with
  | nil => cases hleaf
  | @cons node leaf' _ _ hhead _ ih =>
    rcases List.mem_cons.1 hleaf with rfl | hleaf
    · exact ⟨node, List.mem_cons_self, hhead⟩
    · obtain ⟨node', hnode', hsoftens⟩ := ih hleaf
      exact ⟨node', List.mem_cons_of_mem _ hnode', hsoftens⟩

/-- Where the new leaves are cut, the old ones are cut with the same texts on both sides. -/
theorem SoftensAll.flatMap_take_drop {old front back : List Node}
    (h : SoftensAll old (front ++ back)) :
    front.flatMap ownText = (old.take front.length).flatMap ownText
      ∧ back.flatMap ownText = (old.drop front.length).flatMap ownText := by
  have htake := List.forall₂_take front.length h
  have hdrop := List.forall₂_drop front.length h
  rw [List.take_left] at htake
  rw [List.drop_left] at hdrop
  exact ⟨SoftensAll.flatMap_ownText htake, SoftensAll.flatMap_ownText hdrop⟩

end Node

namespace Token

theorem kind_node (token : Token) : token.node.kind = token.kind := by
  unfold node
  split
  · next hkind => rw [hkind, Node.kind]
  · rw [Node.kind]

theorem ownText_node (token : Token) : token.node.ownText = token.text := by
  unfold node
  split <;> rfl

/-- A token taken in as unexpected is the token or an error with its text. -/
theorem softens_unexpectedNode (token : Token) :
    Node.SoftensAll token.node.leaves (Grammar.State.unexpectedNode token).leaves := by
  obtain ⟨kind, text⟩ := token
  by_cases hkind : kind = .error
  · subst hkind
    exact .refl _
  · have hnode : node { kind, text } = .leaf kind text := by simp [node]
    have herror : Grammar.State.unexpectedNode { kind, text } = .error (.unexpected kind) text := by
      simp [Grammar.State.unexpectedNode]
    rw [hnode, herror, Node.leaves, Node.leaves]
    cases text with
    | nil => exact .nil
    | cons c rest => exact .cons ⟨rfl, .inr rfl⟩ .nil

end Token

namespace Grammar

namespace State

/-- The row of nodes, oldest first, with the nodes of the tokens ahead behind it. -/
def row (s : State) : List Node :=
  s.built.reverse ++ s.ahead.map Token.node

/-! ## Reading on -/

theorem ahead_read (built : List Node) (tokens : List Token) :
    (read built tokens).ahead = tokens.dropWhile Token.isTrivia := by
  unfold ahead read
  cases tokens.dropWhile Token.isTrivia <;> rfl

theorem row_read (built : List Node) (tokens : List Token) :
    (read built tokens).row = built.reverse ++ tokens.map Token.node := by
  rw [row, ahead_read]
  simp only [read, List.reverse_append, List.reverse_reverse, List.append_assoc, ← List.map_append,
    List.takeWhile_append_dropWhile]

theorem solid_read (built : List Node) (tokens : List Token) :
    (read built tokens).solid = built.length := by
  simp [solid, read]

theorem built_suffix_read (built : List Node) (tokens : List Token) :
    built <:+ (read built tokens).built :=
  List.suffix_append _ _

/-- At the end nothing is left to be read. -/
theorem unread_of_read {built : List Node} {tokens : List Token}
    (h : (read built tokens).token? = none) : (read built tokens).unread = [] := by
  simp only [read, List.head?_eq_none_iff] at h ⊢
  rw [h]
  rfl

theorem solid_le_marker (s : State) : s.solid ≤ s.marker :=
  Nat.sub_le _ _

/-! ## Taking a token -/

theorem isSome_of_current {s : State} (h : s.current ≠ .endOfFile) : s.token?.isSome := by
  cases htoken : s.token? with
  | none => exact absurd (by simp [current, htoken]) h
  | some token => rfl

theorem take_of_none {s : State} (h : s.token? = none) (node : Token → Node) :
    s.take node = s := by
  simp [State.take, h]

theorem take_of_some {s : State} {token : Token} (h : s.token? = some token)
    (node : Token → Node) : s.take node = read (node token :: s.built) s.unread := by
  simp [State.take, h]

theorem length_ahead_of_some {s : State} {token : Token} (h : s.token? = some token) :
    s.ahead.length = s.unread.length + 1 := by
  simp [ahead, h]

/-- A token that is taken in is no longer ahead. -/
theorem ahead_take_lt {s : State} (h : s.token?.isSome) (node : Token → Node) :
    (s.take node).ahead.length < s.ahead.length := by
  obtain ⟨token, htoken⟩ := Option.isSome_iff_exists.1 h
  rw [take_of_some htoken, ahead_read, length_ahead_of_some htoken]
  exact Nat.lt_succ_of_le (List.dropWhile_sublist _).length_le

/-- What is ahead then was ahead before. -/
theorem ahead_take_suffix (s : State) (node : Token → Node) : (s.take node).ahead <:+ s.ahead := by
  cases h : s.token? with
  | none => simp only [take_of_none h, List.suffix_rfl]
  | some token =>
    rw [take_of_some h, ahead_read]
    exact (List.dropWhile_suffix _).trans (List.suffix_append _ _)

/-- Everything that was in the row lies in front of the white space behind a token taken in. -/
theorem solid_take {s : State} (h : s.token?.isSome) (node : Token → Node) :
    (s.take node).solid = s.marker + 1 := by
  obtain ⟨token, htoken⟩ := Option.isSome_iff_exists.1 h
  rw [take_of_some htoken, solid_read]
  rfl

theorem built_suffix_take (s : State) (node : Token → Node) : s.built <:+ (s.take node).built := by
  cases h : s.token? with
  | none => simp only [take_of_none h, List.suffix_rfl]
  | some token =>
    rw [take_of_some h]
    exact (List.suffix_cons _ _).trans (built_suffix_read _ _)

/-- A token that is taken in keeps its place among the leaves. -/
theorem softens_take (s : State) {node : Token → Node}
    (hnode : node = Token.node ∨ node = unexpectedNode) :
    Node.SoftensAll (Node.leavesAll s.row) (Node.leavesAll (s.take node).row) := by
  cases htoken : s.token? with
  | none =>
    rw [take_of_none htoken]
    exact .refl _
  | some token =>
    have hleaves : Node.SoftensAll token.node.leaves (node token).leaves := by
      rcases hnode with rfl | rfl
      · exact .refl _
      · exact token.softens_unexpectedNode
    rw [take_of_some htoken, row_read, row, ahead, htoken]
    simp only [Option.toList_some, List.map_append, List.map_cons, List.map_nil, List.reverse_cons,
      Node.leavesAll_append, Node.leavesAll, List.append_nil, List.append_assoc]
    exact List.rel_append (Node.SoftensAll.refl _)
      (List.rel_append hleaves (Node.SoftensAll.refl _))

/-! ## Inserting a node -/

@[simp] theorem ahead_insertSolid (s : State) (count : Nat) (node : Node) :
    (s.insertSolid count node).ahead = s.ahead :=
  rfl

theorem solid_insertSolid (s : State) (count : Nat) (node : Node) :
    s.solid - count ≤ (s.insertSolid count node).solid := by
  simp only [solid, insertSolid, List.length_append, List.length_take, List.length_cons,
    List.length_drop]
  omega

/-- A node put in at or above some old nodes leaves them alone. -/
theorem suffix_insertSolid {s : State} {base : List Node} {count : Nat} (node : Node)
    (hbase : base <:+ s.built) (hlength : base.length + count ≤ s.solid) :
    base <:+ (s.insertSolid count node).built := by
  have hdrop : base <:+ s.built.drop (s.pending + count) := by
    refine List.suffix_of_suffix_length_le hbase (List.drop_suffix _ _) ?_
    rw [List.length_drop]
    simp only [solid] at hlength
    omega
  exact (hdrop.trans (List.suffix_cons _ _)).trans (List.suffix_append _ _)

/-- A node put in the place of others with the same leaves leaves the leaves as they are. -/
theorem leavesAll_insertSolid {s : State} {count : Nat} {node : Node}
    (h : node.leaves = Node.leavesAll ((s.built.drop s.pending).take count).reverse) :
    Node.leavesAll (s.insertSolid count node).row = Node.leavesAll s.row := by
  -- pending white space, what the node takes the place of, and the rest, newest first
  have hbuilt : s.built = s.built.take s.pending ++ ((s.built.drop s.pending).take count
      ++ s.built.drop (s.pending + count)) := by
    rw [← List.drop_drop, List.take_append_drop, List.take_append_drop]
  have hold : Node.leavesAll s.built.reverse
      = Node.leavesAll (s.built.drop (s.pending + count)).reverse ++ (node.leaves
        ++ Node.leavesAll (s.built.take s.pending).reverse) := by
    have hreverse := congrArg List.reverse hbuilt
    simp only [List.reverse_append, List.append_assoc] at hreverse
    rw [hreverse, Node.leavesAll_append, Node.leavesAll_append, h]
  simp only [row, ahead_insertSolid, Node.leavesAll_append, hold]
  simp only [insertSolid, List.reverse_append, List.reverse_cons, Node.leavesAll_append,
    Node.leavesAll, List.append_nil, List.append_assoc]

theorem markMissing_eq (s : State) (wanted : Wanted) :
    s.markMissing wanted = s
      ∨ s.markMissing wanted = s.insertSolid 0 (.error (.expected wanted) []) := by
  unfold markMissing
  split
  · exact .inl rfl
  · exact .inr rfl

end State

/-! ## Growing -/

/-- `s'` comes from `s` by taking tokens in, marking and wrapping, all of it
above the oldest `floor` nodes. -/
inductive Grows (floor : Nat) (s : State) : State → Prop where
  | refl : Grows floor s s
  | take {t : State} {node : Token → Node} :
      Grows floor s t → node = Token.node ∨ node = State.unexpectedNode →
        Grows floor s (t.take node)
  | missing {t : State} (wanted : Wanted) :
      Grows floor s t → floor ≤ t.solid → Grows floor s (t.markMissing wanted)
  | wrap {t : State} {marker : Nat} (kind : Kind) :
      Grows floor s t → floor ≤ t.solid → floor ≤ marker → Grows floor s (t.wrap marker kind)

namespace Grows

variable {floor : Nat} {s t u : State}

theorem trans (hst : Grows floor s t) (htu : Grows floor t u) : Grows floor s u := by
  induction htu with
  | refl => exact hst
  | take _ hnode ih => exact ih.take hnode
  | missing wanted _ hsolid ih => exact ih.missing wanted hsolid
  | wrap kind _ hsolid hmarker ih => exact ih.wrap kind hsolid hmarker

/-- What leaves a floor alone leaves everything deeper alone. -/
theorem lower {floor' : Nat} (h : Grows floor s t) (hfloor : floor' ≤ floor) :
    Grows floor' s t := by
  induction h with
  | refl => exact .refl
  | take _ hnode ih => exact ih.take hnode
  | missing wanted _ hsolid ih => exact ih.missing wanted (hfloor.trans hsolid)
  | wrap kind _ hsolid hmarker ih =>
    exact ih.wrap kind (hfloor.trans hsolid) (hfloor.trans hmarker)

/-! ### The tokens ahead -/

/-- Either nothing was read, or there are fewer tokens ahead. -/
theorem reads (h : Grows floor s t) :
    t.ahead.length < s.ahead.length ∨ t.token? = s.token? ∧ t.unread = s.unread := by
  induction h with
  | refl => exact .inr ⟨rfl, rfl⟩
  | @take t node _ _ ih =>
    cases htoken : t.token? with
    | none => rwa [State.take_of_none htoken]
    | some token =>
      have hlt := State.ahead_take_lt (by rw [htoken]; rfl) node
      -- one token fewer than before this one, which may be the first that is read
      rcases ih with hread | ⟨hsame, hunread⟩
      · exact .inl (hlt.trans hread)
      · left
        rwa [show s.ahead = t.ahead by rw [State.ahead, State.ahead, hsame, hunread]]
  | @missing t wanted _ _ ih =>
    rcases t.markMissing_eq wanted with heq | heq <;> rw [heq] <;> exact ih
  | wrap _ _ _ _ ih => exact ih

theorem length_ahead_le (h : Grows floor s t) : t.ahead.length ≤ s.ahead.length := by
  rcases h.reads with hlt | ⟨htoken, hunread⟩
  · exact Nat.le_of_lt hlt
  · exact Nat.le_of_eq (by rw [State.ahead, State.ahead, htoken, hunread])

/-- A token that is ahead later on was ahead from the start. -/
theorem ahead_suffix (h : Grows floor s t) : t.ahead <:+ s.ahead := by
  induction h with
  | refl => exact List.suffix_rfl
  | @take t node _ _ ih => exact (t.ahead_take_suffix node).trans ih
  | @missing t wanted _ _ ih =>
    rcases t.markMissing_eq wanted with heq | heq <;> rw [heq] <;> exact ih
  | wrap _ _ _ _ ih => exact ih

/-- Where no token is left, none is left unread. -/
theorem unread_of_end (h : Grows floor s t) (hs : s.token? = none → s.unread = []) :
    t.token? = none → t.unread = [] := by
  induction h with
  | refl => exact hs
  | @take t node _ _ ih =>
    cases htoken : t.token? with
    | none => rwa [State.take_of_none htoken]
    | some token =>
      rw [State.take_of_some htoken]
      exact State.unread_of_read
  | @missing t wanted _ _ ih =>
    rcases t.markMissing_eq wanted with heq | heq <;> rw [heq] <;> exact ih
  | wrap _ _ _ _ ih => exact ih

/-! ### The floor -/

/-- Once anything has happened, the floor lies in front of the pending white space. -/
theorem eq_or_floor_le_solid (h : Grows floor s t) (hs : floor ≤ s.marker) :
    t = s ∨ floor ≤ t.solid := by
  induction h with
  | refl => exact .inl rfl
  | @take t node _ _ ih =>
    cases htoken : t.token? with
    | none => rwa [State.take_of_none htoken]
    | some token =>
      right
      -- all that was in the row is solid once a token is behind it
      rw [State.solid_take (by rw [htoken]; rfl)]
      rcases ih with rfl | hsolid
      · exact Nat.le_succ_of_le hs
      · exact Nat.le_succ_of_le (hsolid.trans t.solid_le_marker)
  | @missing t wanted _ hsolid _ =>
    right
    rcases t.markMissing_eq wanted with heq | heq <;> rw [heq]
    · exact hsolid
    · exact hsolid.trans (State.solid_insertSolid t 0 _)
  | @wrap t marker kind _ hsolid hmarker _ =>
    right
    -- what is wrapped lies above the marker, and so above the floor
    refine Nat.le_trans ?_ (State.solid_insertSolid t _ _)
    omega

theorem floor_le_solid (h : Grows floor s t) (hs : floor ≤ s.solid) : floor ≤ t.solid := by
  rcases h.eq_or_floor_le_solid (hs.trans s.solid_le_marker) with rfl | hsolid
  · exact hs
  · exact hsolid

theorem floor_le_marker (h : Grows floor s t) (hs : floor ≤ s.marker) : floor ≤ t.marker := by
  rcases h.eq_or_floor_le_solid hs with rfl | hsolid
  · exact hs
  · exact hsolid.trans t.solid_le_marker

/-- The nodes below the floor stay. -/
theorem suffix_built {base : List Node} (h : Grows base.length s t) (hs : base <:+ s.built) :
    base <:+ t.built := by
  induction h with
  | refl => exact hs
  | @take t node _ _ ih => exact ih.trans (t.built_suffix_take node)
  | @missing t wanted _ hsolid ih =>
    rcases t.markMissing_eq wanted with heq | heq <;> rw [heq]
    · exact ih
    · exact State.suffix_insertSolid _ ih hsolid
  | @wrap t marker kind _ hsolid hmarker ih =>
    refine State.suffix_insertSolid _ ih ?_
    omega

/-- Cutting the row back undoes what grew on top of it. -/
theorem rollBack_eq (h : Grows s.marker s t) : t.rollBack s = s := by
  -- the white space that was read in front of the marker is below the floor as well
  have hsuffix : s.built <:+ t.built := suffix_built h List.suffix_rfl
  obtain ⟨added, hadded⟩ := hsuffix
  unfold State.rollBack
  rw [← hadded, List.length_append, Nat.add_sub_cancel, List.drop_left]

/-! ### The leaves -/

/-- The row with the tokens ahead keeps its leaves, up to tokens that became errors. -/
theorem softens (h : Grows floor s t) :
    Node.SoftensAll (Node.leavesAll s.row) (Node.leavesAll t.row) := by
  induction h with
  | refl => exact .refl _
  | @take t node _ hnode ih => exact ih.trans (t.softens_take hnode)
  | @missing t wanted _ hsolid ih =>
    rcases t.markMissing_eq wanted with heq | heq <;> rw [heq]
    · exact ih
    · rwa [State.leavesAll_insertSolid (by simp [Node.leaves, Node.leavesAll])]
  | wrap kind _ _ _ ih =>
    unfold State.wrap
    -- a branch has the leaves of the nodes that it takes the place of
    rwa [State.leavesAll_insertSolid (by rw [Node.leaves])]

end Grows

end Grammar

end StatementCompletion
