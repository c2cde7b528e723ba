import StatementCompletion.Proofs.Grammar.Bracing.Statement
import StatementCompletion.Proofs.Tree.Swapped

/-!
# A statement in two sources

Two sources are read that are the same but for the braces around a body.  In front of the keyword of
the statement the two sides are alike.  Behind the statement they are again, with the body in braces
on the second side.  The first run is gone if the keyword has become part of something else than the
statement that is cut; since that is what stands in its tree, this does not happen.
-/

namespace StatementCompletion.Grammar

open Node (Swapped Missed)

variable {floor : Nat} {s s' t t' : State}

/-- The text of the row and of the tokens ahead stays. -/
theorem Grows.sizeAll_row (h : Grows floor s t) : Node.sizeAll t.row = Node.sizeAll s.row := by
  rw [← Node.size_textAll, ← Node.size_textAll, ← Node.flatMap_leavesAll, ← Node.flatMap_leavesAll,
    h.softens.flatMap_ownText]

namespace Site

variable {P : Site} {place : Nat}

/-! ## The statement -/

theorem isTrivia_keyword (P : Site) : P.keyword.isTrivia = false := by
  have hguard := P.guard
  rw [Token.isTrivia]
  cases hkind : P.keyword.kind <;> first | rfl | (rw [hkind] at hguard; cases hguard)

theorem size_keyword (P : Site) : 0 < P.keyword.node.size := by
  rw [← Node.size_text, Token.text_node]
  exact Text.size_pos (P.nonempty _ List.mem_cons_self)

theorem exists_whole_eq (P : Site) :
    ∃ rest, P.cut.whole = .branch P.cut.kind (P.keyword.node :: rest) := by
  obtain ⟨nodes, hfront⟩ := P.begins
  exact ⟨_, by rw [Unbraced.whole, hfront, List.cons_append]⟩

theorem size_whole (P : Site) : 0 < P.cut.whole.size := by
  obtain ⟨rest, hwhole⟩ := P.exists_whole_eq
  rw [hwhole, Node.size, Node.sizeAll]
  exact Nat.lt_add_right _ P.size_keyword

theorem length_tail_lt (P : Site) : P.rest.length < P.tail.length := by
  simp only [tail, inside, List.length_append, List.length_cons]
  omega

theorem length_tail'_lt (P : Site) : P.rest.length < P.tail'.length := by
  simp only [tail', inside', List.length_append, List.length_cons]
  omega

/-! ## In front of the statement -/

/-- The keyword stands at a place in the text, and is ahead. -/
structure Precedes (P : Site) (place : Nat) (s s' : State) : Prop where
  gated : Gated [] [] P.keyword P.tail P.tail' s s'
  size : Node.sizeAll s.row = place + Node.sizeAll ((P.keyword :: P.tail).map Token.node)

/-- The keyword is the current token. -/
structure Held (P : Site) (s : State) : Prop where
  token : s.token? = some P.keyword
  length : s.unread.length = P.tail.length

namespace Precedes

theorem unread (h : P.Precedes place s s') (hheld : P.Held s) : s.unread = P.tail := by
  rcases h.gated.cases with ⟨-, hunread, -⟩ | ⟨-, front, hunread, -⟩
  · exact hunread
  · have hlength := hheld.length
    rw [hunread, List.length_append, List.length_cons] at hlength
    omega

/-- The keyword stands where the row ends. -/
theorem sizeAll_built (h : P.Precedes place s s') (hheld : P.Held s) :
    Node.sizeAll s.built.reverse = place := by
  have hsize := h.size
  rw [State.row, State.ahead, hheld.token, h.unread hheld, Node.sizeAll_append] at hsize
  exact Nat.add_right_cancel hsize

/-- The row does not reach beyond the place. -/
theorem sizeAll_firm_le (h : P.Precedes place s s') : Node.sizeAll s.firm ≤ place := by
  have hsize := h.size
  obtain ⟨front, hahead, -⟩ := h.gated.ahead
  rw [State.row, ← State.firm_append_loose, hahead, List.map_append, Node.sizeAll_append,
    Node.sizeAll_append, Node.sizeAll_append] at hsize
  omega

theorem length_tail_le (h : P.Precedes place s s') :
    P.tail.length ≤ s.unread.length ∧ P.tail'.length ≤ s'.unread.length := by
  rcases h.gated.cases with ⟨-, hunread, hunread'⟩
    | ⟨-, front, hunread, hunread'⟩ <;> rw [hunread, hunread']
  · exact ⟨le_rfl, le_rfl⟩
  · simp only [List.length_append, List.length_cons]
    omega

/-- In front of the keyword a token is taken in on both sides. -/
theorem take (h : P.Precedes place s s') (hheld : ¬ P.Held s) {node : Token → Node}
    (hnode : IsTaking node) :
    P.Precedes place (s.take node) (s'.take node) := by
  have hgrows : Grows 0 s (s.take node) := Grows.refl.take hnode
  rcases h.gated.take P.isTrivia_keyword hnode with ⟨htoken, hunread, -⟩ | hgated
  · exact absurd ⟨htoken, congrArg List.length hunread⟩ hheld
  · exact ⟨hgated, hgrows.sizeAll_row.trans h.size⟩

theorem markMissing (h : P.Precedes place s s') (wanted : Wanted) :
    P.Precedes place (s.markMissing wanted) (s'.markMissing wanted) := by
  have hgrows : Grows 0 s (s.markMissing wanted) := Grows.refl.missing wanted (Nat.zero_le _)
  exact ⟨h.gated.markMissing wanted, hgrows.sizeAll_row.trans h.size⟩

theorem wrap (h : P.Precedes place s s') (m : Nat) {kind : Kind} (hkind : kind.isConstruct = true) :
    P.Precedes place (s.wrap m kind) (s'.wrap m kind) := by
  have hgrows : Grows 0 s (s.wrap m kind) := Grows.refl.wrap kind (Nat.zero_le _) (Nat.zero_le _)
  exact ⟨h.gated.wrap (Nat.zero_le _) rfl hkind, hgrows.sizeAll_row.trans h.size⟩

end Precedes

/-! ## Behind the statement -/

/-- The two sides are the same but for the braces in the statement. -/
structure Follows (P : Site) (place : Nat) (s s' : State) : Prop where
  fair : s.Fair
  fair' : s'.Fair
  token : s'.token? = s.token?
  unread : s'.unread = s.unread
  onNewLine : s'.onNewLine = s.onNewLine
  loose : s'.loose = s.loose
  length_le : s.ahead.length ≤ P.rest.length
  swapped : Swapped P.cut.whole P.cut.braced place s.firm s'.firm

/-- Behind the statement the two sides go on from there. -/
theorem Rejoins.follows {row : List Node} (h : P.Rejoins row t t') :
    P.Follows (Node.sizeAll row) t t' := by
  refine ⟨h.fair, h.fair', h.token, h.unread, h.onNewLine, h.loose, h.length_le, ?_⟩
  rw [h.firm, h.firm']
  exact Swapped.append_left (.here []) row

namespace Follows

theorem not_held (h : P.Follows place s s') : ¬ P.Held s := by
  intro hheld
  have hlength := h.length_le
  have hlt := P.length_tail_lt
  rw [State.length_ahead_of_some hheld.token, hheld.length] at hlength
  omega

theorem isAfterError (h : P.Follows place s s') : s'.isAfterError = s.isAfterError := by
  have hlast (nodes : List Node) : nodes.getLast?.any (·.kind.isError)
      = (nodes.getLast?.map Node.kind).any Kind.isError := by rw [Option.any_map]
  rw [State.isAfterError_eq, State.isAfterError_eq, hlast, hlast, h.swapped.getLast?_map_kind rfl]

theorem marker (h : P.Follows place s s') : s'.marker = s.marker := by
  rw [h.fair.sane.marker_eq, h.fair'.sane.marker_eq, h.loose, h.swapped.length_eq]

theorem take (h : P.Follows place s s') {node : Token → Node} (hnode : IsTaking node) :
    P.Follows place (s.take node) (s'.take node) := by
  cases htoken : s.token? with
  | none => rwa [State.take_of_none htoken, State.take_of_none (h.token.trans htoken)]
  | some token =>
    have htoken' := h.token.trans htoken
    have hsuffix := (s.ahead_take_suffix node).length_le.trans h.length_le
    refine ⟨h.fair.take hnode, h.fair'.take hnode, ?_, ?_, ?_, ?_, hsuffix, ?_⟩
    any_goals
      rw [State.take_of_some htoken, State.take_of_some htoken', h.unread]
      first | rfl | rw [State.loose_read, State.loose_read]
    rw [State.firm_take htoken, State.firm_take htoken', h.loose]
    exact (h.swapped.append_right _).append_right _

theorem markMissing (h : P.Follows place s s') (wanted : Wanted) :
    P.Follows place (s.markMissing wanted) (s'.markMissing wanted) := by
  have hfair := h.fair.markMissing wanted
  have hfair' := h.fair'.markMissing wanted
  have herror := h.isAfterError
  unfold State.markMissing at hfair hfair' ⊢
  rw [herror] at hfair' ⊢
  split at hfair
  · next hafter => rwa [if_pos hafter, if_pos hafter]
  · next hafter =>
    rw [if_neg hafter] at hfair' ⊢
    rw [if_neg hafter]
    refine ⟨hfair, hfair', h.token, h.unread, h.onNewLine, ?_, h.length_le, ?_⟩
    · rw [h.fair.sane.loose_insertSolid, h.fair'.sane.loose_insertSolid, h.loose]
    · rw [h.fair.sane.firm_insertSolid, h.fair'.sane.firm_insertSolid, Nat.sub_zero, Nat.sub_zero,
        List.take_length, List.take_length]
      exact h.swapped.append_right _

theorem wrap (h : P.Follows place s s') (m : Nat) {kind : Kind} (hkind : kind.isConstruct = true) :
    P.Follows place (s.wrap m kind) (s'.wrap m kind) := by
  refine ⟨h.fair.wrap m hkind, h.fair'.wrap m hkind, h.token, h.unread, h.onNewLine, ?_,
    h.length_le, ?_⟩
  · rw [h.fair.sane.loose_wrap, h.fair'.sane.loose_wrap, h.loose]
  · rw [h.fair.sane.firm_wrap, h.fair'.sane.firm_wrap]
    exact h.swapped.wrap m kind

end Follows

/-! ## Both -/

/-- The two sides go together. -/
def Goes (P : Site) (place : Nat) (s s' : State) : Prop :=
  P.Precedes place s s' ∨ P.Follows place s s'

/-- The keyword has become part of something else. -/
def Lost (P : Site) (place : Nat) (row : List Node) : Prop :=
  Missed P.cut.whole P.keyword.node place row

theorem isLasting_lost (P : Site) (place base : Nat) :
    IsLasting base fun row _ => P.Lost place row := by
  refine ⟨fun h _ => h.add _, fun wanted _ h => ?_, fun kind _ _ h => ?_⟩
  · exact h.mark rfl P.size_keyword rfl rfl
  · obtain ⟨rest, hwhole⟩ := P.exists_whole_eq
    unfold Lost at h ⊢
    rw [hwhole] at h ⊢
    exact h.wrap P.keyword.isLeaf_node

namespace Goes

/-- Where the keyword comes next, the statement is still ahead. -/
theorem precedes (h : P.Goes place s s') (hheld : P.Held s) : P.Precedes place s s' :=
  h.resolve_right fun hfollows => hfollows.not_held hheld

theorem fair (h : P.Goes place s s') : s.Fair ∧ s'.Fair :=
  h.elim (fun h => ⟨h.gated.fair, h.gated.fair'⟩) fun h => ⟨h.fair, h.fair'⟩

theorem token (h : P.Goes place s s') : s'.token? = s.token? :=
  h.elim (fun h => h.gated.token) fun h => h.token

theorem onNewLine (h : P.Goes place s s') : s'.onNewLine = s.onNewLine :=
  h.elim (fun h => h.gated.onNewLine) fun h => h.onNewLine

theorem marker (h : P.Goes place s s') : s.marker = s'.marker :=
  h.elim (fun h => h.gated.marker) fun h => h.marker.symm

theorem next (h : P.Goes place s s') (hcommon : isCommon s.current = true) :
    s'.next.current = s.next.current ∧ s'.next.onNewLine = s.next.onNewLine := by
  rcases h with h | h
  · refine h.gated.next P.isTrivia_keyword fun hkind => ?_
    have hguard := (isCommon_iff.1 hcommon).1
    rw [hkind, P.guard] at hguard
    cases hguard
  · have hreads : Twins.ReadsOn s s' := ⟨by rw [h.unread], by rw [h.unread]⟩
    exact hreads.next

/-- What has been read since is as much on both sides. -/
theorem unread (hs : P.Goes place s s') (ht : P.Goes place t t') (hsome : s.token?.isSome)
    (hsome' : t.token?.isSome) :
    t'.unread.length = s'.unread.length ↔ t.unread.length = s.unread.length := by
  have hlt := P.length_tail_lt
  have hlt' := P.length_tail'_lt
  have hbehind {u u' : State} (h : P.Follows place u u') (hsome : u.token?.isSome) :
      u.unread.length < P.rest.length ∧ u'.unread.length < P.rest.length := by
    obtain ⟨token, htoken⟩ := Option.isSome_iff_exists.1 hsome
    have hlength := h.length_le
    rw [State.length_ahead_of_some htoken] at hlength
    rw [h.unread]
    omega
  rcases hs with hs | hs <;> rcases ht with ht | ht
  · exact hs.gated.unread_iff ht.gated
  · have hin := hs.length_tail_le
    have hout := hbehind ht hsome'
    omega
  · have hin := ht.length_tail_le
    have hout := hbehind hs hsome
    omega
  · rw [hs.unread, ht.unread]

theorem take (h : P.Goes place s s') (hheld : ¬ P.Held s) {node : Token → Node}
    (hnode : IsTaking node) :
    P.Goes place (s.take node) (s'.take node) :=
  h.imp (fun h => h.take hheld hnode) fun h => h.take hnode

theorem markMissing (h : P.Goes place s s') (wanted : Wanted) :
    P.Goes place (s.markMissing wanted) (s'.markMissing wanted) :=
  h.imp (fun h => h.markMissing wanted) fun h => h.markMissing wanted

theorem wrap (h : P.Goes place s s') (m : Nat) {kind : Kind} (hkind : kind.isConstruct = true) :
    P.Goes place (s.wrap m kind) (s'.wrap m kind) :=
  h.imp (fun h => h.wrap m hkind) fun h => h.wrap m hkind

/-- An error takes the place of the statement. -/
theorem takeUnexpected (h : P.Goes place s s') (hheld : P.Held s) :
    P.Lost place (s.take State.unexpectedNode).firm := by
  have hsize : 0 < (State.unexpectedNode P.keyword).size := by
    rw [← Node.size_text, IsTaking.text (.inr rfl)]
    exact Text.size_pos (P.nonempty _ List.mem_cons_self)
  rw [State.firm_take_eq hheld.token, ← (h.precedes hheld).sizeAll_built hheld]
  refine Missed.of_leaf rfl P.size_whole P.size_keyword P.keyword.isLeaf_unexpectedNode hsize
    fun hsame => ?_
  have hguard := P.guard
  rw [node_of_isGuardKeyword hguard] at hsame
  unfold State.unexpectedNode at hsame
  split at hsame
  · next herror => rw [herror] at hguard; cases hguard
  · cases hsame

/-- A keyword that is not taken in as the first token of a node is that of another one. -/
theorem stray {m : Nat} (kind : Kind) (h : P.Goes place s s') (hheld : P.Held s) (hm : m < s.marker)
    (ht : t.Fair) (hst : Evolves (s.marker + 1) (s.take Token.node) t) :
    P.Lost place (t.wrap m kind).firm := by
  have hrow : (s.take Token.node).firm = s.built.reverse ++ [P.keyword.node] :=
    State.firm_take_eq hheld.token Token.node
  have hmarker : s.marker = s.built.reverse.length := List.length_reverse.symm
  have hlength : s.marker + 1 = (s.take Token.node).firm.length := by
    rw [hrow, hmarker, List.length_append, List.length_singleton]
  obtain ⟨-, hkept⟩ := hst.take_firm (h.fair.1.take (.inl rfl)).sane hlength.le
  rw [hlength, List.take_length, hrow] at hkept
  -- the nodes in front of the marker, those up to the keyword, and those behind it
  have hfront : s.built.reverse.take m ++ s.built.reverse.drop m = s.built.reverse :=
    List.take_append_drop _ _
  have hmle : m ≤ s.built.reverse.length := hmarker ▸ hm.le
  have hback : s.built.reverse.drop m ≠ [] := fun hnil => by
    rw [List.drop_eq_nil_iff, ← hmarker] at hnil
    omega
  have hsplit : t.firm = s.built.reverse.take m
      ++ (s.built.reverse.drop m ++ P.keyword.node :: t.firm.drop
        (s.built.reverse ++ [P.keyword.node]).length) := by
    conv =>
      lhs; rw [← List.take_append_drop (s.built.reverse ++ [P.keyword.node]).length t.firm, hkept]
    rw [← List.append_assoc, hfront]
    simp
  have hcut : (s.built.reverse.take m).length = m := List.length_take_of_le hmle
  have hplace : Node.sizeAll (s.built.reverse.take m ++ s.built.reverse.drop m) = place := by
    rw [hfront]
    exact (h.precedes hheld).sizeAll_built hheld
  rw [ht.sane.firm_wrap, hsplit, List.take_left' hcut, List.drop_left' hcut, ← hplace]
  generalize s.built.reverse.drop m = back at hback
  generalize t.firm.drop _ = more
  refine Missed.of_branch rfl P.size_whole P.keyword.isLeaf_node P.size_keyword
    fun hempty hwhole => ?_
  obtain ⟨rest, hsame⟩ := P.exists_whole_eq
  rw [hsame] at hwhole
  cases back with
  | nil => exact hback rfl
  | cons node back =>
    obtain ⟨rfl, -⟩ := List.cons.inj (Node.branch.inj hwhole).2
    rw [Node.sizeAll] at hempty
    have hsize := P.size_keyword
    omega

/-- **The statement is read as a whole on both sides**, or the keyword is that of another one. -/
theorem statement {a a' : Unit} {depth depth' : Nat} (h : P.Goes place s s') (hheld : P.Held s)
    (hrun : (statement (parseTo depth)).run s = some (a, t))
    (hrun' : (statement (parseTo depth')).run s' = some (a', t')) :
    P.Lost place t.firm ∨ P.Goes place t t' := by
  have hprecedes := h.precedes hheld
  have hguard : isGuardKeyword s.current = true := by
    rw [State.current, hheld.token]
    exact P.guard
  obtain ⟨made, nodes, hfirm⟩ :=
    guarded_joined (parseTo_agree depth depth) (parseTo_statement_joins depth)
      hprecedes.gated.fair hheld.token hguard hrun
  rw [← hprecedes.sizeAll_built hheld]
  by_cases hwhole : .branch made (P.keyword.node :: nodes) = P.cut.whole
  · rw [hwhole] at hfirm
    have hrejoins :=
      statement_rejoins hprecedes.gated hheld.token (hprecedes.unread hheld) hrun hrun' hfirm
    exact .inr (.inr hrejoins.follows)
  · left
    have hlost :=
      @Missed.of_branch P.cut.whole P.keyword.node s.built.reverse [] nodes made rfl P.size_whole
        P.keyword.isLeaf_node P.size_keyword fun _ => hwhole
    rw [List.append_nil, List.nil_append] at hlost
    rwa [hfirm]

end Goes

/-- The two sources go together up to the statement and from there on. -/
def coupling (P : Site) (place : Nat) : Coupling where
  base := 0
  base' := 0
  Rel := P.Goes place
  gone row _ := P.Lost place row
  Held := P.Held
  lasting := P.isLasting_lost place 0
  fair h := h.fair
  solid _ := Nat.zero_le _
  marker h := h.marker
  token h := congrArg _ h.token
  onNewLine h := h.onNewLine
  next h hcommon := h.next hcommon
  unread hs ht hsome hsome' := hs.unread ht hsome hsome'
  held {s} h := by
    rw [State.current, h.token]
    exact P.guard
  take h hheld hnode := .inl (h.take hheld hnode)
  takeUnexpected h hheld := h.takeUnexpected hheld
  missing wanted h := h.markMissing wanted
  wrap {s s' m m' kind} h _ hlevel hkind := by
    obtain rfl : m = m' := hlevel
    exact h.wrap m hkind
  stray kind h hheld _ hm ht hst := h.stray kind hheld hm ht hst
  statement h hheld hrun hrun' := h.statement hheld hrun hrun'

end Site

end StatementCompletion.Grammar
