import Mathlib.Data.List.TakeWhile
import StatementCompletion.Proofs.Grammar.Growth
import StatementCompletion.Proofs.Tree.Core

/-!
# How the firm part of the row evolves

The white space and comments in front of the current token are loose: a mark or a branch is put in
front of them.  The rest of the row is firm.  Taking a token in makes the loose nodes firm, a mark
joins the firm part, and a branch takes the place of its end.

`Evolves floor s s'` says that `s'` comes from `s` in this way, with branches of nodes at or above
the floor only, and that every statement, member or block so made begins with a token.  No branch is
of the kind of a bracket.  Unlike `Grows` it allows a mark below the floor, which moves the loose
nodes up.  So a marker that is set in front of them need not stay in front of the same nodes; but
what is below it keeps its core.
-/

namespace StatementCompletion

/-- The constructs that begin with a token of theirs, whatever is missing in them: statements,
members of classes and blocks. -/
def Kind.isAnchored (kind : Kind) : Bool :=
  kind.isStatement || kind.isMember || kind = .codeBlock

/-- The brackets that the layout asks for. -/
def Kind.isBracket (kind : Kind) : Bool :=
  kind = .leftBrace || kind = .rightBrace || kind = .rightParen

namespace Node

/-- The first leaf of nodes in a row is a token. -/
def BeginsWithToken (nodes : List Node) : Prop :=
  ∃ leaf, (leavesAll nodes).head? = some leaf ∧ leaf.kind.isTrivia = false

/-- The last leaf of nodes in a row, if there is any, is a token. -/
def EndsWithToken (nodes : List Node) : Prop :=
  ∀ leaf, (leavesAll nodes).getLast? = some leaf → leaf.kind.isTrivia = false

theorem BeginsWithToken.append {nodes : List Node} (h : BeginsWithToken nodes) (more : List Node) :
    BeginsWithToken (nodes ++ more) := by
  obtain ⟨leaf, hleaf, hkind⟩ := h
  refine ⟨leaf, ?_, hkind⟩
  rw [leavesAll_append, List.head?_append, hleaf, Option.some_or]

theorem endsWithToken_of_leavesAll_eq_nil {nodes : List Node} (h : leavesAll nodes = []) :
    EndsWithToken nodes := by
  intro leaf hleaf
  rw [h] at hleaf
  cases hleaf

/-- Where a row ends with a token, so does the end of it. -/
theorem EndsWithToken.drop {nodes : List Node} (h : EndsWithToken nodes) (n : Nat) :
    EndsWithToken (nodes.drop n) := by
  intro leaf hleaf
  refine h leaf ?_
  rw [← List.take_append_drop n nodes, leavesAll_append, List.getLast?_append, hleaf,
    Option.some_or]

/-- No leaf is without text, every branch ends with a token, statements, members and blocks begin
with one, and only leaves are brackets. -/
inductive Tidy : Node → Prop where
  | leaf {kind : Kind} {text : Text} : text ≠ [] → Tidy (.leaf kind text)
  | error {problem : Problem} {text : Text} : Tidy (.error problem text)
  | branch {kind : Kind} {children : List Node} :
      (∀ child ∈ children, Tidy child) → EndsWithToken children →
        (kind.isAnchored = true → BeginsWithToken children) → kind.isBracket = false →
          Tidy (.branch kind children)

theorem Tidy.of_isLeaf {node : Node} (h : node.isLeaf = true) (htext : node.ownText ≠ []) :
    node.Tidy := by
  cases node with
  | leaf kind text => exact .leaf htext
  | error problem text => exact .error
  | branch kind children => cases h

theorem Tidy.endsWithToken {node : Node} (h : node.Tidy) : EndsWithToken node.children := by
  cases h with
  | leaf | error => exact fun _ => nofun
  | branch _ hends => exact hends

theorem Tidy.of_mem_children {node child : Node} (h : node.Tidy) (hchild : child ∈ node.children) :
    child.Tidy := by
  cases h with
  | leaf | error => simp [children] at hchild
  | branch hchildren => exact hchildren child hchild

/-- A leaf that is still there or stands as an error with the same text, the latter only if it is a
token. -/
structure Stands (old new : Node) : Prop where
  softens : Softens old new
  isTrivia : new.kind.isTrivia = old.kind.isTrivia

theorem Stands.refl (node : Node) : Stands node node :=
  ⟨.refl node, rfl⟩

theorem Stands.trans {a b c : Node} (hab : Stands a b) (hbc : Stands b c) : Stands a c :=
  ⟨hab.softens.trans hbc.softens, hbc.isTrivia.trans hab.isTrivia⟩

/-- Leaves of a row that stand, one by one. -/
def StandsAll (old new : List Node) : Prop :=
  List.Forall₂ Stands old new

theorem StandsAll.refl (nodes : List Node) : StandsAll nodes nodes :=
  List.forall₂_same.2 fun node _ => .refl node

theorem StandsAll.flatMap_ownText {old new : List Node} (h : StandsAll old new) :
    new.flatMap ownText = old.flatMap ownText :=
  SoftensAll.flatMap_ownText (h.imp fun _ _ hstands => hstands.softens)

theorem StandsAll.trans {a b c : List Node} (hab : StandsAll a b) (hbc : StandsAll b c) :
    StandsAll a c := by
  induction hab generalizing c with
  | nil => exact hbc
  | cons hhead _ ih =>
    cases hbc with
    | cons hhead' htail' => exact .cons (hhead.trans hhead') (ih htail')

/-! ## Tokens that stand -/

section

variable {tokens : List Token} {leaf : Node} {a b : List Node}

/-- A row of leaves is cut where the tokens are. -/
theorem StandsAll.exists_append (h : StandsAll (tokens.map Token.node) (a ++ b)) :
    ∃ front back, tokens = front ++ back ∧ StandsAll (front.map Token.node) a
      ∧ StandsAll (back.map Token.node) b := by
  have hfront := List.forall₂_take_append _ _ _ h
  have hback := List.forall₂_drop_append _ _ _ h
  rw [← List.map_take] at hfront
  rw [← List.map_drop] at hback
  exact ⟨_, _, (List.take_append_drop _ _).symm, hfront, hback⟩

theorem StandsAll.exists_cons (h : StandsAll (tokens.map Token.node) (leaf :: b)) :
    ∃ token back, tokens = token :: back ∧ Stands token.node leaf
      ∧ StandsAll (back.map Token.node) b := by
  cases tokens with
  | nil => cases h
  | cons token back =>
    cases h with
    | cons hstands hback => exact ⟨token, back, rfl, hstands, hback⟩

theorem StandsAll.text_eq (h : StandsAll (tokens.map Token.node) a) :
    tokens.flatMap (·.text) = a.flatMap ownText := by
  rw [h.flatMap_ownText, List.flatMap_map]
  simp only [Token.ownText_node]

theorem Stands.text_eq {token : Token} (h : Stands token.node leaf) :
    token.text = leaf.ownText := by
  rw [h.softens.1, Token.ownText_node]

/-- A leaf that is no error is the token. -/
theorem Stands.eq_node {token : Token} (h : Stands token.node leaf) (hkind : leaf.kind ≠ .error) :
    leaf = token.node :=
  h.softens.2.resolve_right hkind

end

end Node

namespace Token

theorem text_node (token : Token) : token.node.text = token.text := by
  unfold node
  split <;> rfl

theorem isLeaf_node (token : Token) : token.node.isLeaf = true := by
  unfold node
  split <;> rfl

theorem isLeaf_unexpectedNode (token : Token) :
    (Grammar.State.unexpectedNode token).isLeaf = true := by
  unfold Grammar.State.unexpectedNode
  split
  · exact token.isLeaf_node
  · rfl

theorem ownText_unexpectedNode (token : Token) :
    (Grammar.State.unexpectedNode token).ownText = token.text := by
  unfold Grammar.State.unexpectedNode
  split
  · exact token.ownText_node
  · rfl

theorem isTrivia_unexpectedNode (token : Token) :
    (Grammar.State.unexpectedNode token).kind.isTrivia = false := by
  unfold Grammar.State.unexpectedNode
  split
  · next hkind =>
    rw [kind_node, hkind]
    rfl
  · rfl

end Token

theorem Node.textAll_map_node (tokens : List Token) :
    textAll (tokens.map Token.node) = tokens.flatMap (·.text) := by
  induction tokens with
  | nil => rfl
  | cons token rest ih => rw [List.map_cons, textAll, ih, token.text_node, List.flatMap_cons]

namespace Grammar

/-- How a token is taken in: as it is, or as unexpected. -/
def IsTaking (node : Token → Node) : Prop :=
  node = Token.node ∨ node = State.unexpectedNode

namespace IsTaking

variable {node : Token → Node} {token : Token}

theorem ownText (h : IsTaking node) (token : Token) : (node token).ownText = token.text := by
  rcases h with rfl | rfl
  · exact token.ownText_node
  · exact token.ownText_unexpectedNode

theorem isLeaf (h : IsTaking node) (token : Token) : (node token).isLeaf = true := by
  rcases h with rfl | rfl
  · exact token.isLeaf_node
  · exact token.isLeaf_unexpectedNode

theorem isTrivia (h : IsTaking node) (htoken : token.isTrivia = false) :
    (node token).kind.isTrivia = false := by
  rcases h with rfl | rfl
  · rwa [Token.kind_node]
  · exact token.isTrivia_unexpectedNode

theorem leaves (h : IsTaking node) (htext : token.text ≠ []) : (node token).leaves = [node token] :=
  Node.leaves_eq_singleton (by rwa [h.ownText])

theorem tidy (h : IsTaking node) (htext : token.text ≠ []) : (node token).Tidy :=
  .of_isLeaf (h.isLeaf token) (by rwa [h.ownText])

/-- A token that is taken in stands among the leaves. -/
theorem stands (h : IsTaking node) (htoken : token.isTrivia = false) (htext : token.text ≠ []) :
    Node.StandsAll token.node.leaves (node token).leaves := by
  have htake : IsTaking Token.node := .inl rfl
  rw [h.leaves htext, htake.leaves htext]
  refine .cons ⟨?_, (h.isTrivia htoken).trans (htake.isTrivia htoken).symm⟩ .nil
  rcases h with rfl | rfl
  · exact .refl _
  · have hsoftens := token.softens_unexpectedNode
    rw [htake.leaves htext, leaves (.inr rfl) htext] at hsoftens
    cases hsoftens with
    | cons hnode _ => exact hnode

end IsTaking

namespace State

/-! ## The firm and the loose part -/

/-- The nodes in front of the white space and comments before the current token. -/
def firm (s : State) : List Node :=
  (s.built.drop s.pending).reverse

/-- The nodes of the white space and comments before the current token. -/
def loose (s : State) : List Node :=
  (s.built.take s.pending).reverse

theorem firm_append_loose (s : State) : s.firm ++ s.loose = s.built.reverse := by
  rw [firm, loose, ← List.reverse_append, List.take_append_drop]

theorem loose_eq_nil {s : State} (h : s.pending = 0) : s.loose = [] := by
  rw [loose, h, List.take_zero, List.reverse_nil]

theorem length_firm (s : State) : s.firm.length = s.solid := by
  rw [firm, List.length_reverse, List.length_drop, solid]

@[simp] theorem firm_read (built : List Node) (tokens : List Token) :
    (read built tokens).firm = built.reverse := by
  simp [firm, read]

/-- Nothing is firm at the start. -/
theorem firm_start (tokens : List Token) : (start tokens).firm = [] := by
  rw [start, firm_read, List.reverse_nil]

@[simp] theorem loose_read (built : List Node) (tokens : List Token) :
    (read built tokens).loose = (tokens.takeWhile Token.isTrivia).map Token.node := by
  simp [loose, read]

theorem firm_take {s : State} {token : Token} (h : s.token? = some token) (node : Token → Node) :
    (s.take node).firm = s.firm ++ s.loose ++ [node token] := by
  rw [take_of_some h, firm_read, List.reverse_cons, firm_append_loose]

/-- What is promised of every state that a grammar comes to: the loose nodes are white space and
comments, the current token is none of these, and none of them is empty. -/
structure Sane (s : State) : Prop where
  pending_le : s.pending ≤ s.built.length
  loose : ∀ node ∈ s.loose,
    node.isLeaf = true ∧ node.kind.isTrivia = true ∧ node.ownText ≠ []
  token : ∀ token, s.token? = some token → token.isTrivia = false ∧ token.text ≠ []
  unread : ∀ token ∈ s.unread, token.text ≠ []
  ended : s.token? = none → s.unread = []

theorem sane_read (built : List Node) {tokens : List Token}
    (h : ∀ token ∈ tokens, token.text ≠ []) : (read built tokens).Sane := by
  refine ⟨?_, fun node hnode => ?_, fun token htoken => ?_, fun token htoken => ?_, unread_of_read⟩
  · simp [read]
  · rw [loose_read] at hnode
    obtain ⟨token, htoken, rfl⟩ := List.mem_map.1 hnode
    refine ⟨token.isLeaf_node, ?_, ?_⟩
    · rw [token.kind_node]
      show token.isTrivia = true
      exact List.mem_takeWhile_imp htoken
    · rw [token.ownText_node]
      exact h token ((List.takeWhile_sublist _).subset htoken)
  · have hmem : token ∈ tokens := (List.dropWhile_sublist _).subset (List.mem_of_mem_head? htoken)
    refine ⟨?_, h token hmem⟩
    have hstop := List.head?_dropWhile_not Token.isTrivia tokens
    rw [show (tokens.dropWhile Token.isTrivia).head? = some token from htoken] at hstop
    simpa using hstop
  · exact h token ((List.dropWhile_sublist _).subset (List.mem_of_mem_tail htoken))

namespace Sane

variable {s : State}

theorem length_loose (h : s.Sane) : s.loose.length = s.pending := by
  rw [State.loose, List.length_reverse, List.length_take, Nat.min_eq_left h.pending_le]

theorem marker_eq (h : s.Sane) : s.marker = s.firm.length + s.loose.length := by
  rw [h.length_loose, length_firm, solid, marker]
  have := h.pending_le
  omega

theorem coreAll_loose (h : s.Sane) : Node.coreAll s.loose = [] := by
  rw [Node.coreAll_eq_flatMap, List.flatMap_eq_nil_iff]
  exact fun node hnode => Node.core_of_isTrivia (h.loose node hnode).1 (h.loose node hnode).2.1

theorem take (h : s.Sane) (node : Token → Node) : (s.take node).Sane := by
  cases htoken : s.token? with
  | none => rwa [take_of_none htoken]
  | some token =>
    rw [take_of_some htoken]
    exact sane_read _ h.unread

/-- A node joins the firm part in the place of some at its end. -/
theorem firm_insertSolid (h : s.Sane) (count : Nat) (node : Node) :
    (s.insertSolid count node).firm = s.firm.take (s.firm.length - count) ++ [node] := by
  have htake : (s.built.take s.pending).length = s.pending := by
    rw [List.length_take, Nat.min_eq_left h.pending_le]
  have hdrop : (s.insertSolid count node).built.drop s.pending
      = node :: s.built.drop (s.pending + count) := List.drop_left' htake
  show ((s.insertSolid count node).built.drop s.pending).reverse = _
  rw [hdrop, List.reverse_cons, ← List.drop_drop, List.reverse_drop, firm, List.length_reverse]

theorem loose_insertSolid (h : s.Sane) (count : Nat) (node : Node) :
    (s.insertSolid count node).loose = s.loose := by
  have htake : (s.built.take s.pending).length = s.pending := by
    rw [List.length_take, Nat.min_eq_left h.pending_le]
  show ((s.insertSolid count node).built.take s.pending).reverse = _
  rw [insertSolid, List.take_left' htake, State.loose]

theorem insertSolid (h : s.Sane) (count : Nat) (node : Node) : (s.insertSolid count node).Sane := by
  refine ⟨?_, ?_, h.token, h.unread, h.ended⟩
  · have hpending := h.pending_le
    show s.pending ≤ (s.built.take s.pending ++ node :: s.built.drop (s.pending + count)).length
    rw [List.length_append, List.length_take]
    omega
  · rw [h.loose_insertSolid]
    exact h.loose

theorem firm_markMissing (h : s.Sane) (wanted : Wanted) :
    (s.markMissing wanted).firm = s.firm
      ∨ (s.markMissing wanted).firm = s.firm ++ [.error (.expected wanted) []] := by
  rcases s.markMissing_eq wanted with heq | heq <;> rw [heq]
  · exact .inl rfl
  · right
    rw [h.firm_insertSolid, Nat.sub_zero, List.take_length]

theorem loose_markMissing (h : s.Sane) (wanted : Wanted) :
    (s.markMissing wanted).loose = s.loose := by
  rcases s.markMissing_eq wanted with heq | heq <;> rw [heq]
  exact h.loose_insertSolid 0 _

theorem markMissing (h : s.Sane) (wanted : Wanted) : (s.markMissing wanted).Sane := by
  rcases s.markMissing_eq wanted with heq | heq <;> rw [heq]
  · exact h
  · exact h.insertSolid 0 _

/-- The end of the firm part becomes a branch. -/
theorem firm_wrap (h : s.Sane) (marker : Nat) (kind : Kind) :
    (s.wrap marker kind).firm = s.firm.take marker ++ [.branch kind (s.firm.drop marker)] := by
  have hcount : s.firm.length - (s.solid - min marker s.solid) = min marker s.firm.length := by
    rw [← length_firm]
    omega
  have hchildren : ((s.built.drop s.pending).take (s.solid - min marker s.solid)).reverse
      = s.firm.drop (min marker s.firm.length) := by
    rw [List.reverse_take, ← firm, ← hcount, firm, List.length_reverse]
  show (s.insertSolid _ (.branch kind _)).firm = _
  rw [h.firm_insertSolid, hcount, hchildren]
  rcases Nat.le_total marker s.firm.length with hle | hle
  · rw [Nat.min_eq_left hle]
  · rw [Nat.min_eq_right hle, List.take_of_length_le hle, List.take_length, List.drop_length,
      List.drop_of_length_le hle]

theorem loose_wrap (h : s.Sane) (marker : Nat) (kind : Kind) :
    (s.wrap marker kind).loose = s.loose :=
  h.loose_insertSolid _ _

/-- The leaves from a place on are the same when what is above it becomes a branch. -/
theorem leavesAll_firm_wrap (h : s.Sane) {floor marker : Nat} (hfloor : floor ≤ marker)
    (kind : Kind) : Node.leavesAll ((s.wrap marker kind).firm.drop floor)
      = Node.leavesAll (s.firm.drop floor) := by
  rw [h.firm_wrap, List.drop_append, Node.leavesAll_append, List.drop_take]
  rcases Nat.le_total marker s.firm.length with hle | hle
  · have hbranch : floor - (s.firm.take marker).length = 0 := by
      rw [List.length_take, Nat.min_eq_left hle, Nat.sub_eq_zero_of_le hfloor]
    rw [hbranch, List.drop_zero, Node.leavesAll, Node.leavesAll, List.append_nil, Node.leaves,
      ← Node.leavesAll_append]
    congr 1
    rw [← Nat.add_sub_of_le hfloor, ← List.drop_drop, Nat.add_sub_cancel_left,
      List.take_append_drop]
  · have hempty : Node.leavesAll ([.branch kind (s.firm.drop marker)].drop
        (floor - (s.firm.take marker).length)) = [] := by
      rw [List.drop_of_length_le hle]
      cases floor - (s.firm.take marker).length <;> simp [Node.leavesAll, Node.leaves]
    rw [hempty, List.append_nil, List.take_of_length_le]
    rw [List.length_drop]
    omega

theorem wrap (h : s.Sane) (marker : Nat) (kind : Kind) : (s.wrap marker kind).Sane :=
  h.insertSolid _ _

end Sane

/-- How many tokens are ahead, white space not counted. -/
def weight (s : State) : Nat :=
  (s.ahead.filter (·.kind ≠ .whitespace)).length

/-- A token that is taken in is no longer ahead. -/
theorem Sane.weight_take {s : State} (h : s.Sane) {token : Token} (htoken : s.token? = some token)
    (node : Token → Node) : (s.take node).weight < s.weight := by
  have hkind : token.kind ≠ .whitespace := by
    intro hkind
    have htrivia := (h.token token htoken).1
    rw [Token.isTrivia, hkind] at htrivia
    cases htrivia
  have hahead : s.ahead = token :: s.unread := by rw [ahead, htoken]; rfl
  rw [weight, weight, take_of_some htoken, ahead_read, hahead,
    List.filter_cons_of_pos (by simpa using hkind), List.length_cons]
  exact Nat.lt_succ_of_le ((List.dropWhile_sublist _).filter _).length_le

end State

/-! ## Evolving -/

/-- `s'` comes from `s` by taking tokens in, marking what is missing and making branches of what is
above the oldest `floor` nodes. -/
inductive Evolves (floor : Nat) (s : State) : State → Prop where
  | refl : Evolves floor s s
  | take {t : State} {node : Token → Node} :
      Evolves floor s t → IsTaking node → Evolves floor s (t.take node)
  | missing {t : State} (wanted : Wanted) :
      Evolves floor s t → Evolves floor s (t.markMissing wanted)
  | wrap {t : State} {marker : Nat} (kind : Kind) :
      Evolves floor s t → floor ≤ marker →
        (kind.isAnchored = true → Node.BeginsWithToken (t.firm.drop marker)) →
          kind.isBracket = false → Evolves floor s (t.wrap marker kind)

namespace Evolves

variable {floor : Nat} {s t u : State}

theorem trans (hst : Evolves floor s t) (htu : Evolves floor t u) : Evolves floor s u := by
  induction htu with
  | refl => exact hst
  | take _ hnode ih => exact ih.take hnode
  | missing wanted _ ih => exact ih.missing wanted
  | wrap kind _ hmarker hbegins hkind ih => exact ih.wrap kind hmarker hbegins hkind

theorem lower {floor' : Nat} (h : Evolves floor s t) (hfloor : floor' ≤ floor) :
    Evolves floor' s t := by
  induction h with
  | refl => exact .refl
  | take _ hnode ih => exact ih.take hnode
  | missing wanted _ ih => exact ih.missing wanted
  | wrap kind _ hmarker hbegins hkind ih =>
    exact ih.wrap kind (hfloor.trans hmarker) hbegins hkind

theorem sane (h : Evolves floor s t) (hs : s.Sane) : t.Sane := by
  induction h with
  | refl => exact hs
  | take _ _ ih => exact ih.take _
  | missing wanted _ ih => exact ih.markMissing wanted
  | wrap kind _ _ _ _ ih => exact ih.wrap _ kind

/-! ### The tokens ahead -/

/-- Either nothing was read, or there are fewer tokens ahead, and fewer that are no white space. -/
theorem reads (h : Evolves floor s t) (hs : s.Sane) :
    t.weight < s.weight ∧ t.ahead.length < s.ahead.length
      ∨ t.token? = s.token? ∧ t.unread = s.unread := by
  induction h with
  | refl => exact .inr ⟨rfl, rfl⟩
  | @take t node ht _ ih =>
    cases htoken : t.token? with
    | none => rwa [State.take_of_none htoken]
    | some token =>
      have hweight := (ht.sane hs).weight_take htoken node
      have hlength := State.ahead_take_lt (by rw [htoken]; rfl) node
      left
      rcases ih with hread | ⟨hsame, hunread⟩
      · exact ⟨hweight.trans hread.1, hlength.trans hread.2⟩
      · have hahead : s.ahead = t.ahead := by
          rw [State.ahead, State.ahead, hsame, hunread]
        have hsame : s.weight = t.weight := by rw [State.weight, State.weight, hahead]
        rw [hahead, hsame]
        exact ⟨hweight, hlength⟩
  | @missing t wanted _ ih =>
    rcases t.markMissing_eq wanted with heq | heq <;> rw [heq] <;> exact ih
  | wrap _ _ _ _ _ ih => exact ih

theorem ahead_suffix (h : Evolves floor s t) : t.ahead <:+ s.ahead := by
  induction h with
  | refl => exact List.suffix_rfl
  | @take t node _ _ ih => exact (t.ahead_take_suffix node).trans ih
  | @missing t wanted _ ih =>
    rcases t.markMissing_eq wanted with heq | heq <;> rw [heq] <;> exact ih
  | wrap _ _ _ _ _ ih => exact ih

/-! ### Below the floor -/

theorem floor_le_marker (h : Evolves floor s t) (hs : s.Sane) (hfloor : floor ≤ s.marker) :
    floor ≤ t.marker := by
  induction h with
  | refl => exact hfloor
  | take ht _ ih => exact ih.trans (State.built_suffix_take _ _).length_le
  | @missing t wanted ht ih =>
    have ht := ht.sane hs
    rw [(ht.markMissing wanted).marker_eq, ht.loose_markMissing]
    rw [ht.marker_eq] at ih
    rcases ht.firm_markMissing wanted with heq | heq <;> rw [heq]
    · exact ih
    · rw [List.length_append]
      omega
  | @wrap t marker kind ht hmarker _ _ ih =>
    have ht := ht.sane hs
    rw [(ht.wrap marker kind).marker_eq, ht.loose_wrap, ht.firm_wrap, List.length_append,
      List.length_take, List.length_singleton]
    rw [ht.marker_eq] at ih
    omega

/-- What is below the floor keeps its core. -/
theorem coreAll_take (h : Evolves floor s t) (hs : s.Sane) (hfloor : floor ≤ s.marker) :
    Node.coreAll (t.firm.take floor) = Node.coreAll (s.firm.take floor) := by
  induction h with
  | refl => rfl
  | @take t node ht _ ih =>
    cases htoken : t.token? with
    | none => rwa [State.take_of_none htoken]
    | some token =>
      have hmarker := ht.floor_le_marker hs hfloor
      have ht := ht.sane hs
      rw [ht.marker_eq, ← List.length_append] at hmarker
      -- of the nodes that became firm only white space and comments can be below the floor
      have hloose := Node.coreAll_take_eq_nil ht.coreAll_loose (floor - t.firm.length)
      rw [State.firm_take htoken, List.take_append_of_le_length hmarker, List.take_append,
        Node.coreAll_append, hloose, List.append_nil, ih]
  | @missing t wanted ht ih =>
    have ht := ht.sane hs
    rcases ht.firm_markMissing wanted with heq | heq <;> rw [heq]
    · exact ih
    · have hmark : Node.coreAll [.error (.expected wanted) []] = [] := rfl
      rw [List.take_append, Node.coreAll_append, Node.coreAll_take_eq_nil hmark,
        List.append_nil, ih]
  | @wrap t marker kind ht hmarker _ _ ih =>
    have ht := ht.sane hs
    rw [ht.firm_wrap, List.take_append, Node.coreAll_append, List.take_take,
      Nat.min_eq_left hmarker, ih]
    refine (List.append_right_eq_self).2 ?_
    -- the branch is above the floor, or it is empty
    rcases Nat.lt_or_ge t.firm.length marker with hlt | hge
    · rw [List.drop_of_length_le hlt.le]
      exact Node.coreAll_take_eq_nil (by simp) _
    · rw [List.length_take, Nat.min_eq_left hge, Nat.sub_eq_zero_of_le hmarker]
      rfl

/-- What begins with a token above the floor goes on doing so. -/
theorem beginsWithToken (h : Evolves floor s t) (hs : s.Sane)
    (hbegins : Node.BeginsWithToken (s.firm.drop floor)) :
    Node.BeginsWithToken (t.firm.drop floor) := by
  induction h with
  | refl => exact hbegins
  | @take t node ht _ ih =>
    cases htoken : t.token? with
    | none => rwa [State.take_of_none htoken]
    | some token =>
      rw [State.firm_take htoken, List.append_assoc, List.drop_append]
      exact ih.append _
  | @missing t wanted ht ih =>
    rcases (ht.sane hs).firm_markMissing wanted with heq | heq <;> rw [heq]
    · exact ih
    · rw [List.drop_append]
      exact ih.append _
  | @wrap t marker kind ht hmarker _ _ ih =>
    have ht := ht.sane hs
    obtain ⟨leaf, hleaf, hkind⟩ := ih
    refine ⟨leaf, ?_, hkind⟩
    -- a branch has the leaves of the nodes that it takes the place of
    rw [ht.leavesAll_firm_wrap hmarker, hleaf]

/-- The firm nodes below the floor stay. -/
theorem take_firm (h : Evolves floor s t) (hs : s.Sane) (hfloor : floor ≤ s.firm.length) :
    floor ≤ t.firm.length ∧ t.firm.take floor = s.firm.take floor := by
  induction h with
  | refl => exact ⟨hfloor, rfl⟩
  | @take t node ht _ ih =>
    obtain ⟨hle, hsame⟩ := ih
    cases htoken : t.token? with
    | none =>
      rw [State.take_of_none htoken]
      exact ⟨hle, hsame⟩
    | some token =>
      rw [State.firm_take htoken, List.append_assoc, List.length_append,
        List.take_append_of_le_length hle]
      exact ⟨hle.trans (Nat.le_add_right _ _), hsame⟩
  | @missing t wanted ht ih =>
    obtain ⟨hle, hsame⟩ := ih
    rcases (ht.sane hs).firm_markMissing wanted with heq | heq <;> rw [heq]
    · exact ⟨hle, hsame⟩
    · rw [List.length_append, List.take_append_of_le_length hle]
      exact ⟨hle.trans (Nat.le_add_right _ _), hsame⟩
  | @wrap t marker kind ht hmarker _ _ ih =>
    obtain ⟨hle, hsame⟩ := ih
    have hbelow : floor ≤ (t.firm.take marker).length := by
      rw [List.length_take]
      exact Nat.le_min.2 ⟨hmarker, hle⟩
    rw [(ht.sane hs).firm_wrap, List.length_append, List.take_append_of_le_length hbelow,
      List.take_take, Nat.min_eq_left hmarker]
    exact ⟨hbelow.trans (Nat.le_add_right _ _), hsame⟩

/-! ### The leaves and the branches -/

/-- The row with the tokens ahead keeps its leaves, up to tokens that became errors. -/
theorem stands (h : Evolves floor s t) (hs : s.Sane) :
    Node.StandsAll (Node.leavesAll s.row) (Node.leavesAll t.row) := by
  induction h with
  | refl => exact .refl _
  | @take t node ht hnode ih =>
    cases htoken : t.token? with
    | none => rwa [State.take_of_none htoken]
    | some token =>
      obtain ⟨htrivia, htext⟩ := (ht.sane hs).token token htoken
      refine ih.trans ?_
      rw [State.take_of_some htoken, State.row_read, State.row, State.ahead, htoken]
      simp only [Option.toList_some, List.map_append, List.map_cons, List.map_nil,
        List.reverse_cons, Node.leavesAll_append, Node.leavesAll, List.append_nil,
        List.append_assoc]
      exact List.rel_append (Node.StandsAll.refl _)
        (List.rel_append (hnode.stands htrivia htext) (Node.StandsAll.refl _))
  | @missing t wanted _ ih =>
    rcases t.markMissing_eq wanted with heq | heq <;> rw [heq]
    · exact ih
    · rwa [State.leavesAll_insertSolid (by simp [Node.leaves, Node.leavesAll])]
  | wrap kind _ _ _ _ ih =>
    unfold State.wrap
    rwa [State.leavesAll_insertSolid (by rw [Node.leaves])]

/-- The text of the row has grown by that of the tokens which are no longer ahead. -/
theorem exists_front {built : List Node} {tokens : List Token}
    (h : Evolves floor (State.read built tokens) t) (hs : (State.read built tokens).Sane) :
    ∃ front, tokens = front ++ t.ahead
      ∧ Node.textAll t.built.reverse = Node.textAll built.reverse ++ front.flatMap (·.text) := by
  have hahead := h.ahead_suffix
  rw [State.ahead_read] at hahead
  obtain ⟨front, rfl⟩ := hahead.trans (List.dropWhile_suffix _)
  have htext := (h.stands hs).flatMap_ownText
  rw [State.row_read, State.row, Node.flatMap_leavesAll, Node.flatMap_leavesAll,
    Node.textAll_append, Node.textAll_append, List.map_append, Node.textAll_append,
    ← List.append_assoc, Node.textAll_map_node, Node.textAll_map_node] at htext
  exact ⟨front, rfl, List.append_cancel_right htext⟩

end Evolves

/-- A row whose nodes are tidy and whose firm part ends with a token. -/
structure State.Tidy (s : State) : Prop where
  nodes : ∀ node ∈ s.firm, node.Tidy
  ends : Node.EndsWithToken s.firm

theorem State.tidy_start (tokens : List Token) : (State.start tokens).Tidy := by
  refine ⟨by simp [firm_start], Node.endsWithToken_of_leavesAll_eq_nil ?_⟩
  rw [firm_start]
  rfl

theorem Evolves.tidy {floor : Nat} {s t : State} (h : Evolves floor s t) (hs : s.Sane)
    (htidy : s.Tidy) : t.Tidy := by
  induction h with
  | refl => exact htidy
  | @take t node ht hnode ih =>
    cases htoken : t.token? with
    | none => rwa [State.take_of_none htoken]
    | some token =>
      have ht := ht.sane hs
      obtain ⟨htrivia, htext⟩ := ht.token token htoken
      constructor
      · -- the loose nodes become firm, in front of the token
        rw [State.firm_take htoken]
        simp only [List.forall_mem_append, List.forall_mem_singleton]
        refine ⟨⟨ih.nodes, fun node hloose => ?_⟩, hnode.tidy htext⟩
        obtain ⟨hleaf, -, hnonempty⟩ := ht.loose node hloose
        exact .of_isLeaf hleaf hnonempty
      · intro leaf hleaf
        rw [State.firm_take htoken, Node.leavesAll_append, Node.leavesAll, Node.leavesAll,
          List.append_nil, hnode.leaves htext, List.getLast?_concat, Option.some.injEq] at hleaf
        rw [← hleaf]
        exact hnode.isTrivia htrivia
  | @missing t wanted ht ih =>
    rcases (ht.sane hs).firm_markMissing wanted with heq | heq
    · exact ⟨heq ▸ ih.nodes, heq ▸ ih.ends⟩
    · constructor
      · rw [heq]
        simp only [List.forall_mem_append, List.forall_mem_singleton]
        exact ⟨ih.nodes, .error⟩
      · intro leaf hleaf
        rw [heq, Node.leavesAll_append] at hleaf
        exact ih.ends leaf (by simpa [Node.leavesAll, Node.leaves] using hleaf)
  | @wrap t marker kind ht _ hbegins hkind ih =>
    have ht := ht.sane hs
    constructor
    · rw [ht.firm_wrap]
      simp only [List.forall_mem_append, List.forall_mem_singleton]
      refine ⟨fun node hnode => ih.nodes node (List.mem_of_mem_take hnode), ?_⟩
      exact .branch (fun node hnode => ih.nodes node (List.mem_of_mem_drop hnode))
        (ih.ends.drop marker) hbegins hkind
    · have hleaves := ht.leavesAll_firm_wrap (Nat.zero_le marker) kind
      rw [List.drop_zero, List.drop_zero] at hleaves
      intro leaf hleaf
      rw [hleaves] at hleaf
      exact ih.ends leaf hleaf

/-! ## Opening -/

/-- `t` comes from `s` by taking the current token in and going on above it. -/
def Opens (s t : State) : Prop :=
  s.token?.isSome ∧ ∃ node, IsTaking node ∧ Evolves s.marker (s.take node) t

namespace Opens

variable {floor : Nat} {s t u : State}

theorem evolves (h : Opens s t) (hfloor : floor ≤ s.marker) : Evolves floor s t := by
  obtain ⟨-, node, hnode, ht⟩ := h
  exact (Evolves.refl.take hnode).trans (ht.lower hfloor)

theorem trans (h : Opens s t) (htu : Evolves s.marker t u) : Opens s u := by
  obtain ⟨hsome, node, hnode, ht⟩ := h
  exact ⟨hsome, node, hnode, ht.trans htu⟩

/-- What is built from the marker on begins with the token. -/
theorem beginsWithToken (h : Opens s t) (hs : s.Sane) :
    Node.BeginsWithToken (t.firm.drop s.marker) := by
  obtain ⟨hsome, node, hnode, ht⟩ := h
  obtain ⟨token, htoken⟩ := Option.isSome_iff_exists.1 hsome
  obtain ⟨htrivia, htext⟩ := hs.token token htoken
  have hlength : s.marker = s.built.reverse.length := List.length_reverse.symm
  refine ht.beginsWithToken (hs.take node) ⟨node token, ?_, hnode.isTrivia htrivia⟩
  rw [State.firm_take htoken, State.firm_append_loose, hlength, List.drop_left, Node.leavesAll,
    Node.leavesAll, List.append_nil, hnode.leaves htext]
  rfl

/-- Something is firm behind the marker. -/
theorem marker_lt (h : Opens s t) (hs : s.Sane) : s.marker < t.firm.length := by
  obtain ⟨leaf, hleaf, -⟩ := h.beginsWithToken hs
  by_contra hle
  rw [List.drop_of_length_le (Nat.le_of_not_lt hle)] at hleaf
  cases hleaf

/-- The row that was there stays. -/
theorem take_firm (h : Opens s t) (hs : s.Sane) : t.firm.take s.marker = s.built.reverse := by
  obtain ⟨hsome, node, hnode, ht⟩ := h
  obtain ⟨token, htoken⟩ := Option.isSome_iff_exists.1 hsome
  have hlength : s.marker = s.built.reverse.length := List.length_reverse.symm
  have hfirm : (s.take node).firm = s.built.reverse ++ [node token] := by
    rw [State.firm_take htoken, State.firm_append_loose]
  have hle : s.marker ≤ (s.take node).firm.length := by
    rw [hfirm, List.length_append, hlength]
    exact Nat.le_add_right _ _
  rw [(ht.take_firm (hs.take node) hle).2, hfirm, hlength, List.take_left]

/-- Cutting the row back undoes it. -/
theorem rollBack_eq (h : Opens s t) (hs : s.Sane) : t.rollBack s = s := by
  obtain ⟨added, hadded⟩ : s.built <:+ t.built := by
    have hbuilt : t.built.reverse = s.built.reverse ++ (t.firm.drop s.marker ++ t.loose) := by
      rw [← State.firm_append_loose, ← h.take_firm hs, ← List.append_assoc, List.take_append_drop]
    refine List.reverse_prefix.1 ?_
    rw [hbuilt]
    exact List.prefix_append _ _
  unfold State.rollBack
  rw [← hadded, List.length_append, Nat.add_sub_cancel, List.drop_left]

end Opens

end Grammar

end StatementCompletion
