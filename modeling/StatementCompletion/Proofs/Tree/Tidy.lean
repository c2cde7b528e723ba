import StatementCompletion.Proofs.Grammar.Agreement.Sources
import StatementCompletion.Proofs.Tree.Parts
import StatementCompletion.Proofs.Tree.Spans

/-!
# Tidy nodes in their place

Every node of the tree of a text is tidy but for the root, which may begin and end with white space.
A leaf that is no error is a token of the text.

What is neither white space nor a comment ends right behind a token of the program.  Where it has
leaves of its own this is because it is tidy.  A mark that something is missing and a branch
without leaves stand right behind such a token too, since both are put in front of the white
space and comments that are loose.
-/

namespace StatementCompletion

/-! ## Settled nodes -/

namespace Node

variable {front nodes more : List Node} {node : Node}

/-- Behind some nodes, a node ends with a token unless it is white space or a comment,
and so do the nodes below it. -/
inductive Settled : List Node → Node → Prop where
  | intro {front : List Node} {node : Node} :
      (node.kind.isTrivia = false → EndsWithToken (front ++ [node])) →
        (∀ a child b, node.children = a ++ child :: b → Settled (front ++ a) child) →
          Settled front node

/-- Every node in a row is settled behind those in front of it. -/
def SettledAll (nodes : List Node) : Prop :=
  ∀ a node b, nodes = a ++ node :: b → Settled a node

theorem Settled.endsWithToken (h : Settled front node) (hkind : node.kind.isTrivia = false) :
    EndsWithToken (front ++ [node]) := by
  cases h with
  | intro hends _ => exact hends hkind

theorem Settled.of_children {child : Node} {a b : List Node} (h : Settled front node)
    (hchildren : node.children = a ++ child :: b) : Settled (front ++ a) child := by
  cases h with
  | intro _ hbelow => exact hbelow a child b hchildren

theorem settled_of_isLeaf (hleaf : node.isLeaf = true)
    (hends : node.kind.isTrivia = false → EndsWithToken (front ++ [node])) :
    Settled front node := by
  refine .intro hends fun a child b hchildren => ?_
  cases node with
  | leaf | error => simp [children] at hchildren
  | branch => cases hleaf

/-- Behind a settled row, nodes are settled that are so behind it. -/
theorem SettledAll.append (h : SettledAll nodes)
    (hmore : ∀ a node b, more = a ++ node :: b → Settled (nodes ++ a) node) :
    SettledAll (nodes ++ more) := by
  intro a node b hrow
  rcases List.append_eq_append_iff.1 hrow with ⟨middle, rfl, hrest⟩ | ⟨middle, rfl, hrest⟩
  · exact hmore middle node b hrest
  · cases middle with
    | nil =>
      rw [List.append_nil] at hmore
      simpa using hmore [] node b hrest.symm
    | cons first middle =>
      obtain ⟨rfl, -⟩ := List.cons.inj hrest
      exact h a node middle rfl

theorem SettledAll.concat (h : SettledAll nodes) (hnode : Settled nodes node) :
    SettledAll (nodes ++ [node]) := by
  refine h.append fun a other b hrow => ?_
  obtain ⟨rfl, hrest⟩ := List.append_eq_singleton_iff.1 hrow.symm |>.resolve_right
    fun h => by simp at h
  obtain ⟨rfl, -⟩ := List.cons.inj hrest
  rwa [List.append_nil]

theorem SettledAll.trivia (h : SettledAll nodes)
    (hmore : ∀ node ∈ more, node.isLeaf = true ∧ node.kind.isTrivia = true) :
    SettledAll (nodes ++ more) := by
  refine h.append fun a node b hrow => ?_
  obtain ⟨hleaf, htrivia⟩ := hmore node (by simp [hrow])
  exact settled_of_isLeaf hleaf fun hkind => absurd (htrivia.symm.trans hkind) (by decide)

theorem SettledAll.take (h : SettledAll nodes) (n : Nat) : SettledAll (nodes.take n) := by
  intro a node b hrow
  refine h a node (b ++ nodes.drop n) ?_
  conv => lhs; rw [← List.take_append_drop n nodes, hrow]
  simp

/-- The last of some tokens stands as the last of the leaves. -/
theorem StandsAll.exists_getLast? {tokens : List Token} {leaves : List Node} {token : Token}
    (h : StandsAll (tokens.map Token.node) leaves) (hlast : tokens.getLast? = some token) :
    ∃ leaf, leaves.getLast? = some leaf ∧ Stands token.node leaf := by
  rcases List.eq_nil_or_concat' leaves with rfl | ⟨before, leaf, rfl⟩
  · rw [List.map_eq_nil_iff.1 (List.forall₂_nil_right_iff.1 h)] at hlast
    cases hlast
  · obtain ⟨front, back, rfl, -, hback⟩ := h.exists_append
    obtain ⟨other, rest, rfl, hstands, hrest⟩ := hback.exists_cons
    obtain rfl : rest = [] := List.map_eq_nil_iff.1 (List.forall₂_nil_right_iff.1 hrest)
    obtain rfl : other = token := Option.some.inj (List.getLast?_concat.symm.trans hlast)
    exact ⟨leaf, List.getLast?_concat, hstands⟩

end Node

namespace Grammar

open Node

/-- The firm part of the row stays settled: what is taken in is a token, and a mark or a branch is
put where the firm part ends, which is behind a token. -/
theorem Evolves.settledAll {floor : Nat} {s t : State} (h : Evolves floor s t) (hs : s.Sane)
    (htidy : s.Tidy) (hsettled : SettledAll s.firm) : SettledAll t.firm := by
  induction h with
  | refl => exact hsettled
  | @take t node ht hnode ih =>
    cases htoken : t.token? with
    | none => rwa [State.take_of_none htoken]
    | some token =>
      have hsane := ht.sane hs
      obtain ⟨htrivia, htext⟩ := hsane.token token htoken
      rw [State.firm_take htoken]
      refine (ih.trivia fun node hloose => ?_).concat (settled_of_isLeaf (hnode.isLeaf token)
        fun _ leaf hleaf => ?_)
      · exact ⟨(hsane.loose node hloose).1, (hsane.loose node hloose).2.1⟩
      · rw [leavesAll_append, leavesAll, leavesAll, List.append_nil, hnode.leaves htext,
          List.getLast?_concat, Option.some.injEq] at hleaf
        exact hleaf ▸ hnode.isTrivia htrivia
  | @missing t wanted ht ih =>
    have hends := (ht.tidy hs htidy).ends
    rcases (ht.sane hs).firm_markMissing wanted with heq | heq <;> rw [heq]
    · exact ih
    · refine ih.concat (settled_of_isLeaf rfl fun _ leaf hleaf => hends leaf ?_)
      simpa [leavesAll_append, leavesAll, leaves] using hleaf
  | @wrap t marker kind ht _ _ _ ih =>
    have hsane := ht.sane hs
    have hends := (ht.tidy hs htidy).ends
    have hleaves := hsane.leavesAll_firm_wrap (Nat.zero_le marker) kind
    rw [List.drop_zero, List.drop_zero, hsane.firm_wrap] at hleaves
    rw [hsane.firm_wrap]
    refine (ih.take marker).concat (.intro (fun _ leaf hleaf => hends leaf ?_)
      fun a child b hchildren => ?_)
    · rwa [hleaves] at hleaf
    · refine ih _ child b ?_
      rw [List.append_assoc, ← hchildren, children, List.take_append_drop]

end Grammar

/-- The nodes below the root of the tree of a text are settled. -/
theorem Node.settledAll_children_ofText (kind : SourceKind) (text : Text) :
    SettledAll (ofText kind text).children := by
  obtain ⟨t, _, htree, -, ht, hevolves, -⟩ := exists_alike kind (Token.lexed_ofText text).respaced
  have hsane := Grammar.State.sane_read [] (Token.ofText_spells text).nonempty
  have hstart : SettledAll (Grammar.State.start (Token.ofText text)).firm := by
    rw [Grammar.State.firm_start]
    exact fun a node b => by simp
  have hsettled := hevolves.settledAll hsane (Grammar.State.tidy_start _) hstart
  rw [htree, children, ← Grammar.State.firm_append_loose]
  exact hsettled.trivia fun node hloose =>
    ⟨(ht.sane.loose node hloose).1, (ht.sane.loose node hloose).2.1⟩

namespace Cursor

variable {kind : SourceKind} {text : Text} {c d : Cursor}

theorem Below.tidy (h : Below c d) (htidy : c.node.Tidy) : d.node.Tidy := by
  induction h with
  | self => exact htidy
  | child _ hchild ih => exact ih.of_mem_children (node_mem_of_mem_children hchild)

theorem kind_root_ofText (kind : SourceKind) (text : Text) :
    (root (Node.ofText kind text)).kind = .file := by
  obtain ⟨children, htree, -⟩ := Node.parse?_softens kind text
  rw [Cursor.kind, root, Node.ofText, htree]
  rfl

/-- Below the root of the tree of a text every node is tidy. -/
theorem Below.eq_root_or_tidy (h : Below (root (Node.ofText kind text)) c) :
    c = root (Node.ofText kind text) ∨ c.node.Tidy := by
  rcases h.eq_or_child with rfl | ⟨child, hchild, hbelow⟩
  · exact .inl rfl
  · exact .inr
      (hbelow.tidy (Node.tidy_children_ofText kind text _ (node_mem_of_mem_children hchild)))

theorem Below.tidy_of_ofText (h : Below (root (Node.ofText kind text)) c) (hkind : c.kind ≠ .file) :
    c.node.Tidy := by
  rcases h.eq_root_or_tidy with rfl | htidy
  · exact absurd (kind_root_ofText kind text) hkind
  · exact htidy

theorem Below.tidy_children_of_ofText (h : Below (root (Node.ofText kind text)) c) :
    ∀ node ∈ c.node.children, node.Tidy := by
  rcases h.eq_root_or_tidy with rfl | htidy
  · exact Node.tidy_children_ofText kind text
  · exact fun _ => htidy.of_mem_children

/-- What has children is no bracket. -/
theorem Below.isBracket_of_ofText (h : Below (root (Node.ofText kind text)) c)
    (hne : c.node.children ≠ []) :
    c.kind.isBracket = false := by
  rcases h.eq_root_or_tidy with rfl | htidy
  · rw [kind_root_ofText]
    rfl
  · obtain ⟨own, children, hnode⟩ := exists_branch_of_children hne
    rw [Cursor.kind, hnode]
    rw [hnode] at htidy
    cases htidy with
    | branch _ _ _ hbracket => exact hbracket

/-! ## Leaves -/

/-- A leaf that is no error covers some text. -/
theorem Below.ownText_ne_nil (h : Below (root (Node.ofText kind text)) c)
    (hleaf : c.node.isLeaf = true) (hkind : c.kind ≠ .error) : c.node.ownText ≠ [] := by
  rcases h.eq_root_or_tidy with rfl | htidy
  · rw [root, (Node.ofText_isTreeOf kind text).isBranch] at hleaf
    cases hleaf
  · rw [Cursor.kind] at hkind
    generalize c.node = node at hleaf hkind htidy
    cases htidy with
    | leaf htext => exact htext
    | error => exact absurd rfl hkind
    | branch => cases hleaf

/-- A leaf with some text is a token of the text, or an error that stands for one. -/
theorem Below.exists_token_text (h : Below (root (Node.ofText kind text)) c)
    (htext : c.node.ownText ≠ []) :
    ∃ (front : List Token) (token : Token) (back : List Token),
      Token.ofText text = front ++ token :: back ∧ token.text = c.node.ownText
        ∧ (c.kind ≠ .error → c.node = token.node)
        ∧ Text.size (front.flatMap (·.text)) = c.offset := by
  obtain ⟨before, after, hleaves, hoffset⟩ := h.leaves_eq
  have hstands := Node.ofText_stands kind text
  rw [hleaves, Node.leaves_eq_singleton htext, List.append_assoc,
    List.singleton_append] at hstands
  obtain ⟨front, row, htokens, hfront, hrow⟩ := hstands.exists_append
  obtain ⟨token, back, rfl, htoken, -⟩ := hrow.exists_cons
  exact ⟨front, token, back, htokens, htoken.text_eq,
    htoken.eq_node, by rw [hfront.text_eq, hoffset]⟩

/-- A leaf that is no error is a token of the text. -/
theorem Below.exists_token (h : Below (root (Node.ofText kind text)) c)
    (htext : c.node.ownText ≠ [])
    (hkind : c.kind ≠ .error) : ∃ (front : List Token) (token : Token) (back : List Token),
      Token.ofText text = front ++ token :: back ∧ c.node = token.node
        ∧ Text.size (front.flatMap (·.text)) = c.offset := by
  obtain ⟨front, token, back, htokens, -, hnode, hoffset⟩ := h.exists_token_text htext
  exact ⟨front, token, back, htokens, hnode hkind, hoffset⟩

/-! ## Where nodes end -/

/-- A node below another one, among the leaves below that. -/
theorem Below.exists_settled {top : Cursor} (h : Below top c)
    (hall : Node.SettledAll top.node.children) :
    c = top ∨ ∃ front back, Node.Settled front c.node
      ∧ Node.leavesAll top.node.children = Node.leavesAll front ++ c.node.leaves ++ back
      ∧ c.offset = top.offset + Node.sizeAll front := by
  induction h with
  | self => exact .inl rfl
  | @child p child hp hchild ih =>
    right
    obtain ⟨a, node, b, hchildren, rfl⟩ := mem_placeAll.1 hchild
    rcases ih with rfl | ⟨front, back, hsettled, hleaves, hoffset⟩
    · refine ⟨a, Node.leavesAll b, hall a node b hchildren, ?_, rfl⟩
      rw [hchildren, Node.leavesAll_append, Node.leavesAll, List.append_assoc]
    · have hne : p.node.children ≠ [] := by simp [hchildren]
      obtain ⟨own, nodes, hnode⟩ := exists_branch_of_children hne
      refine ⟨front ++ a, Node.leavesAll b ++ back, hsettled.of_children hchildren, ?_, ?_⟩
      · have hown : p.node.leaves = Node.leavesAll p.node.children := by
          rw [hnode]
          rfl
        rw [hleaves, hown, hchildren]
        simp only [Node.leavesAll_append, Node.leavesAll, List.append_assoc]
      · show p.offset + Node.sizeAll a = _
        rw [hoffset, Node.sizeAll_append, Nat.add_assoc]

/-- **What is neither white space nor a comment ends behind a token of the program.** -/
theorem Below.exists_seam (h : Below (root (Node.ofText kind text)) c)
    (hroot : c ≠ root (Node.ofText kind text))
    (hkind : c.kind.isTrivia = false) : ∃ front back, Token.ofText text = front ++ back
      ∧ Text.size (front.flatMap (·.text)) = c.stop
      ∧ ∀ token, front.getLast? = some token → token.isTrivia = false := by
  obtain ⟨front, back, hsettled, hleaves, hoffset⟩ :=
    (h.exists_settled (Node.settledAll_children_ofText kind text)).resolve_left hroot
  have hends := hsettled.endsWithToken hkind
  have hfront : Node.leavesAll (front ++ [c.node]) = Node.leavesAll front ++ c.node.leaves := by
    rw [Node.leavesAll_append, Node.leavesAll, Node.leavesAll, List.append_nil]
  have hstands := Node.ofText_stands kind text
  obtain ⟨children, htree, -⟩ := Node.parse?_softens kind text
  have hall : (Node.ofText kind text).leaves = Node.leavesAll (Node.ofText kind text).children := by
    rw [Node.ofText, htree]
    rfl
  rw [hall, show Node.leavesAll (Node.ofText kind text).children = _ from hleaves,
    ← hfront] at hstands
  obtain ⟨tokens, rest, htokens, hstands, -⟩ := hstands.exists_append
  refine ⟨tokens, rest, htokens, ?_, fun token hlast => ?_⟩
  · rw [hstands.text_eq, Node.flatMap_leavesAll, Node.size_textAll, Node.sizeAll_append,
      Node.sizeAll, Node.sizeAll]
    show Node.sizeAll front + (c.node.size + 0) = c.offset + c.node.size
    rw [hoffset, show (root (Node.ofText kind text)).offset = 0 from rfl,
      Nat.zero_add, Nat.add_zero]
  · obtain ⟨leaf, hleaf, htoken⟩ := hstands.exists_getLast? hlast
    rw [Token.isTrivia, ← Token.kind_node, ← htoken.isTrivia]
    exact hends leaf hleaf

end Cursor

end StatementCompletion
