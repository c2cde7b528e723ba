import StatementCompletion.Proofs.Grammar.Bracing.Text
import StatementCompletion.Proofs.Repair.Insertion

/-!
# Braces around a body

The remedy for an unbraced body edits the text at one place, if it edits it at all.  In
the tree of the new text the statement has a block for the body, with the body alone in
it, and all else is as it was.
-/

namespace StatementCompletion

/-! ## A statement with a block -/

/-- A node stands in its place among the children where it stands in the row. -/
theorem Cursor.exists_children_eq {c : Cursor} {front back : List Node} {node : Node}
    (h : c.node.children = front ++ node :: back) : ∃ before child after,
      c.children = before ++ child :: after ∧ before.map (·.node) = front ∧ child.node = node
        ∧ after.map (·.node) = back := by
  rw [children, h, placeAll_append, placeAll]
  exact ⟨_, _, _, rfl, map_node_placeAll .., rfl, map_node_placeAll ..⟩

/-- The statement directly behind the parenthesis is the body. -/
theorem Repair.body?_of_childrenAfter {c closed body : Cursor} {behind : List Cursor}
    (h : c.childrenAfter closed.index = body :: behind) (hbody : body.kind.isStatement = true) :
    Repair.body? c closed = some body := by
  have helse : body.kind ≠ .elseKeyword := fun hkind => by
    rw [hkind] at hbody
    cases hbody
  rw [body?, thenBranch?, Cursor.statementBehind?, h]
  split
  · rw [List.takeWhile_cons_of_pos (by simpa using helse)]
    exact List.find?_cons_of_pos hbody
  · exact List.find?_cons_of_pos hbody

namespace Unbraced

/-- The braces with the gap and the body between them. -/
def code (b : Unbraced) : Node :=
  .branch .codeBlock
    (Grammar.opensBlock.node :: (b.gap ++ [b.body, breaksLine.node, Grammar.closesBlock.node]))

/-- Behind the parenthesis stands a block, which has the body as its only statement. -/
structure IsBlockAt (b : Unbraced) (c closed block code : Cursor) : Prop where
  closed_eq : c.child? .rightParen = some closed
  block_eq : Repair.body? c closed = some block
  block_kind : block.kind = .blockStatement
  code_eq : block.children = [code]
  code_kind : code.kind = .codeBlock
  statements_eq : code.node.children.filter (·.kind.isStatement) = [b.body]

variable {b : Unbraced}

/-- The body is the only statement in the braces. -/
theorem IsCut.statements_eq (h : b.IsCut) :
    b.code.children.filter (·.kind.isStatement) = [b.body] := by
  have hgap : b.gap.filter (·.kind.isStatement) = [] := by
    rw [List.filter_eq_nil_iff]
    intro node hnode
    rw [h.gap node hnode]
    exact Bool.false_ne_true
  rw [code, Node.children, List.filter_cons_of_neg (by decide), List.filter_append, hgap,
    List.nil_append]
  exact List.filter_cons_of_pos h.body

/-- A statement with its body in braces has a block behind the parenthesis. -/
theorem IsCut.exists_isBlockAt (h : b.IsCut) {c : Cursor} (hc : c.node = b.braced) :
    ∃ closed block code, b.IsBlockAt c closed block code := by
  have hnodes : c.node.children = b.front ++ b.closed :: b.block :: b.behind := by rw [hc]; rfl
  obtain ⟨before, closed, after, hchildren, hbefore, hclosed, hafter⟩ :=
    Cursor.exists_children_eq hnodes
  obtain ⟨block, behind, rfl, hblock, -⟩ := List.map_eq_cons_iff.1 hafter
  have hblockKind : block.kind = .blockStatement := by rw [Cursor.kind, hblock]; rfl
  have hinner : block.node.children = [] ++ b.code :: [] := by rw [hblock]; rfl
  obtain ⟨none, code, none', hcode, hnone, hnode, hnone'⟩ := Cursor.exists_children_eq hinner
  obtain rfl := List.map_eq_nil_iff.1 hnone
  obtain rfl := List.map_eq_nil_iff.1 hnone'
  have hcodeKind : code.kind = .codeBlock := by rw [Cursor.kind, hnode]; rfl
  refine ⟨closed, block, code, ?_, ?_, hblockKind, hcode, hcodeKind, hnode ▸ h.statements_eq⟩
  · refine List.find?_eq_some_iff_append.2 ⟨?_, before, _, hchildren, fun child hchild => ?_⟩
    · rw [Cursor.kind, hclosed, h.closed]
      rfl
    · have hmem : child.node ∈ b.front := hbefore ▸ List.mem_map_of_mem hchild
      have hkind : child.kind ≠ .rightParen := h.front child.node hmem
      rw [decide_eq_false hkind]
      rfl
  · exact Repair.body?_of_childrenAfter (Cursor.childrenAfter_of_children_eq hchildren)
      (by rw [hblockKind]; rfl)

end Unbraced

/-! ## The edit -/

namespace Repair

variable {c : Cursor} {d : Document} {actions : List Action}

/-- The body of a statement with a header is put into braces, from the parenthesis on. -/
structure BracesAt (d : Document) (c closed body : Cursor) (front inside back : Text) : Prop where
  owns : ownsUnbracedBody c.kind = true
  closed_eq : c.child? .rightParen = some closed
  body_eq : body? c closed = some body
  sound : body.node.isErroneous = false
  text_eq : d.text = front ++ inside ++ back
  span_eq : (⟨closed.stop, body.stop⟩ : Span) = .behind front inside

/-- A body is put into braces, or there is no edit. -/
theorem braceBody_cases (h : c.Within d.text) (hrun : braceBody d c = .ok actions) :
    Action.edits actions = [] ∨ ∃ closed body front inside back,
    BracesAt d c closed body front inside back
      ∧ actions = [.replace
        { span := .behind front inside, text := '\x7b' :: inside ++ ['\n', '\x7d'] }] := by
  have hnone (hsame : (.ok [] : Except EditError (List Action)) = .ok actions) :
      Action.edits actions = [] :=
    Except.ok.inj hsame ▸ rfl
  unfold braceBody at hrun
  split at hrun
  · next howns =>
    split at hrun
    · exact .inl (hnone hrun)
    · next closed hclosed =>
      split at hrun
      · exact .inl (hnone hrun)
      · next body hbody =>
        split at hrun
        · exact .inl (hnone hrun)
        · obtain ⟨front, gap, back, htext, hgap, hwhole⟩ :=
            h.exists_gap (Cursor.mem_of_child? hclosed) (mem_of_body? hbody)
          have hcut : d.text = front ++ gap ++ (body.node.text ++ back) := by simp [htext]
          rw [hgap, Document.slice_append hcut, hwhole] at hrun
          split at hrun
          · exact .inl (Except.ok.inj hrun ▸ rfl)
          · next hsound =>
            exact .inr ⟨closed, body, front, gap ++ body.node.text, back,
              ⟨howns, hclosed, hbody, Bool.eq_false_iff.2 hsound, htext, hwhole⟩,
              (Except.ok.inj hrun).symm⟩
  · exact .inl (hnone hrun)

end Repair

namespace Remedy

open StatementCompletion.Repair

/-- An edit that puts a body into braces puts nothing else anywhere. -/
theorem exists_bracesAt {e e' : Editor} {holes holes' : Holes} {c : Cursor} (h : c.Within e.text)
    (happly : Remedy.unbracedBody.apply c e holes = .ok (e', holes'))
    (hedit : e'.document ≠ e.document) :
    ∃ closed body front inside back, BracesAt e.document c closed body front inside back
      ∧ e'.text = front ++ ('\x7b' :: inside ++ ['\n', '\x7d']) ++ back := by
  obtain ⟨actions, hactions, -⟩ := Remedy.unbracedBody.succeeds_actions h
  rw [Remedy.apply, hactions] at happly
  replace happly : Action.applyAll e holes actions = .ok (e', holes') := happly
  rcases braceBody_cases h hactions with hnone | ⟨closed, body, front, inside, back, hbraces, rfl⟩
  · obtain ⟨answer, hanswer, hdocument⟩ := Action.applyAll_of_edits_eq_nil hnone e holes
    obtain rfl := Except.ok.inj (hanswer.symm.trans happly)
    exact absurd hdocument hedit
  · obtain ⟨d, hreplace, htext', -⟩ :=
      Editor.replace_append hbraces.text_eq ('\x7b' :: inside ++ ['\n', '\x7d'])
    rw [Action.applyAll, Action.apply, hreplace] at happly
    obtain ⟨rfl, -⟩ := Prod.mk.inj (Except.ok.inj happly)
    exact ⟨closed, body, front, inside, back, hbraces, htext'⟩

/-- The body of a statement with a header has come into braces.  The tokens are those of before with
a brace behind the parenthesis of the header, and a brace on a new line behind the last token of the
body.  The tree is that of before but for the statement, which has the same parts in front of the
body and behind it, and for the body a block with the body alone in it. -/
structure Bracing (kind : SourceKind) (d d' : Document) (c closed body : Cursor)
    (b : Unbraced) : Prop where
  closed_eq : c.child? .rightParen = some closed
  body_eq : body? c closed = some body
  isCut : b.IsCut
  isAt : b.IsAt c closed body
  tokens : ∃ front inside back, Grammar.IsBraced closed.stop body.stop (Token.ofText d.text)
    (Token.ofText d'.text) front inside back
  root_eq : (Snapshot.ofDocument kind d').root = c.graft b.braced
  statement : ∃ c' closed' block code, Cursor.Below (Snapshot.ofDocument kind d').cursor c'
    ∧ c'.kind = c.kind ∧ c'.offset = c.offset ∧ c'.node = b.braced
    ∧ b.IsBlockAt c' closed' block code

/-- **Braces around a body keep the program.**  Where the remedy for an unbraced body edits the
text, the body comes into braces and all else stays in its place. -/
theorem apply_unbracedBody (kind : SourceKind) {e e' : Editor} {holes holes' : Holes} {c : Cursor}
    (h : Cursor.Below (Snapshot.ofDocument kind e.document).cursor c)
    (happly : Remedy.unbracedBody.apply c e holes = .ok (e', holes'))
    (hedit : e'.document ≠ e.document) :
    ∃ closed body b, Bracing kind e.document e'.document c closed body b := by
  have hwithin : c.Within e.text := ⟨_, Node.ofText_isTreeOf kind e.document.text, h⟩
  obtain ⟨closed, body, front, inside, back, hbraces, htext'⟩ :=
    exists_bracesAt hwithin happly hedit
  obtain ⟨b, hcut, hat⟩ :=
    Unbraced.exists_isAt hbraces.owns hbraces.closed_eq hbraces.body_eq hbraces.sound
  obtain ⟨htokens, htree⟩ := Grammar.ofText_braces h hcut hat hbraces.text_eq hbraces.span_eq htext'
  -- the statement stands in the new tree where it stood
  have hswapped := h.swapped_graft b.braced
  rw [← htree] at hswapped
  obtain ⟨top, htop, c', hbelow, hnode, hoffset⟩ :=
    Cursor.exists_below_of_swapped hswapped.symm [] 0 0
  rw [List.mem_singleton.1 htop] at hbelow
  have hkind : c'.kind = c.kind := by rw [Cursor.kind, hnode, Cursor.kind, hat.whole_eq]; rfl
  obtain ⟨closed', block, code, hblock⟩ := hcut.exists_isBlockAt hnode
  exact ⟨closed, body, b, hbraces.closed_eq, hbraces.body_eq, hcut, hat, htokens, htree, c',
    closed', block, code, hbelow, hkind, by rw [hoffset, Nat.zero_add], hnode, hblock⟩

/-- The `else` of an inner `if` comes into the braces of the outer one. -/
theorem apply_unbracedBody_innerElse :
    let e := Editor.ofText "if (a)\n  if (b) f();\n  else g();".toList
    ∃ c ∈ (Snapshot.ofDocument .codeFragment e.document).cursor.children, c.kind = .ifStatement
      ∧ ∃ e' holes', Remedy.unbracedBody.apply c e {} = .ok (e', holes')
        ∧ e'.text = "if (a)\x7b\n  if (b) f();\n  else g();\n\x7d".toList
        ∧ ∃ closed body b, Bracing .codeFragment e.document e'.document c closed body b := by
  intro e
  have hfirst : (Snapshot.ofDocument .codeFragment e.document).cursor.children.head?.map (fun c =>
      (c.kind, (Remedy.unbracedBody.apply c e {}).toOption.map (·.1.text)))
        = some (.ifStatement, some "if (a)\x7b\n  if (b) f();\n  else g();\n\x7d".toList) := by
          decide +kernel
  obtain ⟨c, hc, hanswer⟩ := Option.map_eq_some_iff.1 hfirst
  obtain ⟨hkind, hanswer⟩ := Prod.mk.inj hanswer
  obtain ⟨⟨e', holes'⟩, hrun, htext⟩ := Option.map_eq_some_iff.1 hanswer
  have happly : Remedy.unbracedBody.apply c e {} = .ok (e', holes') := by
    cases hresult : Remedy.unbracedBody.apply c e {} with
    | error error => rw [hresult] at hrun; cases hrun
    | ok answer => rw [hresult] at hrun; rw [Option.some.inj hrun]
  have hmem := List.mem_of_mem_head? hc
  have hedit : e'.document ≠ e.document := fun hsame => by
    have htext : e'.document.text = _ := htext
    rw [hsame] at htext
    revert htext
    decide
  exact ⟨c, hmem, hkind, e', holes', happly, htext,
    apply_unbracedBody .codeFragment (.child .self hmem) happly hedit⟩

end Remedy

end StatementCompletion
