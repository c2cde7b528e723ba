import StatementCompletion.Proofs.Grammar.Agreement.Sources
import StatementCompletion.Proofs.Grammar.Binding.Sources
import StatementCompletion.Proofs.Grammar.Bracing.Coupling
import StatementCompletion.Proofs.Grammar.Tracking.Sources
import StatementCompletion.Proofs.Layout.Depth
import StatementCompletion.Proofs.Repair.Torn
import StatementCompletion.Proofs.Token.Insertion
import StatementCompletion.Proofs.Tree.Tidy

/-!
# Braces in a text

The tokens of a text with braces around the body of a statement make the tree of the text with the
statement in it replaced: nothing else in the tree depends on the braces.

A statement with a header in the tree of a text is read from tokens of the text.  With braces
between these, the text has the same tree but for the braces.
-/

namespace StatementCompletion

open Grammar

/-! ## Braces in a source -/

namespace Grammar

open Node (Swapped)

variable {P : Site} {kind : SourceKind} {text text' : Text} {front : List Token}

/-- Two texts are alike up to the keyword of a statement. -/
theorem Site.precedes_start (htokens : Token.ofText text = front ++ P.keyword :: P.tail)
    (htokens' : Token.ofText text' = front ++ P.keyword :: P.tail') :
    P.Precedes (Node.sizeAll (front.map Token.node)) (State.start (Token.ofText text))
      (State.start (Token.ofText text')) := by
  have hahead : (State.start (Token.ofText text)).ahead
      = front.dropWhile Token.isTrivia ++ P.keyword :: P.tail := by
    rw [State.start, State.ahead_read, htokens, dropWhile_isTrivia_gate P.isTrivia_keyword]
  have hahead' : (State.start (Token.ofText text')).ahead
      = front.dropWhile Token.isTrivia ++ P.keyword :: P.tail' := by
    rw [State.start, State.ahead_read, htokens', dropWhile_isTrivia_gate P.isTrivia_keyword]
  have hfair := State.fair_start text
  have hfair' := State.fair_start text'
  have htrivia : (Token.ofText text').takeWhile Token.isTrivia =
      (Token.ofText text).takeWhile Token.isTrivia := by
    rw [htokens, htokens', takeWhile_isTrivia_gate P.isTrivia_keyword,
      takeWhile_isTrivia_gate P.isTrivia_keyword]
  have hfirm (tokens : List Token) : (State.start tokens).firm = [] := State.firm_read [] tokens
  refine ⟨⟨⟨hfair, hfair', ?_, ?_, ?_, ?_, [], hfirm _, hfirm _⟩, _, hahead, hahead'⟩, ?_⟩
  · rw [hfair.sane.token_eq.1, hfair'.sane.token_eq.1, hahead, hahead']
    cases front.dropWhile Token.isTrivia <;> rfl
  · exact congrArg State.hasNewline htrivia
  · rw [State.start, State.start, State.loose_read, State.loose_read, htrivia]
  · rw [State.isAfterError_eq, State.isAfterError_eq, hfirm, hfirm]
  · rw [State.start, State.row_read, htokens, List.reverse_nil, List.nil_append, List.map_append,
      Node.sizeAll_append]

/-- **Braces around a body change the statement and nothing else.** -/
theorem Site.ofText_eq {tree : Node} (htokens : Token.ofText text = front ++ P.keyword :: P.tail)
    (htokens' : Token.ofText text' = front ++ P.keyword :: P.tail')
    (htree : Swapped P.cut.whole P.cut.braced (Node.sizeAll (front.map Token.node))
      [Node.ofText kind text] [tree]) :
    Node.ofText kind text' = tree := by
  obtain ⟨t, hrun, -, hofText⟩ := Node.exists_run_ofText kind text
  obtain ⟨t', hrun', -, hofText'⟩ := Node.exists_run_ofText kind text'
  have hsettles := (P.coupling (Node.sizeAll (front.map Token.node))).settles
  have hmirrors : Mirrors (P.coupling (Node.sizeAll (front.map Token.node))) anywhere
      (source (parseTo ((Token.ofText text).length + 1)) kind)
      (source (parseTo ((Token.ofText text').length + 1)) kind) :=
    source_mirrors (parseTo_tracks hsettles _ _) hsettles kind
  have hstart := Site.precedes_start htokens htokens'
  have hstep := hmirrors.step (.inl hstart) trivial hrun hrun'
  obtain ⟨ht, -⟩ := hmirrors.grows hstart.gated.fair (Nat.zero_le _) trivial hrun
  rw [hofText] at htree
  obtain ⟨children, rfl, hbuilt⟩ := htree.exists_children fun hwhole => by
    have howns := P.isCut.owns
    rw [(Node.branch.inj hwhole).1] at howns
    cases howns
  rw [hofText']
  congr 1
  -- the statement is none of the white space and comments at the end
  rw [← State.firm_append_loose] at hbuilt
  rcases hbuilt.of_append with ⟨firm', hfirm, rfl⟩ | ⟨inside, loose', -, hloose, -⟩
  · rcases hstep with hlost | ⟨-, hprecedes | hfollows⟩
    · exact absurd hfirm (Node.Missed.absent hlost)
    · have hle := hfirm.stop_le
      have hbelow := hprecedes.sizeAll_firm_le
      have hsize := P.size_whole
      omega
    · rw [← State.firm_append_loose, hfollows.loose, hfollows.swapped.unique P.size_whole hfirm]
  · exact absurd hloose
      (Node.not_swapped_of_leaves rfl fun leaf hleaf => (ht.sane.loose leaf hleaf).1)

end Grammar

/-! ## Braces between tokens of a text -/

namespace Unbraced

variable {b : Unbraced}

theorem mem_children (b : Unbraced) : b.closed ∈ b.whole.children ∧ b.body ∈ b.whole.children := by
  simp [whole, Node.children]

theorem leaves_whole (b : Unbraced) : b.whole.leaves = Node.leavesAll b.front
    ++ (b.closed.leaves ++ (Node.leavesAll b.gap ++ b.body.leaves ++ Node.leavesAll b.behind)) := by
  rw [whole, Node.leaves, Node.leavesAll_append, Node.leavesAll, Node.leavesAll_append,
    Node.leavesAll]
  simp only [List.append_assoc]

/-- The first part is the keyword. -/
theorem exists_front (hcut : b.IsCut) (hmade : b.whole.WellMade) :
    ∃ kind text nodes, b.front = .leaf kind text :: nodes ∧ isGuardKeyword kind = true := by
  obtain ⟨kind, text, nodes, hchildren, hguard⟩ := hmade.headed hcut.owns
  have hchildren : b.front ++ b.closed :: (b.gap ++ b.body :: b.behind) =
      .leaf kind text :: nodes := hchildren
  cases hfront : b.front with
  | nil =>
    rw [hfront, List.nil_append, List.cons.injEq] at hchildren
    have hclosed := hcut.closed
    rw [hchildren.1] at hclosed
    obtain rfl : kind = .rightParen := hclosed
    cases hguard
  | cons first front =>
    rw [hfront, List.cons_append, List.cons.injEq] at hchildren
    exact ⟨kind, text, front, by rw [hchildren.1], hguard⟩

end Unbraced

namespace Grammar

variable {kind : SourceKind} {text : Text} {c closed body : Cursor} {b : Unbraced}

/-- The leaves of a statement with a header: the keyword, the parenthesis and the last
one of the body are tokens. -/
theorem exists_leaves (hcut : b.IsCut) (hmade : b.whole.WellMade) (htidy : b.whole.Tidy) :
    ∃ guard word nodes between last, b.front = .leaf guard word :: nodes
      ∧ isGuardKeyword guard = true
      ∧ b.body.leaves = between ++ [last] ∧ last.kind.isTrivia = false
      ∧ b.whole.leaves = .leaf guard word :: (Node.leavesAll nodes
        ++ b.closed :: (Node.leavesAll b.gap ++ (between ++ last :: Node.leavesAll b.behind))) := by
  obtain ⟨guard, word, nodes, hfront, hguard⟩ := Unbraced.exists_front hcut hmade
  obtain ⟨hclosedMem, hbodyMem⟩ := b.mem_children
  obtain ⟨hclosed, -⟩ :=
    (htidy.of_mem_children hclosedMem).leaves_of_isBracket (by rw [hcut.closed]; rfl)
  have hbody := htidy.of_mem_children hbodyMem
  have hanchored : b.body.kind.isAnchored = true := by rw [Kind.isAnchored, hcut.body]; rfl
  obtain ⟨first, rest, hleaves, -⟩ := hbody.begins hanchored
  have hne : b.body.leaves ≠ [] := by rw [hleaves]; exact List.cons_ne_nil _ _
  have hword : (Node.leaf guard word).leaves = [.leaf guard word] := by
    have hmem : Node.leaf guard word ∈ b.whole.children := by
      rw [Unbraced.whole, Node.children, hfront]
      exact List.mem_cons_self
    cases htidy.of_mem_children hmem with
    | leaf htext => exact Node.leaves_eq_singleton htext
  refine ⟨guard, word, nodes, b.body.leaves.dropLast, b.body.leaves.getLast hne, hfront, hguard,
    (List.dropLast_append_getLast hne).symm,
    hbody.ends hanchored (List.getLast?_eq_some_getLast hne), ?_⟩
  rw [b.leaves_whole, hfront, Node.leavesAll, hword, hclosed,
    List.append_cons b.body.leaves.dropLast, List.dropLast_append_getLast hne]
  simp only [List.append_assoc, List.cons_append, List.nil_append]

/-- **A statement with a header is read from tokens of the text.** -/
theorem exists_site (hc : Cursor.Below (.root (Node.ofText kind text)) c) (hcut : b.IsCut)
    (hwhole : c.node = b.whole) :
    ∃ (P : Site) (front : List Token), P.cut = b ∧ P.closed.node = b.closed
      ∧ P.last.isTrivia = false ∧ Token.ofText text = front ++ P.keyword :: P.tail
      ∧ Node.sizeAll (front.map Token.node) = c.offset := by
  have howns := hcut.owns
  have htidy : b.whole.Tidy := hwhole ▸ hc.tidy_of_ofText fun hfile => by
    rw [Cursor.kind, hwhole] at hfile
    obtain hfile : b.kind = .file := hfile
    rw [hfile] at howns
    cases howns
  have hmade : b.whole.WellMade := hwhole ▸ (hc.every (Node.every_wellMade kind text)).holds
  obtain ⟨guard, word, nodes, inside, final, hfront, hguard, hbody, hsolid, hrow⟩ :=
    exists_leaves hcut hmade htidy
  -- the tokens of the parts
  obtain ⟨before, after, hleaves, hoffset⟩ := hc.leaves_eq
  have hstands := Node.ofText_stands kind text
  have hnonempty := (Token.ofText_spells text).nonempty
  rw [hleaves, hwhole, hrow] at hstands
  simp only [List.append_assoc, List.cons_append] at hstands
  obtain ⟨opening, row, htokens, hopening, hstands⟩ := hstands.exists_append
  obtain ⟨keyword, row, rfl, hkeyword, hstands⟩ := hstands.exists_cons
  obtain ⟨header, row, rfl, hheader, hstands⟩ := hstands.exists_append
  obtain ⟨paren, row, rfl, hparen, hstands⟩ := hstands.exists_cons
  obtain ⟨gap, row, rfl, hgap, hstands⟩ := hstands.exists_append
  obtain ⟨between, row, rfl, hbetween, hstands⟩ := hstands.exists_append
  obtain ⟨last, rest, rfl, hlast, -⟩ := hstands.exists_cons
  have hnode : Node.leaf guard word = keyword.node := hkeyword.eq_node fun herror => by
    obtain rfl : guard = .error := herror
    cases hguard
  have hparenNode : b.closed = paren.node := hparen.eq_node fun herror => by
    rw [hcut.closed] at herror
    cases herror
  have hheaderText : header.flatMap (·.text) = Node.textAll nodes := by
    rw [hheader.text_eq, Node.flatMap_leavesAll]
  have hbodyText : (between ++ [last]).flatMap (·.text) = b.body.text := by
    rw [List.flatMap_append, hbetween.text_eq, List.flatMap_singleton, hlast.text_eq,
      ← List.flatMap_singleton Node.ownText, ← List.flatMap_append, ← hbody, Node.flatMap_leaves]
  refine ⟨{
    cut := b
    keyword
    header
    closed := paren
    between := gap ++ between
    last
    rest
    isCut := hcut
    guard := ?guard
    closer := ?closer
    begins := ⟨nodes, by rw [hfront, hnode]⟩
    front_text := ?front
    body_text := ?body
    nonempty := ?nonempty }, opening, rfl, hparenNode.symm, ?last, ?tokens, ?offset⟩
  case guard => rwa [← keyword.kind_node, ← hnode]
  case closer => rw [← paren.kind_node, ← hparenNode, hcut.closed]
  case front => rw [hfront, hnode, Node.textAll, Token.text_node, List.flatMap_cons, hheaderText]
  case body =>
    rw [List.append_assoc, List.flatMap_append, hbodyText, hgap.text_eq, Node.flatMap_leavesAll,
      Node.textAll_append]
    simp [Node.textAll]
  case nonempty =>
    intro token htoken
    refine hnonempty token ?_
    rw [htokens]
    refine List.mem_append_right _ ?_
    simpa using htoken
  case last => rwa [hlast.isTrivia, Token.kind_node] at hsolid
  case tokens => simpa [Site.tail, Site.inside] using htokens
  case offset => rw [← hoffset, ← Node.size_textAll, Node.textAll_map_node, hopening.text_eq]

/-- One row of tokens is another one with a brace behind a parenthesis at an offset, and a brace on
a new line behind a token at another offset. -/
structure IsBraced (start stop : Nat) (tokens tokens' : List Token)
    (front inside back : List Token) : Prop where
  tokens_eq : tokens = front ++ (inside ++ back)
  tokens_eq' : tokens' = front ++ opensBlock :: (inside ++ breaksLine :: closesBlock :: back)
  start_eq : Text.size (front.flatMap (·.text)) = start
  stop_eq : Text.size ((front ++ inside).flatMap (·.text)) = stop
  paren : ∃ paren ∈ front.getLast?, paren.kind = .rightParen
  last : ∃ last ∈ inside.getLast?, last.isTrivia = false

/-- **Braces around the body of a statement change that statement of the tree and nothing else.** -/
theorem ofText_braces {front inside back : Text}
    (hc : Cursor.Below (.root (Node.ofText kind text)) c)
    (hcut : b.IsCut) (hat : b.IsAt c closed body) (htext : text = front ++ inside ++ back)
    (hspan : (⟨closed.stop, body.stop⟩ : Span) = .behind front inside) {text' : Text}
    (htext' : text' = front ++ ('\x7b' :: inside ++ ['\n', '\x7d']) ++ back) :
    (∃ before middle after, IsBraced closed.stop body.stop (Token.ofText text) (Token.ofText text')
      before middle after) ∧ Node.ofText kind text' = c.graft b.braced := by
  obtain ⟨P, opening, rfl, hparen, hlast, htokens, hplace⟩ := exists_site hc hcut hat.whole_eq
  -- the tokens up to the parenthesis, those of the gap and the body, and those behind
  have hopening := Node.size_textAll (opening.map Token.node)
  have hheader := Node.size_textAll P.cut.front
  have hbody := Node.size_textAll (P.cut.gap ++ [P.cut.body])
  rw [Node.textAll_map_node, hplace] at hopening
  rw [P.front_text] at hheader
  rw [P.body_text, Node.sizeAll_append, Node.sizeAll, Node.sizeAll, Nat.add_zero] at hbody
  have hclosed : P.closed.text.size = closed.node.size := by
    rw [hat.closed_eq, ← hparen, ← Node.size_text, Token.text_node]
  have hrow : Token.ofText text = (opening ++ P.keyword :: (P.header ++ [P.closed]))
      ++ ((P.between ++ [P.last]) ++ P.rest) := by
    rw [htokens, Site.tail, Site.inside]
    simp
  have hstart : Text.size ((opening ++ P.keyword :: (P.header ++ [P.closed])).flatMap (·.text)) =
      closed.stop := by
    rw [← List.cons_append, List.flatMap_append, List.flatMap_append, Text.size_append,
      Text.size_append, hopening, hheader, List.flatMap_singleton, hclosed, Cursor.stop,
      hat.closed_offset, Nat.add_assoc]
  have hstop : body.stop = closed.stop + Text.size ((P.between ++ [P.last]).flatMap (·.text)) := by
    rw [hbody, Cursor.stop, hat.body_offset, hat.body_eq, Nat.add_assoc]
  -- so the text is cut where the tokens are
  have hspelled := (Token.ofText_spells text).flatMap_text
  rw [hrow, htext, List.append_assoc front, List.flatMap_append] at hspelled
  have hfrontSize : closed.stop = front.size := congrArg Span.start hspan
  have hinsideSize : body.stop = front.size + inside.size := congrArg Span.stop hspan
  obtain ⟨hfront, hrest⟩ := Text.append_inj_of_size hspelled (hstart.trans hfrontSize)
  rw [List.flatMap_append] at hrest
  obtain ⟨hinside, hback⟩ := Text.append_inj_of_size hrest (by omega)
  have hlexed := Token.lexed_ofText text
  rw [htokens, Site.tail, Site.inside, ← List.cons_append, ← List.append_assoc] at hlexed
  have hbraced := hlexed.braces P.closer hlast
  have hnew : Token.ofText text' = opening ++ P.keyword :: P.tail' := by
    have hspells : (opening ++ P.keyword :: P.tail').flatMap (·.text) = text' := by
      rw [htext', ← hfront, ← hinside, ← hback]
      simp [Site.tail', Site.inside', opensBlock, closesBlock, breaksLine]
    rw [Token.Lexed] at hbraced
    rw [← hspells]
    simpa [Site.tail', Site.inside'] using hbraced
  refine ⟨⟨_, _, _, ⟨hrow, ?_, hstart, ?_, ?_, ?_⟩⟩, ?_⟩
  · rw [hnew, Site.tail', Site.inside']
    simp
  · rw [List.flatMap_append, Text.size_append, hstart, hstop]
  · refine ⟨P.closed, ?_, P.closer⟩
    rw [← List.cons_append, ← List.append_assoc, List.getLast?_concat]
    rfl
  · exact ⟨P.last, by rw [List.getLast?_concat]; rfl, hlast⟩
  · have hswapped := hc.swapped_graft P.cut.braced
    rw [hat.whole_eq, ← hplace] at hswapped
    exact Site.ofText_eq htokens hnew hswapped

end Grammar

end StatementCompletion
