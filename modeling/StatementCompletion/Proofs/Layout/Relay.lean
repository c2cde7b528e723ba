import StatementCompletion.Proofs.Grammar.Agreement.Sources
import StatementCompletion.Proofs.Layout.Pieces

/-!
# A text with other white space in its gaps

What is put into the gaps of a tree and may be in the place of what was there gives a text with the
same tokens, and a tree with the same core.  Its pieces have the same leaves behind the new white
space.
-/

namespace StatementCompletion.Layout

open Token (row IsPiece Refilled)

/-! ## Pieces of the tokens and of the leaves -/

/-- A leaf stands for a token, behind the same white space. -/
def Standing (piece : Text × Token) (piece' : Text × Cursor) : Prop :=
  piece'.1 = piece.1 ∧ Node.Stands piece.2.node piece'.2.node

/-- What stands for white space is white space. -/
theorem eq_of_stands_of_isTrivia {old new : Node} (h : Node.Stands old new)
    (hold : old.kind.isTrivia = true) : new = old := by
  rcases h.softens.2 with hsame | herror
  · exact hsame
  · have htrivia := h.isTrivia
    rw [herror, hold] at htrivia
    cases htrivia

theorem kind_ne_whitespace_of_stands {token : Token} {new : Node}
    (h : Node.Stands token.node new) (hkind : token.kind ≠ .whitespace) :
    new.kind ≠ .whitespace := by
  rcases h.softens.2 with hsame | herror
  · rwa [hsame, Token.kind_node]
  · rw [herror]
    exact fun hnot => by cases hnot

/-- The leaves that stand for a row of tokens have its pieces. -/
theorem standing_pieces {last : Text} {tokens : List (Text × Token)} {leaves : List Cursor}
    (h : List.Forall₂ (fun token leaf => Node.Stands token.node leaf.node) (row last tokens) leaves)
    (htokens : ∀ piece ∈ tokens, IsPiece piece) :
    List.Forall₂ Standing tokens (pieces [] leaves) ∧ lastBlank [] leaves = last := by
  have hblank {gap : Text} {leaf : Cursor}
      (hleaf : Node.Stands (Token.node { kind := .whitespace, text := gap }) leaf.node) :
      leaf.kind = .whitespace ∧ leaf.node.ownText = gap := by
    have hsame := eq_of_stands_of_isTrivia hleaf rfl
    rw [Cursor.kind, hsame]
    exact ⟨rfl, rfl⟩
  induction tokens generalizing leaves with
  | nil =>
    by_cases hlast : last = []
    · rw [row, hlast, Token.blank_nil] at h
      cases h
      exact ⟨.nil, hlast.symm⟩
    · rw [row, Token.blank_of_ne_nil hlast] at h
      cases h with
      | cons hleaf hrest =>
        cases hrest
        obtain ⟨hkind, htext⟩ := hblank hleaf
        rw [pieces, lastBlank, if_pos hkind, if_pos hkind]
        exact ⟨.nil, htext⟩
  | cons piece rest ih =>
    obtain ⟨gap, token⟩ := piece
    obtain ⟨⟨-, hkind⟩, hrest⟩ := List.forall_mem_cons.1 htokens
    -- the leaf of the token, whatever white space there is in front of it
    have htoken {leaf : Cursor} {behind : List Cursor} (hleaf : Node.Stands token.node leaf.node)
        (hbehind : List.Forall₂ (fun token leaf => Node.Stands token.node leaf.node)
          (row last rest) behind) :
        List.Forall₂ Standing ((gap, token) :: rest) (pieces gap (leaf :: behind))
          ∧ lastBlank gap (leaf :: behind) = last := by
      obtain ⟨hpieces, hlast⟩ := ih hbehind hrest
      have hne : leaf.kind ≠ .whitespace := kind_ne_whitespace_of_stands hleaf hkind
      rw [pieces, lastBlank, if_neg hne, if_neg hne]
      exact ⟨.cons ⟨rfl, hleaf⟩ hpieces, hlast⟩
    by_cases hgap : gap = []
    · subst hgap
      rw [row, Token.blank_nil, List.nil_append] at h
      cases h with
      | cons hleaf hbehind => exact htoken hleaf hbehind
    · rw [row, Token.blank_of_ne_nil hgap] at h
      cases h with
      | cons hspace h =>
        cases h with
        | cons hleaf hbehind =>
          obtain ⟨hspacekind, htext⟩ := hblank hspace
          rw [pieces, lastBlank, if_pos hspacekind, if_pos hspacekind, htext, List.nil_append]
          exact htoken hleaf hbehind

theorem map_fst_of_standing {tokens : List (Text × Token)} {leaves : List (Text × Cursor)}
    (h : List.Forall₂ Standing tokens leaves) : leaves.map (·.1) = tokens.map (·.1) := by
  induction h with
  | nil => rfl
  | cons hpiece _ ih => rw [List.map_cons, List.map_cons, hpiece.1, ih]

/-- Leaves that stand for the same nodes are the same, if those that are tokens are. -/
theorem eq_of_standsAll {nodes leaves leaves' : List Node} (h : Node.StandsAll nodes leaves)
    (h' : Node.StandsAll nodes leaves')
    (htokens : leaves'.filter (!·.kind.isTrivia) = leaves.filter (!·.kind.isTrivia)) :
    leaves' = leaves := by
  induction h generalizing leaves' with
  | nil =>
    cases h'
    rfl
  | @cons node leaf rest others hleaf _ ih =>
    cases h' with
    | @cons _ leaf' _ others' hleaf' hrest' =>
      cases htrivia : node.kind.isTrivia with
      | true =>
        have hsame := eq_of_stands_of_isTrivia hleaf htrivia
        have hsame' := eq_of_stands_of_isTrivia hleaf' htrivia
        rw [hsame, hsame', List.filter_cons_of_neg (by simp [htrivia]),
          List.filter_cons_of_neg (by simp [htrivia])] at htokens
        rw [hsame, hsame', ih hrest' htokens]
      | false =>
        have hkeep := hleaf.isTrivia.trans htrivia
        have hkeep' := hleaf'.isTrivia.trans htrivia
        rw [List.filter_cons_of_pos (by simp [hkeep']),
          List.filter_cons_of_pos (by simp [hkeep])] at htokens
        obtain ⟨rfl, hothers⟩ := List.cons.inj htokens
        rw [ih hrest' hothers]

/-! ## New white space -/

/-- What is put into a gap may be in the place of the white space there. -/
def Refilling (f : Gap → Text) : Prop :=
  ∀ g : Gap, (∀ c ∈ g.text, Token.isSpace c = true) → Token.Refills g.after.kind g.text (f g)

/-- A token in place of the one that a leaf stands for, behind new white space. -/
theorem Refilling.exists_relay {f : Gap → Text} (hf : Refilling f) {tokens : List (Text × Token)}
    {leaves : List (Text × Cursor)} (h : List.Forall₂ Standing tokens leaves)
    (htokens : ∀ piece ∈ tokens, IsPiece piece) (before : Cursor) :
    ∃ tokens', List.Forall₂ Refilled tokens tokens'
      ∧ tokens'.map (·.1) = (relay f before leaves).map (·.new)
      ∧ tokens'.flatMap (fun piece => piece.1 ++ piece.2.text)
        = TextEdit.Cell.respell (relay f before leaves) := by
  induction h generalizing before with
  | nil => exact ⟨[], .nil, rfl, rfl⟩
  | @cons piece piece' rest rest' hpiece _ ih =>
    obtain ⟨gap, token⟩ := piece
    obtain ⟨gap', leaf⟩ := piece'
    obtain ⟨rfl, hstands⟩ := hpiece
    obtain ⟨⟨hspaces, hkind⟩, hrest⟩ := List.forall_mem_cons.1 htokens
    obtain ⟨tokens', hrefilled, hgaps, htext⟩ := ih hrest leaf
    have hrefills : Token.Refills token.kind gap' (f ⟨before, gap', leaf⟩) := by
      refine (hf ⟨before, gap', leaf⟩ hspaces).mono fun hbrace => ?_
      -- only what is a brace itself stands as one
      rcases hstands.softens.2 with hsame | herror
      · have hnode : leaf.node.kind = .rightBrace := hbrace
        rwa [hsame, Token.kind_node] at hnode
      · have hnode : leaf.node.kind = .rightBrace := hbrace
        rw [herror] at hnode
        cases hnode
    refine ⟨(f ⟨before, gap', leaf⟩, token) :: tokens', .cons ⟨rfl, hrefills⟩ hrefilled, ?_, ?_⟩
    · rw [List.map_cons, hgaps, relay, List.map_cons]
    · have hown : leaf.node.ownText = token.text := by rw [hstands.softens.1, Token.ownText_node]
      rw [List.flatMap_cons, htext, relay, TextEdit.Cell.respell, hown]

theorem Refilling.exists_relaid {f : Gap → Text} (hf : Refilling f) {tokens : List (Text × Token)}
    {leaves : List (Text × Cursor)} (h : List.Forall₂ Standing tokens leaves)
    (htokens : ∀ piece ∈ tokens, IsPiece piece) :
    ∃ tokens', List.Forall₂ Refilled tokens tokens'
      ∧ tokens'.map (·.1) = (relaid f leaves).map (·.new)
      ∧ tokens'.flatMap (fun piece => piece.1 ++ piece.2.text)
        = TextEdit.Cell.respell (relaid f leaves) := by
  cases h with
  | nil => exact ⟨[], .nil, rfl, rfl⟩
  | @cons piece piece' rest rest' hpiece hbehind =>
    obtain ⟨gap, token⟩ := piece
    obtain ⟨gap', leaf⟩ := piece'
    obtain ⟨rfl, hstands⟩ := hpiece
    obtain ⟨⟨hspaces, -⟩, hrest⟩ := List.forall_mem_cons.1 htokens
    obtain ⟨tokens', hrefilled, hgaps, htext⟩ := hf.exists_relay hbehind hrest leaf
    refine ⟨(gap', token) :: tokens', .cons ⟨rfl, .refl hspaces⟩ hrefilled, ?_, ?_⟩
    · rw [List.map_cons, hgaps, relaid, List.map_cons]
    · have hown : leaf.node.ownText = token.text := by rw [hstands.softens.1, Token.ownText_node]
      rw [List.flatMap_cons, htext, relaid, TextEdit.Cell.respell, hown]

/-! ## The text and its tree -/

/-- The pieces of the tree of a text. -/
def piecesOf (kind : SourceKind) (text : Text) : List (Text × Cursor) :=
  pieces [] (Cursor.root (Node.ofText kind text)).leaves

/-- No piece is without text. -/
theorem ink_ne_nil_of_mem_relaid (f : Gap → Text) (kind : SourceKind) (text : Text) :
    ∀ cell ∈ relaid f (piecesOf kind text), cell.ink ≠ [] := by
  intro cell hcell
  have hmem := List.mem_map_of_mem (f := (·.ink)) hcell
  rw [map_ink_relaid] at hmem
  obtain ⟨piece, hpiece, hink⟩ := List.mem_map.1 hmem
  have hlined : Lined 0 (piecesOf kind text) :=
    @lined_pieces _ _ _ (Cursor.row_leaves (.root (Node.ofText kind text))) 0 [] rfl
  rw [← hink]
  exact hlined.ownText_ne_nil piece hpiece

/-- A text with new white space in its gaps, and what it has in common with the old one. -/
structure Relays (f : Gap → Text) (kind : SourceKind) (text text' : Text) : Prop where
  text_eq : ∃ last, text = spell (piecesOf kind text) ++ last
    ∧ text' = TextEdit.Cell.respell (relaid f (piecesOf kind text)) ++ last
  respaced : Token.Respaced (Token.ofText text) (Token.ofText text')
  gaps : (piecesOf kind text').map (·.1) = (relaid f (piecesOf kind text)).map (·.new)
  spaces : ∀ cell ∈ relaid f (piecesOf kind text), ∀ c ∈ cell.old ++ cell.new,
    Token.isSpace c = true
  nodes : (piecesOf kind text').map (·.2.node) = (piecesOf kind text).map (·.2.node)

/-- The tree of a text has the pieces of its tokens. -/
theorem standing_piecesOf (kind : SourceKind) {text last : Text} {tokens : List (Text × Token)}
    (h : Token.ofText text = row last tokens) (htokens : ∀ piece ∈ tokens, IsPiece piece) :
    List.Forall₂ Standing tokens (piecesOf kind text)
      ∧ lastBlank [] (Cursor.root (Node.ofText kind text)).leaves = last := by
  refine standing_pieces ?_ htokens
  have hstands := Node.ofText_stands kind text
  have hleaves := Cursor.map_node_leaves (.root (Node.ofText kind text))
  rw [Cursor.root] at hleaves
  rw [Node.StandsAll, ← hleaves, List.forall₂_map_left_iff,
    List.forall₂_map_right_iff, h] at hstands
  exact hstands

/-- Cells that have their white space from pieces have nothing else there. -/
theorem isSpace_of_cells {tokens tokens' : List (Text × Token)} {cells : List TextEdit.Cell}
    (htokens : ∀ piece ∈ tokens, IsPiece piece) (htokens' : ∀ piece ∈ tokens', IsPiece piece)
    (hold : cells.map (·.old) = tokens.map (·.1)) (hnew : cells.map (·.new) = tokens'.map (·.1)) :
    ∀ cell ∈ cells, ∀ c ∈ cell.old ++ cell.new, Token.isSpace c = true := by
  intro cell hcell c hc
  rcases List.mem_append.1 hc with hc | hc
  · have hmem : cell.old ∈ tokens.map (·.1) := hold ▸ List.mem_map_of_mem hcell
    obtain ⟨piece, hpiece, hgap⟩ := List.mem_map.1 hmem
    exact (htokens piece hpiece).1 c (hgap ▸ hc)
  · have hmem : cell.new ∈ tokens'.map (·.1) := hnew ▸ List.mem_map_of_mem hcell
    obtain ⟨piece, hpiece, hgap⟩ := List.mem_map.1 hmem
    exact (htokens' piece hpiece).1 c (hgap ▸ hc)

theorem nodes_of_respaced (kind : SourceKind) {text text' : Text}
    {tokens tokens' : List (Text × Token)} (hcore : (Node.ofText kind text').core
      = (Node.ofText kind text).core) (h : List.Forall₂ Standing tokens (piecesOf kind text))
    (h' : List.Forall₂ Standing tokens' (piecesOf kind text'))
    (hsame : tokens'.map (·.2) = tokens.map (·.2)) :
    (piecesOf kind text').map (·.2.node) = (piecesOf kind text).map (·.2.node) := by
  have hstands {text : Text} {tokens : List (Text × Token)}
      (h : List.Forall₂ Standing tokens (piecesOf kind text)) :
      Node.StandsAll ((tokens.map (·.2)).map Token.node) ((piecesOf kind text).map (·.2.node)) := by
    rw [List.map_map, Node.StandsAll, List.forall₂_map_left_iff, List.forall₂_map_right_iff]
    exact h.imp fun _ _ hpiece => hpiece.2
  have htokens (text : Text) : ((piecesOf kind text).map (·.2.node)).filter (!·.kind.isTrivia)
      = (Node.ofText kind text).tokens := by
    rw [piecesOf, map_node_pieces, Cursor.map_node_leaves, List.filter_filter, Node.tokens]
    refine List.filter_congr fun leaf _ => ?_
    cases hkind : leaf.kind <;> simp [Kind.isTrivia]
  have hnew := hstands h'
  rw [hsame] at hnew
  refine eq_of_standsAll (hstands h) hnew ?_
  rw [htokens, htokens, ← Node.tokensAll_core, hcore, Node.tokensAll_core]

/-- **New white space gives a text with the same tokens and a tree with the same leaves.** -/
theorem Refilling.exists_relays {f : Gap → Text} (hf : Refilling f) (kind : SourceKind)
    (text : Text) :
    ∃ text', Relays f kind text text' := by
  have hlexed := Token.lexed_ofText text
  obtain ⟨tokens, last, hrow, htokens, hlast⟩ := hlexed.respaced.exists_row
  obtain ⟨hstanding, hlastBlank⟩ := standing_piecesOf kind hrow htokens
  obtain ⟨tokens', hrefilled, hgaps, htext⟩ := hf.exists_relaid hstanding htokens
  have hrespaced := Token.respaced_row hrefilled htokens hlast
  rw [← hrow] at hrespaced
  have hlexed' := hrespaced.lexed hlexed
  have htokens' := Token.isPiece_of_refilled hrefilled htokens
  obtain ⟨hstanding', -⟩ := standing_piecesOf kind hlexed' htokens'
  refine ⟨(row last tokens').flatMap (·.text), ⟨last, ?_, ?_⟩, ?_, ?_, ?_, ?_⟩
  · rw [piecesOf, ← hlastBlank, spell_pieces, List.nil_append, ← List.flatMap_map,
      Cursor.map_node_leaves, Node.flatMap_leaves]
    exact (Node.text_ofText kind text).symm
  · rw [Token.flatMap_row, htext]
  · rwa [hlexed']
  · rw [← hgaps, map_fst_of_standing hstanding']
  · refine isSpace_of_cells htokens htokens' ?_ hgaps.symm
    rw [map_old_relaid, map_fst_of_standing hstanding]
  · refine nodes_of_respaced kind (Node.core_ofText kind ?_) hstanding hstanding'
      (Token.map_snd_of_refilled hrefilled)
    rwa [hlexed']

end StatementCompletion.Layout
