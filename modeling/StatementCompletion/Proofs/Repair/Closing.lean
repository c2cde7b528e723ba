import StatementCompletion.Proofs.Grammar.Binding.Sources
import StatementCompletion.Proofs.Repair.Insertion
import StatementCompletion.Proofs.Repair.Literal
import StatementCompletion.Proofs.Token.Quotes
import StatementCompletion.Proofs.Tree.Preorder

/-!
# Literals that are closed

The remedy for an open literal puts a quote at its end.  The tokens are then those of before with
the quote in the literal.  Behind an odd number of backslashes the quote is an escaped character,
and the literal is still open; otherwise it is closed.
-/

namespace StatementCompletion

open Repair (closingQuote? isOpenLiteral isTerminated backslashes)

variable {c : Cursor}

/-- The token of an open literal lacks its quote. -/
theorem Repair.isTerminated_eq_false {token : Token} (h : isOpenLiteral token.node = true) :
    isTerminated token = false := by
  rw [isOpenLiteral, Token.kind_node, Token.ownText_node] at h
  rw [← Bool.not_eq_true]
  intro hclosed
  exact Bool.false_ne_true ((isOpenLiteral_eq_false hclosed).symm.trans h)

/-- A literal in the tree of a text has some text, and is no error. -/
theorem Cursor.Below.ownText_ne_nil_of_literal {kind : SourceKind} {text : Text} {quote : Char}
    (h : Below (root (Node.ofText kind text)) c) (hquote : closingQuote? c.kind = some quote) :
    c.node.ownText ≠ [] ∧ c.kind ≠ .error := by
  have hkind : c.kind.isConstruct = false ∧ c.kind ≠ .error := by
    cases hkind : c.kind <;> first | exact ⟨rfl, by decide⟩ | (rw [hkind] at hquote; cases hquote)
  have hleaf : c.node.isLeaf = true := by
    cases hbranch : c.node.isLeaf with
    | true => rfl
    | false =>
      have hconstruct := (h.every (Node.every_wellMade kind text)).holds.construct hbranch
      exact absurd (hkind.1.symm.trans hconstruct) Bool.false_ne_true
  exact ⟨h.ownText_ne_nil hleaf hkind.2, hkind.2⟩

/-- In the tree of a text a literal is a token. -/
theorem Cursor.Below.exists_literal {kind : SourceKind} {text : Text} {quote : Char}
    (h : Below (root (Node.ofText kind text)) c) (hquote : closingQuote? c.kind = some quote) :
    ∃ (front : List Token) (token : Token) (back : List Token),
      Token.ofText text = front ++ token :: back
      ∧ c.node = token.node ∧ Text.size (front.flatMap (·.text)) = c.offset :=
  have ⟨htext, hkind⟩ := h.ownText_ne_nil_of_literal hquote
  h.exists_token htext hkind

namespace Remedy

/-- What is done about an open literal. -/
theorem actions_literal_of_open {quote : Char} (h : closingQuote? c.kind = some quote)
    (hopen : isOpenLiteral c.node = true) (d : Document) :
    Remedy.literal.actions d c = .ok [.insert c.stop [quote]] := by
  have hlacks : Repair.lacksQuote c.node.ownText quote = true := by
    rwa [isOpenLiteral, show closingQuote? c.node.kind = some quote from h] at hopen
  show Except.ok (Repair.closeLiteral c) = _
  rw [Repair.closeLiteral, h]
  dsimp only
  rw [if_pos hlacks]

/-- Nothing is done about what is no open literal. -/
theorem apply_literal_of_not_open (h : isOpenLiteral c.node = false) (e : Editor) (holes : Holes) :
    Remedy.literal.apply c e holes = .ok (e, holes) := by
  rw [Remedy.apply, show Remedy.literal.actions e.document c = .ok (Repair.closeLiteral c) from rfl,
    Repair.closeLiteral_eq_nil h]
  rfl

/-- **A quote is put at the end of an open literal.**  It becomes the last character of the
literal, all other tokens are left alone, and the literal is closed unless an odd number of
backslashes is in front of it. -/
theorem apply_literal_of_token {front back : List Token} {token : Token} {quote : Char} (e : Editor)
    (holes : Holes)
    (htokens : Token.ofText e.text = front ++ token :: back) (hnode : c.node = token.node)
    (hoffset : Text.size (front.flatMap (·.text)) = c.offset)
    (hquote : closingQuote? c.kind = some quote)
    (hopen : isOpenLiteral c.node = true) : ∃ e', Remedy.literal.apply c e holes = .ok (e', holes)
      ∧ Token.ofText e'.text = front ++ token.concatQuote quote :: back
      ∧ (isTerminated (token.concatQuote quote) = true ↔
        backslashes token.text.reverse % 2 = 0) := by
  -- the quote stands between the literal and what is behind it
  have hspelled : e.text = (front.flatMap (·.text) ++ token.text) ++ [] ++ back.flatMap
      (·.text) := by
    rw [← (Token.ofText_spells e.text).flatMap_text, show Token.ofText e.text = _ from htokens]
    simp
  have hstop : c.stop = Text.size (front.flatMap (·.text) ++ token.text) := by
    rw [Cursor.stop, hnode, Text.size_append, hoffset, ← Node.size_text, Token.text_node]
  obtain ⟨d, hreplace, htext', -⟩ := Editor.replace_append hspelled [quote]
  obtain ⟨e', happly, hdocument⟩ : ∃ e', Remedy.literal.apply c e holes = .ok (e', holes)
      ∧ e'.document = d := by
    rw [Remedy.apply, actions_literal_of_open hquote hopen, hstop]
    show ∃ e', Action.applyAll e holes _ = _ ∧ _
    rw [Action.applyAll, Action.insert, Action.apply]
    show ∃ e', (e.replace (.behind _ []) [quote] >>= _) >>= _ = _ ∧ _
    rw [hreplace]
    exact ⟨_, rfl, rfl⟩
  have hlexed := Token.lexed_ofText e.text
  rw [show Token.ofText e.text = _ from htokens] at hlexed
  obtain ⟨hlexed', hclosed⟩ :=
    hlexed.concat_quote (by rwa [Cursor.kind, hnode, Token.kind_node] at hquote)
      (Repair.isTerminated_eq_false (hnode ▸ hopen))
  refine ⟨e', happly, ?_, hclosed⟩
  rw [Token.Lexed] at hlexed'
  rw [← hlexed', Editor.text, hdocument, htext']
  simp [Token.concatQuote]

/-- **So it is for every open literal in the tree of the text.** -/
theorem apply_literal (kind : SourceKind) (e : Editor) (holes : Holes)
    (h : Cursor.Below (Snapshot.ofDocument kind e.document).cursor c)
    (hopen : isOpenLiteral c.node = true) : ∃ e' quote front token back,
      Remedy.literal.apply c e holes = .ok (e', holes) ∧ closingQuote? c.kind = some quote
        ∧ c.node = Token.node token ∧ Text.size (front.flatMap (·.text)) = c.offset
        ∧ Token.ofText e.text = front ++ token :: back
        ∧ Token.ofText e'.text = front ++ token.concatQuote quote :: back
        ∧ (isTerminated (token.concatQuote quote) = true ↔
          backslashes token.text.reverse % 2 = 0) := by
  obtain ⟨quote, hquote, -⟩ := (Option.any_eq_true _ _).1 hopen
  obtain ⟨front, token, back, htokens, hnode, hoffset⟩ := h.exists_literal hquote
  obtain ⟨e', happly, htokens', hclosed⟩ :=
    apply_literal_of_token e holes htokens hnode hoffset hquote hopen
  exact ⟨e', quote, front, token, back, happly, hquote, hnode, hoffset, htokens, htokens', hclosed⟩

/-! ## Settling -/

/-- **The tree looks the same behind a mask when a literal is closed.** -/
theorem mask_apply_literal (kind : SourceKind) {e e' : Editor} {front back : List Token}
    {token : Token} {quote : Char}
    (htokens : Token.ofText e.text = front ++ token :: back)
    (hquote : closingQuote? token.kind = some quote)
    (hne : token.text ≠ [])
    (htokens' : Token.ofText e'.text = front ++ token.concatQuote quote :: back) :
    (Node.ofText kind e'.text).mask = (Node.ofText kind e.text).mask := by
  refine Node.mask_ofText kind ?_
  have hplain : quote ≠ '\n' := by
    rcases Token.closingQuote?_eq_some hquote with ⟨-, rfl⟩ | ⟨-, rfl⟩ <;> decide
  have hmask : (token.concatQuote quote).mask = token.mask := by
    rw [Token.mask, Token.concatQuote, Text.mask_concat hne hplain, Token.mask]
  rw [htokens, htokens', List.map_append, List.map_cons, hmask, List.map_append, List.map_cons]

/-- The literal is found again by its kind and number, with the quote as its last character. -/
theorem exists_nth?_apply_literal (kind : SourceKind) (e : Editor) (holes : Holes)
    {wanted : Kind} {n : Nat}
    (hc : (Snapshot.ofDocument kind e.document).cursor.nth? wanted n = some c)
    (hopen : isOpenLiteral c.node = true) :
    ∃ (e' : Editor) (quote : Char) (c' : Cursor) (front : List Token)
      (token : Token) (back : List Token), Remedy.literal.apply c e holes = .ok (e', holes)
        ∧ (Snapshot.ofDocument kind e'.document).cursor.nth? wanted n = some c'
        ∧ token.text = c.node.ownText ∧ c.node.ownText ≠ [] ∧ closingQuote? c'.kind = some quote
        ∧ c'.node = Token.node (token.concatQuote quote)
        ∧ Text.size (front.flatMap (·.text)) = c'.offset
        ∧ Token.ofText e'.text = front ++ token.concatQuote quote :: back := by
  obtain ⟨quote, hquote, -⟩ := (Option.any_eq_true _ _).1 hopen
  obtain ⟨above, below, hpreorder, rfl, rfl⟩ := Cursor.nth?_eq_some_iff.1 hc
  have hbelow : Cursor.Below (Snapshot.ofDocument kind e.document).cursor c :=
    Cursor.below_of_mem_preorder (hpreorder ▸ List.mem_append_right _ List.mem_cons_self)
  obtain ⟨hown, herror⟩ := hbelow.ownText_ne_nil_of_literal hquote
  obtain ⟨front, token, back, htokens, hstands, hcount, hoffset⟩ :=
    Cursor.exists_token_of_preorder hpreorder hown
  have hnode : c.node = token.node := hstands.eq_node herror
  have htext : token.text = c.node.ownText := hstands.text_eq
  obtain ⟨e', happly, htokens', -⟩ :=
    apply_literal_of_token e holes htokens hnode hoffset hquote hopen
  -- the tree looks the same, so the token in this place is the node with this number
  have hmask := mask_apply_literal kind htokens (by rwa [hnode, Token.kind_node] at hquote)
    (htext ▸ hown) htokens'
  obtain ⟨c', front', token', back', hnth, hkind, hsplit, hnode', hcount', hoffset'⟩ :=
    Cursor.exists_nth?_token_of_mask hmask hpreorder hown herror
  obtain ⟨rfl, hrest⟩ := List.append_inj (htokens'.symm.trans hsplit) (hcount.trans hcount'.symm)
  obtain ⟨rfl, rfl⟩ := List.cons.inj hrest
  refine ⟨e', quote, c', front, token, back, happly, hnth, htext, hown, ?_, hnode',
    hoffset', htokens'⟩
  rwa [Cursor.kind, hkind]

/-- **The remedy for an open literal settles unless an odd number of backslashes is at
its end.**  It finds a node of the same kind and number in the new tree, and leaves it
alone but in this one case. -/
theorem literal_settles (kind : SourceKind) {e e' : Editor} {holes holes' : Holes}
    {wanted : Kind} {n : Nat}
    (hc : (Snapshot.ofDocument kind e.document).cursor.nth? wanted n = some c)
    (happly : Remedy.literal.apply c e holes = .ok (e', holes')) : ∃ c' e'',
      (Snapshot.ofDocument kind e'.document).cursor.nth? wanted n = some c'
        ∧ Remedy.literal.apply c' e' holes' = .ok (e'', holes')
        ∧ (e''.text = e'.text ↔
          (isOpenLiteral c.node = true → backslashes c.node.ownText.reverse % 2 = 0)) := by
  cases hopen : isOpenLiteral c.node with
  | false =>
    cases (apply_literal_of_not_open hopen e holes).symm.trans happly
    exact ⟨c, e, hc, apply_literal_of_not_open hopen e holes, fun _ => nofun, fun _ => rfl⟩
  | true =>
    obtain ⟨_, quote, c', front, token, back, happly', hnth, htext, hown, hquote, hnode,
      hoffset, htokens⟩ :=
      exists_nth?_apply_literal kind e holes hc hopen
    cases happly'.symm.trans happly
    have hodd : isOpenLiteral c'.node = true ↔ backslashes c.node.ownText.reverse % 2 = 1 := by
      rw [isOpenLiteral, show closingQuote? c'.node.kind = some quote from hquote,
        Option.any_some, hnode, Token.ownText_node, ← htext]
      exact Repair.lacksQuote_concat (htext ▸ hown) quote
    cases hagain : isOpenLiteral c'.node with
    | false =>
      have heven : backslashes c.node.ownText.reverse % 2 = 0 := by
        have hnot := mt hodd.2 (hagain ▸ Bool.false_ne_true)
        omega
      exact ⟨c', _, hnth, apply_literal_of_not_open hagain _ _, fun _ _ => heven, fun _ => rfl⟩
    | true =>
      obtain ⟨e'', happly'', htokens'', -⟩ :=
        apply_literal_of_token e' holes htokens hnode hoffset hquote hagain
      refine ⟨c', e'', hnth, happly'', fun hsame => ?_, fun heven => ?_⟩
      · -- there is one quote more than before
        rw [hsame, htokens] at htokens''
        have hlength := congrArg (fun tokens => (tokens.flatMap (·.text)).length) htokens''
        simp [Token.concatQuote] at hlength
      · have hnone := heven rfl
        have hone := hodd.1 hagain
        omega

end Remedy

end StatementCompletion
