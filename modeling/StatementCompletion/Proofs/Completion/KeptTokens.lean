import StatementCompletion.Proofs.Completion.Recorded
import StatementCompletion.Proofs.Repair.Closing
import StatementCompletion.Proofs.Token.Insertion
import StatementCompletion.Proofs.Tree.Tidy

/-!
# Repairs keep the tokens

What a remedy writes stands between two tokens of the text, and it is made of delimiters,
white space and the keyword of a `do` loop.  So all tokens stay as they are and in their
order, and new ones come between them.

There is one exception, which is why `IsClearOf` is asked for.  A part of the tree may end with a
literal that is not closed, and such a literal goes on into what is put behind it.  A line comment
does the same, but it is only the start of a condition that can have one in front of it.
-/

namespace StatementCompletion

/-! ## Tokens with others between them -/

namespace Token

/-- What repairs add to a program: white space, delimiters and the keyword of a `do` loop. -/
def isAdded (token : Token) : Bool :=
  token.kind = .whitespace || token.kind = .whileKeyword || delimiters.contains token

/-- Tokens in a row, with others that are added in two places. -/
def Extends (tokens tokens' : List Token) : Prop :=
  ∃ before inside after front back, tokens = before ++ inside ++ after
    ∧ tokens' = before ++ front ++ inside ++ back ++ after
    ∧ ∀ token ∈ front ++ back, token.isAdded = true

theorem Extends.refl (tokens : List Token) : Extends tokens tokens :=
  ⟨tokens, [], [], [], [], by simp, by simp, nofun⟩

end Token

open Token (Extends IsSeparate Lexed isAdded delimiters)
open Repair (IsAddition additions doWhileTail isTerminated)

namespace Repair.IsAddition

variable {new : Text}

theorem isSeparate_of_mem_additions (h : new ∈ additions) : IsSeparate new := by
  have hadditions : ∀ new ∈ additions, (∃ token ∈ delimiters, token.text = new)
      ∨ new = doWhileTail := by decide
  rcases hadditions new h with ⟨token, htoken, rfl⟩ | rfl
  · exact Token.isSeparate_of_mem_delimiters htoken
  · exact Token.isSeparate_of_getLast ⟨' ', rfl, rfl⟩
      ⟨{ kind := .rightParen, text := [')'] }, by decide, by decide⟩

/-- An addition is made of tokens of its own. -/
theorem isSeparate (h : IsAddition new) : IsSeparate new := by
  induction h with
  | single hnew => exact isSeparate_of_mem_additions hnew
  | append hnew _ ih => exact (isSeparate_of_mem_additions hnew).append ih

theorem isAdded (h : IsAddition new) : ∀ token ∈ Token.ofText new, token.isAdded = true := by
  have hadditions : ∀ new ∈ additions, ∀ token ∈ Token.ofText new, token.isAdded = true := by decide
  induction h with
  | single hnew => exact hadditions _ hnew
  | append hnew _ ih =>
    rw [(isSeparate_of_mem_additions hnew).ofText_append]
    exact List.forall_mem_append.2 ⟨hadditions _ hnew, ih⟩

end Repair.IsAddition

/-! ## Seams -/

/-- No token that ends where an edit begins or ends is an open literal or a line comment. -/
def TextEdit.IsClearOf (edit : TextEdit) (tokens : List Token) : Prop :=
  ∀ front token back, tokens = front ++ token :: back →
    Text.size ((front ++ [token]).flatMap (·.text)) = edit.span.start
      ∨ Text.size ((front ++ [token]).flatMap (·.text)) = edit.span.stop →
        isTerminated token = true ∧ token.kind ≠ .lineComment

/-- A row of tokens that begins a text, with the rest of them. -/
structure Token.IsSeam (text : Text) (offset : Nat) (front back : List Token) : Prop where
  tokens : Token.ofText text = front ++ back
  size : Text.size (front.flatMap (·.text)) = offset

namespace Token.IsSeam

variable {text : Text} {offset stop : Nat} {front back front' back' : List Token}

theorem text_eq (h : IsSeam text offset front back) :
    text = front.flatMap (·.text) ++ back.flatMap (·.text) := by
  rw [← List.flatMap_append, ← h.tokens, (ofText_spells text).flatMap_text]

/-- The tokens between two seams. -/
theorem exists_middle (h : IsSeam text offset front back) (h' : IsSeam text stop front' back')
    (hle : offset ≤ stop) : ∃ middle, front' = front ++ middle ∧ back = middle ++ back' := by
  have hsame := h.tokens.symm.trans h'.tokens
  rcases List.append_eq_append_iff.1 hsame with ⟨middle, hfront, hback⟩ | ⟨middle, hfront, hback⟩
  · exact ⟨middle, hfront, hback⟩
  · -- there is no token without a text
    have hnone : middle = [] := by
      have hsize := h.size
      rw [hfront, List.flatMap_append, Text.size_append, h'.size] at hsize
      have htext : middle.flatMap (·.text) = [] := Text.eq_nil_of_size_eq_zero (by omega)
      rcases middle with _ | ⟨token, rest⟩
      · rfl
      · refine absurd (List.append_eq_nil_iff.1 htext).1 ((ofText_spells text).nonempty token ?_)
        rw [h.tokens, hfront]
        simp
    subst hnone
    exact ⟨[], by simpa using hfront.symm, by simpa using hback.symm⟩

/-- The last token in front of a seam where an edit begins or ends. -/
theorem isClear {edit : TextEdit} (h : IsSeam text offset front back)
    (hclear : edit.IsClearOf (Token.ofText text))
    (hedit : offset = edit.span.start ∨ offset = edit.span.stop)
    {token : Token} (hlast : front.getLast? = some token) :
    isTerminated token = true ∧ token.kind ≠ .lineComment := by
  obtain ⟨before, rfl⟩ := List.getLast?_eq_some_iff.1 hlast
  refine hclear before token back (by rw [h.tokens, List.append_assoc]; rfl) ?_
  rwa [h.size]

end Token.IsSeam

namespace Cursor

variable {kind : SourceKind} {text : Text} {c part : Cursor}

/-- Behind a part there is a seam, with a token of the program in front of it. -/
theorem IsPart.exists_seam (h : IsPart (Node.ofText kind text) part) :
    ∃ front back, Token.IsSeam text part.stop front back
      ∧ ∀ token, front.getLast? = some token → token.isTrivia = false := by
  have hroot : part ≠ root (Node.ofText kind text) := by
    rintro rfl
    exact h.isInner rfl (kind_root_ofText kind text)
  obtain ⟨front, back, htokens, hsize, hlast⟩ := h.below.exists_seam hroot h.isTrivia
  exact ⟨front, back, ⟨htokens, hsize⟩, hlast⟩

/-- In front of a node there is a seam. -/
theorem Below.exists_seam_offset (h : Below (root (Node.ofText kind text)) c) :
    ∃ front back, Token.IsSeam text c.offset front back := by
  obtain ⟨before, after, hleaves, hoffset⟩ := h.leaves_eq
  have hstands := Node.ofText_stands kind text
  rw [hleaves, List.append_assoc] at hstands
  obtain ⟨front, back, htokens, hfront, -⟩ := hstands.exists_append
  exact ⟨front, back, htokens, by rw [hfront.text_eq, hoffset]⟩

end Cursor

/-! ## What is added at seams -/

section

open Token (IsSeam admits_of_isTrivia)

variable {text new opening closing : Text} {offset stop : Nat} {front middle back : List Token}

/-- What is put behind a token of the program comes between the tokens. -/
theorem Token.IsSeam.insert (h : IsSeam text offset front back)
    (hlast : ∀ token, front.getLast? = some token → token.isTrivia = false
      ∧ isTerminated token = true)
    (hnew : IsSeparate new) : Lexed (front ++ (Token.ofText new ++ back)) := by
  have hlexed := Token.lexed_ofText text
  rw [h.tokens] at hlexed
  refine hlexed.insert hnew fun token htoken c _ => ?_
  obtain ⟨hprogram, hclosed⟩ := hlast token htoken
  exact admits_of_isTrivia hprogram fun hopen => absurd (hclosed.symm.trans hopen) Bool.noConfusion

/-- What is put around tokens of the program comes between the tokens. -/
theorem Token.IsSeam.surround (h : IsSeam text offset front (middle ++ back))
    (hfirst : ∀ token, front.getLast? = some token → isTerminated token = true
      ∧ token.kind ≠ .lineComment)
    (hlast : ∀ token, (front ++ middle).getLast? = some token → token.isTrivia = false
      ∧ isTerminated token = true)
    (hopening : IsSeparate opening) (hclosing : IsSeparate closing)
    (hspace : ∀ c, opening.head? = some c → Token.isSpace c = false) :
    Lexed (front ++ (Token.ofText opening ++ (middle ++ (Token.ofText closing ++ back)))) := by
  have hbehind : IsSeam text (offset + Text.size (middle.flatMap (·.text)))
      (front ++ middle) back :=
    ⟨by rw [h.tokens, List.append_assoc], by rw [List.flatMap_append, Text.size_append, h.size]⟩
  have hclosed := hbehind.insert hlast hclosing
  rw [List.append_assoc] at hclosed
  refine hclosed.insert hopening fun token htoken c hc => ?_
  obtain ⟨hterminated, hline⟩ := hfirst token htoken
  refine ⟨fun _ => hspace c hc, fun hkind => absurd hkind hline, fun _ hnone => ?_,
    fun hopen => absurd (hterminated.symm.trans hopen) Bool.noConfusion⟩
  -- the closing text is behind it
  obtain ⟨d, hd, -⟩ := hclosing.edge
  have hnil := (Token.ofText_spells closing).flatMap_text
  rw [(List.append_eq_nil_iff.1 (List.append_eq_nil_iff.1 hnone).2).1] at hnil
  rw [← hnil] at hd
  cases hd

end

/-! ## What a remedy leaves as it is -/

namespace Action

open Token (IsSeam)

variable {kind : SourceKind} {text : Text} {edit : TextEdit}

/-- An edit between seams. -/
theorem extends_of_surround {before inside after : Text} (opening closing : Text)
    (htext : text = before ++ inside ++ after) {front back front' back' : List Token}
    (hfront : IsSeam text before.size front back)
    (hback : IsSeam text (before.size + inside.size) front' back')
    (hfirst : ∀ token, front.getLast? = some token → isTerminated token = true
      ∧ token.kind ≠ .lineComment)
    (hlast : ∀ token, front'.getLast? = some token → token.isTrivia = false
      ∧ isTerminated token = true)
    (hopening : IsSeparate opening) (hclosing : IsSeparate closing)
    (hspace : ∀ c, opening.head? = some c → Token.isSpace c = false)
    (hadded : ∀ token ∈ Token.ofText opening ++ Token.ofText closing, token.isAdded = true) :
    Extends (Token.ofText text)
      (Token.ofText (before ++ (opening ++ inside ++ closing) ++ after)) := by
  obtain ⟨middle, rfl, rfl⟩ := hfront.exists_middle hback (Nat.le_add_right _ _)
  have hlexed := hfront.surround hfirst hlast hopening hclosing hspace
  -- the texts of the tokens are the parts of the text
  have hcut := hfront.text_eq
  rw [htext, List.append_assoc] at hcut
  obtain ⟨rfl, hrest⟩ := Text.append_inj_of_size hcut hfront.size.symm
  have hsize := hback.size
  rw [List.flatMap_append, Text.size_append] at hsize
  rw [List.flatMap_append] at hrest
  obtain ⟨rfl, rfl⟩ := Text.append_inj_of_size hrest (by omega)
  refine ⟨front, middle, back', _, _, by rw [hfront.tokens, List.append_assoc], ?_, hadded⟩
  rw [Lexed] at hlexed
  simp only [List.flatMap_append, (Token.ofText_spells _).flatMap_text] at hlexed
  simpa only [List.append_assoc] using hlexed

/-- **What mends a text keeps its tokens.**  The edit takes the place of a part of the text, and all
tokens stay as they are and in their order, unless there is an open literal or a line comment right
in front of an end of that part. -/
theorem Mends.extends (h : Mends (Node.ofText kind text) text [edit])
    (hclear : edit.IsClearOf (Token.ofText text)) :
    ∃ before inside after, text = before ++ inside ++ after ∧ edit.span = .behind before inside
      ∧ Extends (Token.ofText text) (Token.ofText (before ++ edit.text ++ after)) := by
  cases h with
  | @behind part new hpart hnew =>
    obtain ⟨front, back, hseam, hlast⟩ := hpart.exists_seam
    have hlexed := hseam.insert (fun token htoken =>
      ⟨hlast token htoken, (hseam.isClear hclear (.inl rfl) htoken).1⟩) hnew.isSeparate
    rw [Lexed] at hlexed
    simp only [List.flatMap_append, (Token.ofText_spells _).flatMap_text] at hlexed
    refine ⟨front.flatMap (·.text), [], back.flatMap (·.text), by simpa using hseam.text_eq, ?_,
      front, [], back, [], Token.ofText new, by simpa using hseam.tokens,
      ?_, by simpa using hnew.isAdded⟩
    · rw [Span.behind, hseam.size]
      rfl
    · simpa only [TextEdit.insertion, List.append_assoc, List.append_nil,
        List.nil_append] using hlexed
  | @literal part quote hpart hquote hlacks =>
    -- the literal is an open one, right in front of the edit
    obtain ⟨front, token, back, htokens, hnode, hoffset⟩ := hpart.below.exists_literal hquote
    have hopen : Repair.isOpenLiteral token.node = true := by
      rw [← hnode, Repair.isOpenLiteral,
        show Repair.closingQuote? part.node.kind = some quote from hquote]
      exact hlacks
    have hstop : Text.size ((front ++ [token]).flatMap (·.text)) = part.stop := by
      rw [List.flatMap_append, Text.size_append, hoffset, List.flatMap_singleton,
        Cursor.stop, hnode, ← Node.size_text, Token.text_node]
    have hclosed := (hclear front token back htokens (.inl hstop)).1
    exact absurd (hclosed.symm.trans (Repair.isTerminated_eq_false hopen)) Bool.noConfusion
  | @parentheses part hpart =>
    obtain ⟨before, after, htext, hspan⟩ :=
      Cursor.Within.exists_parts ⟨_, Node.ofText_isTreeOf kind text, hpart.below⟩
    obtain ⟨hstart, hstop⟩ := Span.mk.inj hspan
    obtain ⟨front, back, hfront⟩ := hpart.below.exists_seam_offset
    obtain ⟨front', back', hback, hlast⟩ := hpart.exists_seam
    refine ⟨before, part.node.text, after, htext, hspan, ?_⟩
    exact extends_of_surround ['('] [')'] htext (hstart ▸ hfront) (hstop ▸ hback)
      (fun token htoken => hfront.isClear hclear (.inl rfl) htoken)
      (fun token htoken => ⟨hlast token htoken, (hback.isClear hclear (.inr rfl) htoken).1⟩)
      (IsAddition.isSeparate (.single (by decide))) (IsAddition.isSeparate (.single (by decide)))
      (fun c hc => Option.some.inj hc ▸ rfl) (by decide)
  | @braces closed body before gap after hclosed hbody htext hspan =>
    obtain ⟨hstart, hstop⟩ := Span.mk.inj hspan
    obtain ⟨front, back, hfront, -⟩ := hclosed.exists_seam
    obtain ⟨front', back', hback, hlast⟩ := hbody.exists_seam
    refine ⟨before, gap ++ body.node.text, after, htext, hspan, ?_⟩
    have hextends :=
      extends_of_surround ['\x7b'] ['\n', '\x7d'] htext (hstart ▸ hfront) (hstop ▸ hback)
        (fun token htoken => hfront.isClear hclear (.inl rfl) htoken)
        (fun token htoken => ⟨hlast token htoken, (hback.isClear hclear (.inr rfl) htoken).1⟩)
        (IsAddition.isSeparate (.single (by decide))) Token.isSeparate_closesBlock
        (fun c hc => Option.some.inj hc ▸ rfl) (by decide)
    simpa only [List.cons_append, List.nil_append] using hextends

/-- So it is where the edit is made. -/
theorem Mends.extends_of_replace {d d' : Document}
    (h : Mends (Node.ofText kind d.text) d.text [edit])
    (hclear : edit.IsClearOf (Token.ofText d.text))
    (hreplace : d.replace edit.span edit.text = .ok d') :
    Extends (Token.ofText d.text) (Token.ofText d'.text) := by
  obtain ⟨before, inside, after, htext, hspan, hextends⟩ := h.extends hclear
  obtain ⟨answer, hanswer, htext', -⟩ := Document.replace_append htext edit.text
  rw [← hspan, hreplace] at hanswer
  obtain rfl := Except.ok.inj hanswer
  rwa [htext']

end Action

/-! ## What mending leaves as it is -/

/-- In a text without open literals and line comments every edit is clear of them. -/
theorem TextEdit.isClearOf_of_forall {tokens : List Token} (edit : TextEdit)
    (h : ∀ token ∈ tokens, isTerminated token = true ∧ token.kind ≠ .lineComment) :
    edit.IsClearOf tokens := by
  rintro front token back rfl -
  exact h token (by simp)

/-- **A remedy adds tokens between those of a text without open literals and
line comments, or nothing.** -/
theorem Remedy.apply_extends (remedy : Remedy) (kind : SourceKind) (e : Editor)
    (holes : Holes) {c : Cursor} (h : Cursor.Below (Snapshot.ofDocument kind e.document).cursor c)
    (hclosed : ∀ token ∈ Token.ofText e.text, isTerminated token = true
      ∧ token.kind ≠ .lineComment) :
    ∃ e' holes', remedy.apply c e holes = .ok (e', holes')
      ∧ Extends (Token.ofText e.text) (Token.ofText e'.text) := by
  have htree := Node.ofText_isTreeOf kind e.document.text
  obtain ⟨actions, hactions, hmends⟩ := remedy.succeeds_actions_mends htree h
  obtain ⟨⟨e', holes'⟩, hrun, -⟩ := Action.applyAll_of_wraps e (hmends.surrounds htree) holes
  refine ⟨e', holes', by rw [Remedy.apply, hactions]; exact hrun, ?_⟩
  rcases hmends.surrounds htree with hnone | ⟨edit, hedits, -⟩
  · rw [Editor.text, Editor.text, Action.document_applyAll_of_edits_eq_nil hnone hrun]
    exact .refl _
  · rw [hedits] at hmends
    exact hmends.extends_of_replace (edit.isClearOf_of_forall hclosed)
      (Action.document_applyAll hedits hrun)

namespace Completion

variable {original : Text} {slots : List Nat} {popup : Popup} {w w' : Workspace}

/-- **Mending changes no token.**  Mending that edits the text makes one edit.  All tokens stay as
they are and in their order, unless that edit begins or ends right behind an open literal or a line
comment, and what comes between them are delimiters, white space and the keyword of a `do` loop. -/
theorem mend_extends (h : Current original slots w)
    (hmend : (mend popup).run.run w = (.ok .edited, w')) :
    ∃ edit : TextEdit, w.editor.document.replace edit.span edit.text = .ok w'.editor.document
      ∧ (edit.IsClearOf (Token.ofText w.editor.text) →
        Extends (Token.ofText w.editor.text) (Token.ofText w'.editor.text)) := by
  obtain ⟨target, edit, early, late, htarget, hfirst, hreplace, -⟩ :=
    exists_firstEdit_of_mend h hmend
  have hmends := hfirst.mends h.isTreeOf (below_of_mem_trials htarget)
  rw [h.tracks.root_eq (of_decide_eq_true h.isCurrent)] at hmends
  exact ⟨edit, hreplace, fun hclear => hmends.extends_of_replace hclear hreplace⟩

end Completion

end StatementCompletion
