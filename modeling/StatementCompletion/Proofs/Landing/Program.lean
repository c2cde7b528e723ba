import StatementCompletion.Proofs.Landing.Rule
import StatementCompletion.Proofs.Token.Broken
import StatementCompletion.Proofs.Tree.Tidy

/-!
# Landing changes no program

A node of the tree of a text stops between two tokens, and a comment is a token of its own.
So a line that is opened behind a node, or at the end of a line, and a comment that is
broken between the signs around it leave the tokens of the program as they are.  The caret
goes into what the comment has become.
-/

namespace StatementCompletion

/-! ## Nodes and tokens -/

namespace Cursor

variable {kind : SourceKind} {text : Text} {c : Cursor}

/-- A node of the tree of a text stops between two tokens. -/
theorem Below.exists_tokens_stop (h : Below (root (Node.ofText kind text)) c) :
    ∃ front back, Token.ofText text = front ++ back
      ∧ Text.size (front.flatMap (·.text)) = c.stop := by
  obtain ⟨front, back, hleaves, hoffset⟩ := h.leaves_eq
  have hsoftens := Node.ofText_softens kind text
  rw [hleaves] at hsoftens
  have htexts := hsoftens.flatMap_take_drop.1
  rw [← List.map_take, List.flatMap_map] at htexts
  simp only [Token.ownText_node] at htexts
  refine ⟨_, _, (List.take_append_drop (front ++ c.node.leaves).length _).symm, ?_⟩
  rw [← htexts, List.flatMap_append, Text.size_append, hoffset, Node.flatMap_leaves, Node.size_text,
    stop]

end Cursor

/-! ## Opening a line -/

namespace Editor.IsBrokenAt

variable {text new : Text}

/-- **Behind a node of the tree a line is opened between two tokens.** -/
theorem program_eq {kind : SourceKind} {c : Cursor}
    (hc : Cursor.Below (.root (Node.ofText kind text)) c) (h : IsBrokenAt c.stop text new) :
    Token.program new = Token.program text := by
  obtain ⟨before, blank, after, gap, htext, hbefore, hblank, hhead, hgap, rfl⟩ := h
  obtain ⟨front, back, htokens, hfront⟩ := hc.exists_tokens_stop
  have hlexed := Token.lexed_ofText text
  have hflat := (Token.ofText_spells text).flatMap_text
  rw [htokens] at hlexed hflat
  have hparts : before ++ (blank ++ after) = front.flatMap (·.text) ++ back.flatMap (·.text) := by
    rw [← List.flatMap_append, hflat, htext, List.append_assoc]
  obtain ⟨rfl, hback⟩ := Text.append_inj_of_size hparts (hbefore.trans hfront.symm)
  have hspaces : ∀ c ∈ blank, Token.isSpace c = true := fun c hc =>
    Text.isSpace_of_isBlank (hblank c hc)
  rw [List.append_assoc, ← hflat]
  by_cases hend : back = []
  · -- at the end of the text there is nothing that gives way
    rw [hend, List.flatMap_nil, List.append_eq_nil_iff] at hback
    rw [hback.2, hend, List.append_nil front, ← List.append_nil (front.flatMap (·.text))]
    have hlineEnd :=
      @Token.program_break_lineEnd (front.flatMap (·.text)) [] gap (by simp) hgap _ hhead rfl
    simpa only [List.append_nil] using hlineEnd
  · exact Token.program_break_between hlexed hback.symm hspaces hgap hhead rfl fun _ _ _ => hend

/-- **A line is opened where another one ends.** -/
theorem program_eq_of_lineEnd
    (hreturns : ∀ c ∈ text, Text.isBreak c = true → Token.isReturn c = true) {line : Nat}
    (hline : line < text.lines.length) (h : IsBrokenAt (text.lineEnd line) text new) :
    Token.program new = Token.program text := by
  obtain ⟨before, blank, after, gap, htext, hbefore, hblank, hhead, hgap, rfl⟩ := h
  have hbehind : ∀ c, (blank ++ after).head? = some c → Token.isReturn c = true := by
    intro c hc
    have hreturn := Text.isReturn_behind_lineEnd (fun c hc hbreak => by
      simpa [Token.isReturn] using hreturns c hc hbreak) hline
      (by rw [htext, List.append_assoc]) hbefore c hc
    simpa [Token.isReturn] using hreturn
  -- a blank is no return, so there are none
  have hnone : blank = [] := by
    cases blank with
    | nil => rfl
    | cons c rest =>
      have hreturn := hbehind c rfl
      have hc := hblank c List.mem_cons_self
      simp only [Text.isBlank, Bool.or_eq_true, decide_eq_true_eq] at hc
      rcases hc with rfl | rfl <;> cases hreturn
  subst hnone
  rw [htext, List.append_nil, List.append_assoc]
  exact Token.program_break_lineEnd hbehind hgap hhead rfl

end Editor.IsBrokenAt

/-! ## Breaking a comment -/

namespace Landing

variable {c : Cursor} {layout : CommentInside}

theorem insideOfComment?_java_line (hkind : c.kind = .lineComment)
    (h : insideOfComment? .java c = some layout) :
    ∃ inside, c.node.ownText = '/' :: '/' :: inside
      ∧ layout = ⟨⟨c.offset + 2, c.stop⟩, ['/', '/', ' ']⟩ := by
  rw [insideOfComment?, hkind] at h
  obtain ⟨opener, hfilter, hrest⟩ := Option.bind_eq_some_iff.1 h
  obtain ⟨hline, hbegins⟩ := Option.filter_eq_some_iff.1 hfilter
  cases hline
  cases hrest
  obtain ⟨inside, hinside⟩ := List.isPrefixOf_iff_prefix.1 hbegins
  exact ⟨inside, hinside.symm, rfl⟩

/-- What closes a comment does not share its star with what opens it. -/
theorem closes_iff {inside : Text} :
    (4 ≤ Text.size ('/' :: '*' :: inside) ∧ Token.closer <:+ '/' :: '*' :: inside)
      ↔ Token.closer <:+ inside := by
  constructor
  · rintro ⟨hsize, hsuffix⟩
    rcases List.suffix_cons_iff.1 hsuffix with hwhole | hsuffix
    · cases hwhole
    rcases List.suffix_cons_iff.1 hsuffix with hwhole | hsuffix
    · cases hwhole
      exact absurd hsize (by decide)
    · exact hsuffix
  · intro hsuffix
    refine ⟨?_, hsuffix.trans (List.suffix_append ['/', '*'] inside)⟩
    obtain ⟨front, rfl⟩ := hsuffix
    show 4 ≤ Text.size (['/', '*'] ++ (front ++ Token.closer))
    rw [Text.size_append, Text.size_append, show Text.size ['/', '*'] = 2 from rfl,
      show Text.size Token.closer = 2 from rfl]
    omega

/-- What closes a comment is not parted by a cut that leaves two bytes behind. -/
theorem closer_suffix {front back : Text} (h : Token.closer <:+ front ++ back)
    (hsize : 2 ≤ back.size) : Token.closer <:+ back := by
  rcases List.suffix_or_suffix_of_suffix h (List.suffix_append front back) with h | ⟨rest, hrest⟩
  · exact h
  · have hrestSize := congrArg Text.size hrest
    rw [Text.size_append, show Text.size Token.closer = 2 from rfl] at hrestSize
    obtain rfl := Text.eq_nil_of_size_eq_zero (show Text.size rest = 0 by omega)
    exact ⟨[], hrest.symm⟩

/-- Only what closes the comment is kept from the break. -/
theorem insideOfComment?_java_block (hkind : c.kind = .blockComment)
    (h : insideOfComment? .java c = some layout) :
    ∃ inside, c.node.ownText = '/' :: '*' :: inside ∧ layout.span.start = c.offset + 2
      ∧ layout.continuation = [' ', '*', ' ']
      ∧ ((Token.closer <:+ inside ∧ layout.span.stop = c.stop - 2)
        ∨ (¬ Token.closer <:+ inside ∧ layout.span.stop = c.stop)) := by
  rw [insideOfComment?, hkind] at h
  obtain ⟨opener, hfilter, hrest⟩ := Option.bind_eq_some_iff.1 h
  obtain ⟨hblock, hbegins⟩ := Option.filter_eq_some_iff.1 hfilter
  cases hblock
  cases hrest
  obtain ⟨inside, hinside⟩ := List.isPrefixOf_iff_prefix.1 hbegins
  refine ⟨inside, hinside.symm, rfl, rfl, ?_⟩
  dsimp only
  split
  · next hclosed =>
    obtain ⟨hsize, hsuffix⟩ := Bool.and_eq_true_iff.1 hclosed
    rw [← hinside] at hsize hsuffix
    exact .inl ⟨closes_iff.1 ⟨of_decide_eq_true hsize, List.isSuffixOf_iff_suffix.1 hsuffix⟩, rfl⟩
  · next hopen =>
    refine .inr ⟨fun hsuffix => hopen ?_, rfl⟩
    obtain ⟨hsize, hsuffix⟩ := closes_iff.2 hsuffix
    rw [← hinside]
    exact Bool.and_eq_true_iff.2 ⟨decide_eq_true hsize, List.isSuffixOf_iff_suffix.2 hsuffix⟩

theorem below_of_commentAt? {tree : Snapshot} {caret : Nat} (h : commentAt? tree caret = some c) :
    c.kind.isComment = true ∧ Cursor.Below tree.cursor c := by
  obtain ⟨position, -, hleaf⟩ := List.mem_filterMap.1 (List.mem_of_find?_eq_some h)
  exact ⟨List.find?_some (p := fun c : Cursor => c.kind.isComment) h, Cursor.below_of_leafAt? hleaf⟩

/-- A cut behind what opens a comment is inside the token of the comment. -/
theorem exists_token_around (opener : Text) {kind : SourceKind}
    {text inside before blank after : Text} (hc : Cursor.Below (.root (Node.ofText kind text)) c)
    (hcomment : c.kind.isComment = true)
    (hopener : opener ≠ []) (hown : c.node.ownText = opener ++ inside)
    (htext : text = before ++ blank ++ after) (hstart : c.offset + opener.size ≤ before.size)
    (hstop : (before ++ blank).size ≤ c.stop) :
    ∃ front token back first second, Token.ofText text = front ++ token :: back
      ∧ token.kind = c.kind ∧ token.text = opener ++ inside ∧ inside = first ++ blank ++ second
      ∧ before = front.flatMap (·.text) ++ (opener ++ first)
      ∧ after = second ++ back.flatMap (·.text)
      ∧ c.stop = Text.size (front.flatMap (·.text) ++ (opener ++ inside)) := by
  have hnonempty : c.node.ownText ≠ [] := by
    rw [hown]
    exact fun hnil => hopener (List.append_eq_nil_iff.1 hnil).1
  have herror : c.kind ≠ .error := fun herror => by
    rw [herror] at hcomment
    cases hcomment
  obtain ⟨front, token, back, htokens, hnode, hoffset⟩ := hc.exists_token hnonempty herror
  have hkind : token.kind = c.kind := by rw [Cursor.kind, hnode, Token.kind_node]
  have hsame : token.text = c.node.ownText := by rw [hnode, Token.ownText_node]
  have hflat := (Token.ofText_spells text).flatMap_text
  rw [htokens, List.flatMap_append, List.flatMap_cons, hsame, hown] at hflat
  have hend : c.stop = Text.size (front.flatMap (·.text) ++ (opener ++ inside)) := by
    rw [Cursor.stop_of_ownText_ne_nil hnonempty, hown, ← hoffset, ← Text.size_append]
  rw [hend, ← List.append_assoc] at hstop
  rw [← hoffset, ← Text.size_append] at hstart
  have hcut : front.flatMap (·.text) ++ opener ++ inside ++ back.flatMap (·.text)
      = before ++ blank ++ after := by
    rw [← htext, ← hflat]
    simp only [List.append_assoc]
  obtain ⟨first, second, hbefore, hinside, hafter⟩ := Text.exists_inside hcut hstart hstop
  exact ⟨front, token, back, first, second, htokens, hkind, hsame.trans hown, hinside,
    by rw [hbefore, List.append_assoc], hafter, hend⟩

section

variable {kind : SourceKind} {tree : Snapshot} {text before blank after new : Text} {caret : Nat}

/-- What a block comment goes on with does not close it, and what closes it is behind that. -/
theorem suffix_of_broken {indent behind : Text} (inside : Text)
    (h : Token.closer <:+ inside ++ ('\n' :: indent ++ [' ', '*', ' ']) ++ behind) :
    Token.closer <:+ behind := by
  rcases List.suffix_or_suffix_of_suffix h (List.suffix_append _ behind) with hbehind
    | ⟨rest, hrest⟩
  · exact hbehind
  · -- the sign would begin in front, where a blank is
    obtain ⟨more, hmore⟩ := h
    rw [← hrest, ← List.append_assoc, List.append_left_inj] at hmore
    rcases List.eq_nil_or_concat rest with rfl | ⟨front, c, rfl⟩
    · exact ⟨[], hrest.symm⟩
    · have hlast := congrArg List.getLast? hmore
      simp only [List.concat_eq_append, List.getLast?_append, List.getLast?_cons_cons,
        List.getLast?_singleton, Option.some_or] at hlast
      obtain rfl : c = ' ' := Option.some.inj hlast
      have hmem : ' ' ∈ Token.closer := by simp [← hrest]
      exact absurd hmem (by decide)

/-- **A comment is broken into comments**, and the caret is inside the last of them. -/
theorem BreaksAt.isSplit (htree : tree.root = Node.ofText kind text)
    (h : BreaksAt tree .java text caret before blank after new) :
    Token.IsSplit text (before ++ new ++ after) caret
      ∧ Token.IsInside (before ++ new ++ after) (before ++ new).size := by
  obtain ⟨⟨c, layout, indent, hc, hlayout, hstart, hstop, hindent, rfl⟩, htext, hblank,
    hfirst, hlast⟩ := h
  obtain ⟨hcomment, hbelow⟩ := below_of_commentAt? hc
  rw [Snapshot.cursor, htree] at hbelow
  have hnewline : ∀ d ∈ '\n' :: indent, Token.isSpace d = true :=
    List.forall_mem_cons.2 ⟨rfl, fun d hd => Text.isSpace_of_isBlank (hindent d hd)⟩
  have hlexed := Token.lexed_ofText text
  -- a line comment is two comments afterwards, and a block comment is still one
  cases hkind : c.kind with
  | lineComment =>
    obtain ⟨inside, hown, rfl⟩ := insideOfComment?_java_line hkind hlayout
    obtain ⟨front, token, back, first, second, htokens, hsame, htoken, rfl, rfl, rfl, -⟩ :=
      exists_token_around ['/', '/'] hbelow hcomment (by decide) hown htext hstart hstop
    rw [htokens] at hlexed
    have hbroken := hlexed.break_line (hsame.trans hkind) htoken hnewline rfl rfl
    have htext' : token.text = '/' :: '/' :: first ++ blank ++ second := htoken
    have hsplit := Token.isSplit_of_lexed [_, _] ('\n' :: indent ++ ['/', '/', ' ']) ['/', '/', ' ']
      htokens hbroken (hsame ▸ hcomment) (by simp [Kind.isTrivia]) htext'
      hblank (by simp) rfl (.inl ⟨rfl, _, rfl⟩) hfirst hlast
    simpa only [List.append_assoc, List.cons_append, List.nil_append] using hsplit
  | blockComment =>
    obtain ⟨inside, hown, hopens, hcontinues, hcloses⟩ := insideOfComment?_java_block hkind hlayout
    rw [hopens] at hstart
    have hstop' : (before ++ blank).size ≤ c.stop := by
      rcases hcloses with ⟨-, hcloses⟩ | ⟨-, hcloses⟩ <;> omega
    obtain ⟨front, token, back, first, second, htokens, hsame, htoken, rfl, rfl, rfl, hend⟩ :=
      exists_token_around ['/', '*'] hbelow hcomment (by decide) hown htext hstart hstop'
    rw [htokens] at hlexed
    -- what closes the comment is behind the break
    have hbehind : Token.closer <:+ first ++ blank ++ second → Token.closer <:+ second := by
      rcases hcloses with ⟨-, hcloses⟩ | ⟨hopen, -⟩
      · intro hsuffix
        refine closer_suffix hsuffix ?_
        rw [hcloses, hend] at hstop
        simp only [Text.size_append, show Text.size ['/', '*'] = 2 from rfl] at hstop
        omega
      · exact fun hsuffix => absurd hsuffix hopen
    have hharmless : Token.IsHarmless ('\n' :: indent ++ layout.continuation) := by
      rw [hcontinues]
      refine ⟨by simp, ?_, ?_⟩
      · simp only [List.forall_mem_append]
        refine ⟨fun d hd hslash => ?_, by simp⟩
        have hspace := hnewline d hd
        rw [hslash] at hspace
        cases hspace
      · rw [List.getLast?_append]
        simp
    have hbroken := hlexed.break_block (hsame.trans hkind) htoken hbehind hharmless rfl rfl
    have htext' : token.text = '/' :: '*' :: first ++ blank ++ second := htoken
    have hsplit := Token.isSplit_of_lexed [] ('\n' :: indent ++ layout.continuation)
      ('/' :: '*' :: first ++ ('\n' :: indent ++ layout.continuation)) htokens hbroken
      (hsame ▸ hcomment) (by simp [Kind.isTrivia]) htext' hblank rfl (by simp)
      (.inr ⟨rfl, ⟨_, rfl⟩, fun hsuffix => ?_⟩) hfirst hlast
    · simpa only [List.append_assoc, List.cons_append, List.nil_append] using hsplit
    · rw [hcontinues] at hsuffix
      exact suffix_of_broken ('/' :: '*' :: first) hsuffix
  | _ => rw [hkind] at hcomment; cases hcomment

/-- The program is the same one. -/
theorem IsCommentBroken.program_eq {e e' : Editor} (htree : tree.root = Node.ofText kind e.text)
    (h : IsCommentBroken tree .java e e') : Token.program e'.text = Token.program e.text := by
  obtain ⟨before, blank, after, new, hbreaks, htext', -⟩ := h
  rw [htext', (hbreaks.isSplit htree).1.program_eq]

end

/-- **Breaking a comment leaves the code alone.**  It is not refused, wherever the caret is.  If the
comment at the caret is broken, the tokens of the program are the same, only blanks around the caret
are gone from the comment, and the caret is inside of what has become of it.  If not, the rules
behind go on with the editor as it is. -/
theorem splitComment_keeps_program (kind : SourceKind) (e : Editor) (caret : Nat) :
    let e := e.moveCaret caret
    let tree := Snapshot.ofDocument kind e.document
    ∃ landed, splitComment .java tree e = .ok landed ∧ match landed with
      | some e' => Token.program e'.text = Token.program e.text
        ∧ Token.IsSplit e.text e'.text e.caret ∧ Token.IsInside e'.text e'.caret
      | none => ∀ style target rules,
          Rule.applyFirst ⟨style, .java⟩ tree target e (.comment :: rules)
            = Rule.applyFirst ⟨style, .java⟩ tree target e rules := by
  intro e tree
  have hcaret : e.text.isBoundary e.caret = true := Text.isBoundary_floorBoundary caret e.text
  have htree : tree.root = Node.ofText kind e.text := rfl
  obtain ⟨landed, hrun, hlands⟩ := @succeeds_splitComment e tree .java hcaret
    (htree ▸ Node.ofText_isTreeOf kind e.text) (by decide)
  refine ⟨landed, hrun, ?_⟩
  cases landed with
  | none =>
    intro style target rules
    rw [Rule.applyFirst, Rule.apply, hrun]
    rfl
  | some e' =>
    have hbroken := hlands e' rfl
    refine ⟨hbroken.program_eq htree, ?_⟩
    obtain ⟨before, blank, after, new, hbreaks, htext', hcaret'⟩ := hbroken
    rw [htext', hcaret']
    exact hbreaks.isSplit htree

end Landing

end StatementCompletion
