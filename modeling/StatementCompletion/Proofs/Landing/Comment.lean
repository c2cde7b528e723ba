import StatementCompletion.Landing.Comment
import StatementCompletion.Proofs.Editor.Newline
import StatementCompletion.Proofs.Text.Bytes
import StatementCompletion.Proofs.Tree.Places

/-!
# Breaking a comment drops blanks only

What gives way to the break are blanks around the caret, inside the comment.  A comment is never
broken at the very start of the text, because the token that opens it is in front of the caret: that
token is not empty if the style does not ask for an empty one.
-/

namespace StatementCompletion

/-! ## The blanks around a caret -/

/-- The blanks around a boundary, between where the searches to the left and to the right stop. -/
theorem Text.exists_blanks_around {text : Text} {caret : Nat} (h : text.isBoundary caret = true)
    (hpos : 0 < caret) :
    ∃ before blank after, text = before ++ blank ++ after ∧ (∀ c ∈ blank, isBlank c = true)
      ∧ text.endOfInk (caret - 1) = before.size ∧ before.size ≤ caret
      ∧ text.firstByteOutside caret Text.blanks = before.size + blank.size
      ∧ caret ≤ before.size + blank.size := by
  obtain ⟨front, back, rfl, rfl⟩ := Text.isBoundary_iff.1 h
  have hfront : front ≠ [] := by
    rintro rfl
    exact absurd hpos (by simp [Text.size])
  obtain ⟨blank, hblank, hspace⟩ := exists_trimBlanks_append front
  have hsize : front.size = (trimBlanks front).size + blank.size := by
    rw [← Text.size_append, ← hblank]
  refine ⟨trimBlanks front, blank ++ back.indentation, back.drop back.indentation.length, ?_, ?_,
    endOfInk_append back hfront, ?_, ?_, ?_⟩
  · rw [← List.append_assoc, ← hblank, List.append_assoc, indentation_append]
  · exact List.forall_mem_append.2 ⟨hspace, fun c hc => isBlank_of_mem_indentation hc⟩
  · omega
  · rw [firstByteOutside_append, Text.size_append]
    omega
  · rw [Text.size_append]
    omega

/-- The blanks around a caret, as far as they are between two other boundaries around it. -/
theorem Text.exists_blanks_between {text : Text} {caret start stop : Nat}
    (hcaret : text.isBoundary caret = true) (hpos : 0 < caret)
    (hstart : text.isBoundary start = true) (hstop : text.isBoundary stop = true)
    (hle : start ≤ caret) (hge : caret ≤ stop) :
    ∃ before blank after, text = before ++ blank ++ after ∧ (∀ c ∈ blank, isBlank c = true)
      ∧ (⟨max (text.endOfInk (caret - 1)) start,
          min (text.firstByteOutside caret Text.blanks) stop⟩ : Span) = .behind before blank
      ∧ before.size ≤ caret ∧ caret ≤ (before ++ blank).size := by
  obtain ⟨before, blank, after, rfl, hblank, hleft, hbefore, hright, hafter⟩ :=
    exists_blanks_around hcaret hpos
  have hfirst : (before ++ blank ++ after).isBoundary (max before.size start) = true := by
    rw [Nat.max_def]
    split
    · exact hstart
    · rw [List.append_assoc]
      exact isBoundary_append _ _
  have hlast :
      (before ++ blank ++ after).isBoundary (min (before.size + blank.size) stop) = true := by
    rw [Nat.min_def]
    split
    · rw [← size_append]
      exact isBoundary_append _ _
    · exact hstop
  obtain ⟨front, inside, back, hcut, hspan, hinside⟩ :=
    exists_behind_within hfirst hlast (by omega) (by omega) (by omega)
  rw [hleft, hright]
  have hfront := congrArg Span.start hspan
  have hback := congrArg Span.stop hspan
  simp only [Span.behind] at hfront hback
  -- what lies between the inner boundaries is a part of the blanks
  refine ⟨front, inside, back, hcut, fun c hc => hblank c (hinside.subset hc), hspan, ?_, ?_⟩
  · omega
  · rw [size_append]
    omega

/-! ## Cuts inside a leaf -/

namespace Cursor.Within

variable {text : Text} {c : Cursor}

/-- A leaf with some text covers that part of the text. -/
theorem exists_ownText (h : c.Within text) (hnonempty : c.node.ownText ≠ []) :
    ∃ before after, text = before ++ c.node.ownText ++ after ∧ before.size = c.offset
      ∧ c.stop = c.offset + c.node.ownText.size := by
  obtain ⟨before, after, htext, hspan⟩ := h.exists_parts
  have hown : c.node.text = c.node.ownText := by
    rw [← Node.flatMap_leaves, Node.leaves_eq_singleton hnonempty, List.flatMap_singleton]
  rw [hown] at htext
  exact ⟨before, after, htext, (congrArg Span.start hspan).symm, stop_of_ownText_ne_nil hnonempty⟩

/-- A leaf may be cut behind what it starts with. -/
theorem isBoundary_behind_prefix {opener : Text} (h : c.Within text) (hopener : opener ≠ [])
    (hbegins : opener <+: c.node.ownText) : text.isBoundary (c.offset + opener.size) = true := by
  obtain ⟨rest, hown⟩ := hbegins
  obtain ⟨before, after, htext, hsize, -⟩ :=
    h.exists_ownText (by simp [← hown, hopener])
  refine Text.isBoundary_iff.2 ⟨before ++ opener, rest ++ after, ?_, ?_⟩
  · rw [htext, ← hown]
    simp only [List.append_assoc]
  · rw [Text.size_append, hsize]

/-- A leaf may be cut in front of what it ends with. -/
theorem isBoundary_before_suffix {closer : Text} (h : c.Within text)
    (hnonempty : c.node.ownText ≠ []) (hsuffix : closer <:+ c.node.ownText) :
    text.isBoundary (c.stop - closer.size) = true := by
  obtain ⟨rest, hown⟩ := hsuffix
  obtain ⟨before, after, htext, hsize, hstop⟩ := h.exists_ownText hnonempty
  refine Text.isBoundary_iff.2 ⟨before ++ rest, closer ++ after, ?_, ?_⟩
  · rw [htext, ← hown]
    simp only [List.append_assoc]
  · rw [hstop, ← hown, Text.size_append, Text.size_append, hsize]
    omega

end Cursor.Within

/-! ## Where a comment may be broken -/

theorem CommentStyle.ne_nil_of_lineContinuation {comments : CommentStyle}
    {opener continuation : Text} (hline : comments.line = some opener)
    (h : comments.lineContinuation = some continuation) : opener ≠ [] := by
  rintro rfl
  simp [lineContinuation, hasLine, hline, isGiven] at h

namespace Landing

variable {text : Text} {comments : CommentStyle}

/-- A comment is broken behind some of its text, between two boundaries. -/
theorem insideOfComment?_spec {c : Cursor} {layout : CommentInside} (h : c.Within text)
    (hcomments : comments.blockStart ≠ some [])
    (hlayout : insideOfComment? comments c = some layout) :
    0 < layout.span.start ∧ text.isBoundary layout.span.start = true
      ∧ text.isBoundary layout.span.stop = true := by
  have hinside {opener : Text} (hopener : opener ≠ []) (hbegins : opener <+: c.node.ownText) :
      0 < c.offset + opener.size ∧ text.isBoundary (c.offset + opener.size) = true :=
    ⟨Nat.add_pos_right _ (Text.size_pos hopener), h.isBoundary_behind_prefix hopener hbegins⟩
  unfold insideOfComment? at hlayout
  split at hlayout
  · obtain ⟨opener, hfilter, hrest⟩ := Option.bind_eq_some_iff.1 hlayout
    obtain ⟨continuation, hcontinuation, hlayout⟩ := Option.bind_eq_some_iff.1 hrest
    obtain ⟨hline, hbegins⟩ := Option.filter_eq_some_iff.1 hfilter
    cases hlayout
    have hopener := CommentStyle.ne_nil_of_lineContinuation hline hcontinuation
    obtain ⟨hpos, hstart⟩ := hinside hopener (List.isPrefixOf_iff_prefix.1 hbegins)
    exact ⟨hpos, hstart, h.isBoundary_stop⟩
  · obtain ⟨opener, hfilter, hrest⟩ := Option.bind_eq_some_iff.1 hlayout
    obtain ⟨closer, -, hrest⟩ := Option.bind_eq_some_iff.1 hrest
    obtain ⟨continuation, -, hlayout⟩ := Option.bind_eq_some_iff.1 hrest
    obtain ⟨hblock, hbegins⟩ := Option.filter_eq_some_iff.1 hfilter
    cases hlayout
    have hopener : opener ≠ [] := by
      rintro rfl
      exact hcomments hblock
    have hbegins := List.isPrefixOf_iff_prefix.1 hbegins
    obtain ⟨hpos, hstart⟩ := hinside hopener hbegins
    refine ⟨hpos, hstart, ?_⟩
    dsimp only
    split
    · next hclosed =>
      have hsuffix := List.isSuffixOf_iff_suffix.1 (Bool.and_eq_true_iff.1 hclosed).2
      refine h.isBoundary_before_suffix ?_ hsuffix
      exact fun hnil => hopener (List.prefix_nil.1 (hnil ▸ hbegins))
    · exact h.isBoundary_stop
  · cases hlayout

theorem within_of_commentAt? {tree : Snapshot} {caret : Nat} {c : Cursor}
    (htree : Node.IsTreeOf text tree.root) (h : commentAt? tree caret = some c) :
    c.Within text := by
  obtain ⟨position, -, hleaf⟩ := List.mem_filterMap.1 (List.mem_of_find?_eq_some h)
  exact (Cursor.Within.root htree).below (Cursor.below_of_leafAt? hleaf)

/-! ## The break -/

/-- What comes of an attempt to place the caret: if it is an editor, something holds of it. -/
def LandsIn (P : Editor → Prop) (landed : Option Editor) : Prop :=
  ∀ e' ∈ landed, P e'

/-- If an attempt to place the caret comes to an editor, that one follows. -/
abbrev Lands (original : Text) (slots : List Nat) (e : Editor) : Option Editor → Prop :=
  LandsIn (Editor.Follows original slots e)

theorem landsIn_none {P : Editor → Prop} : LandsIn P none := by
  simp [LandsIn]

theorem landsIn_some {P : Editor → Prop} {e' : Editor} (h : P e') : LandsIn P (some e') := by
  simpa [LandsIn] using h

/-- The comment at a caret is broken: blanks around the caret, between where the layout of the
comment starts and stops, give way to a line feed and what the comment goes on with. -/
structure BreaksAt (tree : Snapshot) (comments : CommentStyle) (text : Text) (caret : Nat)
    (before blank after new : Text) : Prop where
  layout : ∃ comment layout indent, commentAt? tree caret = some comment
    ∧ insideOfComment? comments comment = some layout
    ∧ layout.span.start ≤ before.size ∧ (before ++ blank).size ≤ layout.span.stop
    ∧ (∀ c ∈ indent, Text.isBlank c = true) ∧ new = '\n' :: indent ++ layout.continuation
  text_eq : text = before ++ blank ++ after
  blanks : ∀ c ∈ blank, Text.isBlank c = true
  start : before.size ≤ caret
  stop : caret ≤ (before ++ blank).size

/-- What an editor is once the comment at its caret is broken. -/
def IsCommentBroken (tree : Snapshot) (comments : CommentStyle) (e e' : Editor) : Prop :=
  ∃ before blank after new, BreaksAt tree comments e.text e.caret before blank after new
    ∧ e'.text = before ++ new ++ after ∧ e'.caret = (before ++ new).size

end Landing

open Landing

variable {original : Text} {slots : List Nat} {e : Editor} {tree : Snapshot}

/-- A comment is not broken, or by one edit that puts the caret behind what is new. -/
theorem Landing.splitComment_cases {comments : CommentStyle}
    (hcaret : e.text.isBoundary e.caret = true) (htree : Node.IsTreeOf e.text tree.root)
    (hcomments : comments.blockStart ≠ some []) :
    splitComment comments tree e = .ok none
      ∨ ∃ before blank after new, BreaksAt tree comments e.text e.caret before blank after new
        ∧ splitComment comments tree e = (e.replace (.behind before blank) new >>= fun broken =>
          pure (some (broken.moveCaret (before ++ new).size))) := by
  unfold Landing.splitComment
  dsimp only
  split
  · exact .inl rfl
  · next comment layout hfound =>
    obtain ⟨c, hcomment, hfound⟩ := Option.bind_eq_some_iff.1 hfound
    obtain ⟨layout', hlayout, hfound⟩ := Option.bind_eq_some_iff.1 hfound
    cases hfound
    obtain ⟨hpos, hstart, hstop⟩ :=
      insideOfComment?_spec (within_of_commentAt? htree hcomment) hcomments hlayout
    split
    · exact .inl rfl
    · next hinside =>
      have hle : layout.span.start ≤ e.caret := by omega
      have hge : e.caret ≤ layout.span.stop := by omega
      obtain ⟨before, blank, after, htext, hblank, hspan, hfront, hback⟩ :=
        Text.exists_blanks_between hcaret (hpos.trans_le hle) hstart hstop hle hge
      have hbefore := congrArg Span.start hspan
      have hbehind := congrArg Span.stop hspan
      simp only [Span.behind] at hbefore hbehind
      -- the stop is not in front of the start, so nothing has to be put right
      have hstop' : max (min (e.text.firstByteOutside e.caret Text.blanks) layout.span.stop)
          (max (e.text.endOfInk (e.caret - 1)) layout.span.start)
          = min (e.text.firstByteOutside e.caret Text.blanks) layout.span.stop := by omega
      have hindent : ∀ d ∈ (if comment.kind = .blockComment then e.text.lineIndent comment.offset
          else e.text.lineIndent e.caret), Text.isBlank d = true := fun d hd => by
        split at hd <;> exact Text.isBlank_of_mem_indentation hd
      refine .inr ⟨before, blank, after, _,
        ⟨⟨comment, layout, _, hcomment, hlayout, ?_, ?_, hindent, rfl⟩, htext, hblank,
          hfront, hback⟩, ?_⟩
      · omega
      · rw [Text.size_append]
        omega
      · rw [hstop', hspan, hbefore, Text.size_append before]

/-- A comment is broken where that is asked for, without being refused. -/
theorem Landing.succeeds_splitComment {comments : CommentStyle}
    (hcaret : e.text.isBoundary e.caret = true) (htree : Node.IsTreeOf e.text tree.root)
    (hcomments : comments.blockStart ≠ some []) :
    Succeeds (splitComment comments tree e) (LandsIn (IsCommentBroken tree comments e)) := by
  rcases splitComment_cases hcaret htree hcomments with hnone
    | ⟨before, blank, after, new, hbreaks, hrun⟩
  · rw [hnone]
    exact .ok landsIn_none
  · obtain ⟨d, hreplace, hd, -⟩ := Editor.replace_append hbreaks.text_eq new
    rw [hrun, hreplace]
    exact .ok (landsIn_some ⟨before, blank, after, new, hbreaks, hd, Editor.caret_moveCaret hd⟩)

/-- Breaking a comment is not refused. -/
theorem Editor.Keeps.splitComment_text {comments : CommentStyle} (h : e.Keeps original slots)
    (htree : Node.IsTreeOf e.text tree.root) (hcomments : comments.blockStart ≠ some []) :
    Succeeds (splitComment comments tree e) (LandsIn fun e' =>
      Follows original slots e e' ∧ IsCommentBroken tree comments e e') := by
  rcases splitComment_cases h.caret htree hcomments with hnone
    | ⟨before, blank, after, new, hbreaks, hrun⟩
  · rw [hnone]
    exact .ok landsIn_none
  · have hink : List.Sublist blank.ink new.ink := by
      rw [Text.ink_eq_nil fun c hc => Text.isSpace_of_isBlank (hbreaks.blanks c hc)]
      exact List.nil_sublist _
    obtain ⟨e', hreplace, hfollows, htext'⟩ := h.replace hbreaks.text_eq hink
    rw [hrun, hreplace]
    refine .ok (landsIn_some ⟨hfollows.trans (hfollows.keeps.moveCaret _), ?_⟩)
    exact ⟨before, blank, after, new, hbreaks, htext', Editor.caret_moveCaret htext'⟩

theorem Editor.Keeps.splitComment {comments : CommentStyle} (h : e.Keeps original slots)
    (htree : Node.IsTreeOf e.text tree.root) (hcomments : comments.blockStart ≠ some []) :
    Succeeds (splitComment comments tree e) (Lands original slots e) :=
  (h.splitComment_text htree hcomments).mono fun _ hlands e' he' => (hlands e' he').1

end StatementCompletion
