import Mathlib.Tactic.Conv
import StatementCompletion.Proofs.Text.Cuts
import StatementCompletion.Text.Lines

/-!
# The line that holds an offset

The line that `lineOf` finds starts at or before the offset, and ends behind it unless it is
the last one.  A line is some characters that are no breaks and then one break, or none if
it is the last; so an offset is past the end of its line only where a cut would part a
carriage return from its line feed.
-/

namespace StatementCompletion.Text

/-! ## What a line is -/

/-- Characters that are no breaks, and what ends the line behind them. -/
inductive IsLine : Text → Prop where
  | last {content : Text} : (∀ c ∈ content, isBreak c = false) → IsLine content
  | broken {content : Text} {c : Char} :
      (∀ c ∈ content, isBreak c = false) → isBreak c = true → IsLine (content ++ [c])
  | returned {content : Text} :
      (∀ c ∈ content, isBreak c = false) → IsLine (content ++ ['\r', '\n'])

theorem IsLine.nil_broken {c : Char} (h : isBreak c = true) : IsLine [c] :=
  IsLine.broken (List.forall_mem_nil _) h

theorem IsLine.nil_returned : IsLine ['\r', '\n'] :=
  IsLine.returned (List.forall_mem_nil _)

theorem IsLine.cons {line : Text} {c : Char} (h : IsLine line) (hc : isBreak c = false) :
    IsLine (c :: line) := by
  cases h with
  | last hcontent => exact .last (List.forall_mem_cons.2 ⟨hc, hcontent⟩)
  | @broken content d hcontent hd =>
    rw [← List.cons_append]
    exact .broken (List.forall_mem_cons.2 ⟨hc, hcontent⟩) hd
  | @returned content hcontent =>
    rw [← List.cons_append]
    exact .returned (List.forall_mem_cons.2 ⟨hc, hcontent⟩)

theorem lines_ne_nil (text : Text) : text.lines ≠ [] := by
  fun_induction lines text <;> simp

theorem isLine_of_mem_lines (text : Text) : ∀ line ∈ text.lines, IsLine line := by
  fun_induction lines text with
  | case1 => exact List.forall_mem_cons.2 ⟨.last (by simp), by simp⟩
  | case2 rest ih => exact List.forall_mem_cons.2 ⟨IsLine.nil_returned, ih⟩
  | case3 c rest _ hbreak ih => exact List.forall_mem_cons.2 ⟨.nil_broken hbreak, ih⟩
  | case4 c rest _ hbreak hnil => exact absurd hnil (lines_ne_nil rest)
  | case5 c rest _ hbreak first more hlines ih =>
    rw [hlines] at ih
    obtain ⟨hfirst, hmore⟩ := List.forall_mem_cons.1 ih
    have hc : isBreak c = false := by simpa using hbreak
    refine List.forall_mem_cons.2 ⟨?_, hmore⟩
    exact hfirst.cons hc

/-- The last line ends with the text and not with a break. -/
theorem lines_eq_concat (text : Text) :
    ∃ front last, text.lines = front ++ [last] ∧ ∀ c ∈ last, isBreak c = false := by
  fun_induction lines text with
  | case1 => exact ⟨[], [], rfl, by simp⟩
  | case2 rest ih =>
    obtain ⟨front, last, hlines, hlast⟩ := ih
    exact ⟨['\r', '\n'] :: front, last, by rw [hlines, List.cons_append], hlast⟩
  | case3 c rest _ hbreak ih =>
    obtain ⟨front, last, hlines, hlast⟩ := ih
    exact ⟨[c] :: front, last, by rw [hlines, List.cons_append], hlast⟩
  | case4 c rest _ hbreak hnil => exact absurd hnil (lines_ne_nil rest)
  | case5 c rest _ hbreak first more hlines ih =>
    have hc : isBreak c = false := by simpa using hbreak
    obtain ⟨front, last, hrest, hlast⟩ := ih
    rw [hlines] at hrest
    cases front with
    | nil =>
      obtain ⟨rfl, rfl⟩ := List.cons.inj hrest
      exact ⟨[], c :: first, rfl, List.forall_mem_cons.2 ⟨hc, hlast⟩⟩
    | cons first' front =>
      obtain ⟨rfl, rfl⟩ := List.cons.inj hrest
      exact ⟨(c :: first) :: front, last, rfl, hlast⟩

/-! ## The returns at the end of a line -/

theorem dropReturns_concat (line : Text) (c : Char) :
    dropReturns (line ++ [c]) = if c = '\n' ∨ c = '\r' then dropReturns line else line ++ [c] := by
  simp only [dropReturns, List.reverse_append, List.reverse_cons, List.reverse_nil, List.nil_append,
    List.cons_append, List.dropWhile_cons, Bool.or_eq_true, decide_eq_true_eq]
  split <;> simp

theorem dropReturns_of_forall {line : Text} (h : ∀ c ∈ line, isBreak c = false) :
    dropReturns line = line := by
  rcases List.eq_nil_or_concat line with rfl | ⟨front, c, rfl⟩
  · rfl
  · have hc := h c (by simp)
    rw [List.concat_eq_append, dropReturns_concat, if_neg]
    rintro (rfl | rfl) <;> exact absurd hc (by decide)

/-- What `dropReturns` drops from a line. -/
theorem IsLine.dropReturns_append {line : Text} (h : IsLine line) :
    ∃ returns, line = dropReturns line ++ returns
      ∧ (returns = [] ∨ returns = ['\n'] ∨ returns = ['\r'] ∨ returns = ['\r', '\n']) := by
  cases h with
  | last hcontent => exact ⟨[], by simp [dropReturns_of_forall hcontent], .inl rfl⟩
  | @broken content c hcontent _ =>
    rw [dropReturns_concat, dropReturns_of_forall hcontent]
    split
    · next hreturn =>
      rcases hreturn with rfl | rfl
      · exact ⟨_, rfl, .inr (.inl rfl)⟩
      · exact ⟨_, rfl, .inr (.inr (.inl rfl))⟩
    · exact ⟨[], by simp, .inl rfl⟩
  | @returned content hcontent =>
    refine ⟨['\r', '\n'], ?_, .inr (.inr (.inr rfl))⟩
    have hdrop : dropReturns (content ++ ['\r', '\n']) = content := by
      rw [show content ++ ['\r', '\n'] = (content ++ ['\r']) ++ ['\n'] by simp, dropReturns_concat,
        if_pos (.inl rfl), dropReturns_concat, if_pos (.inr rfl), dropReturns_of_forall hcontent]
    rw [hdrop]

/-! ## Finding a line -/

/-- The line that is found starts at or before the offset, and ends behind it unless it is the last
one. -/
theorem indexOfLine_spec (lines : List Text) (offset : Nat) (hlines : lines ≠ []) :
    indexOfLine lines offset < lines.length
      ∧ size (lines.take (indexOfLine lines offset)).flatten ≤ offset
      ∧ (offset < size (lines.take (indexOfLine lines offset + 1)).flatten
        ∨ indexOfLine lines offset + 1 = lines.length) := by
  fun_induction indexOfLine lines offset with
  | case1 => exact absurd rfl hlines
  | case2 line offset => simp [size]
  | case3 line more offset hmore hlt => simp [size, hlt]
  | case4 line more offset hmore hge ih =>
    obtain ⟨hindex, hstart, hstop⟩ := ih hmore
    simp only [List.length_cons, List.take_succ_cons, List.flatten_cons, size_append]
    omega

variable {text : Text}

/-- A text around one of its lines. -/
theorem lines_split {k : Nat} (h : k < text.lines.length) :
    text = (text.lines.take k).flatten ++ text.lines[k] ++ (text.lines.drop (k + 1)).flatten := by
  conv_lhs => rw [← flatten_lines text, ← List.take_append_drop k text.lines,
    List.drop_eq_getElem_cons h, List.flatten_append, List.flatten_cons, ← List.append_assoc]

theorem lineEnd_eq {k : Nat} (h : k < text.lines.length) :
    text.lineEnd k = text.lineStart k + (dropReturns text.lines[k]).size := by
  rw [lineEnd, List.getElem?_eq_getElem h, Option.getD_some]

theorem lineStart_add_size {k : Nat} (h : k < text.lines.length) :
    text.lineStart (k + 1) = text.lineStart k + text.lines[k].size := by
  rw [lineStart, lineStart, List.take_succ_eq_append_getElem h, List.flatten_append, size_append,
    List.flatten_singleton]

theorem lineStart_le_lineEnd {k : Nat} (h : k < text.lines.length) :
    text.lineStart k ≤ text.lineEnd k := by
  rw [lineEnd_eq h]
  omega

theorem lineEnd_le_lineStart {k : Nat} (h : k < text.lines.length) :
    text.lineEnd k ≤ text.lineStart (k + 1) := by
  obtain ⟨returns, hline, -⟩ := (isLine_of_mem_lines text _ (List.getElem_mem h)).dropReturns_append
  have hsize := congrArg size hline
  rw [size_append] at hsize
  rw [lineEnd_eq h, lineStart_add_size h]
  omega

theorem lineStart_mono {k l : Nat} (h : k ≤ l) : text.lineStart k ≤ text.lineStart l := by
  obtain ⟨more, hmore⟩ := List.take_prefix_take_left (l := text.lines) h
  rw [lineStart, lineStart, ← hmore, List.flatten_append, size_append]
  omega

theorem lineOf_lt (text : Text) (offset : Nat) : text.lineOf offset < text.lines.length :=
  (indexOfLine_spec text.lines offset (lines_ne_nil text)).1

theorem lineStart_lineOf_le (text : Text) (offset : Nat) :
    text.lineStart (text.lineOf offset) ≤ offset :=
  (indexOfLine_spec text.lines offset (lines_ne_nil text)).2.1

theorem lt_lineStart_lineOf (text : Text) (offset : Nat) :
    offset < text.lineStart (text.lineOf offset + 1)
      ∨ text.lineOf offset + 1 = text.lines.length :=
  (indexOfLine_spec text.lines offset (lines_ne_nil text)).2.2

theorem isBoundary_lineStart (k : Nat) : text.isBoundary (text.lineStart k) = true := by
  refine isBoundary_iff.2 ⟨_, (text.lines.drop k).flatten, ?_, rfl⟩
  rw [← List.flatten_append, List.take_append_drop, flatten_lines]

theorem isBoundary_lineEnd {k : Nat} (h : k < text.lines.length) :
    text.isBoundary (text.lineEnd k) = true := by
  obtain ⟨returns, hline, -⟩ := (isLine_of_mem_lines text _ (List.getElem_mem h)).dropReturns_append
  refine isBoundary_iff.2 ⟨(text.lines.take k).flatten ++ dropReturns text.lines[k],
    returns ++ (text.lines.drop (k + 1)).flatten, ?_, ?_⟩
  · conv_lhs => rw [lines_split h, hline]
    simp only [List.append_assoc]
  · rw [size_append, lineEnd_eq h, lineStart]

/-! ## Offsets within their line -/

/-- The end of a line is within the line that holds it. -/
theorem lineEnd_le_lineEnd_lineOf {k : Nat} (h : k < text.lines.length) :
    text.lineEnd k ≤ text.lineEnd (text.lineOf (text.lineEnd k)) := by
  have hlt := lineOf_lt text (text.lineEnd k)
  -- a line whose break is no return ends where the next line starts, and is found there
  rcases Nat.lt_trichotomy (text.lineOf (text.lineEnd k)) k with hless | heq | hmore
  · have hstart : text.lineStart (text.lineOf (text.lineEnd k) + 1) ≤ text.lineEnd k :=
      (lineStart_mono hless).trans (lineStart_le_lineEnd h)
    rcases lt_lineStart_lineOf text (text.lineEnd k) with hoffset | hlast <;> omega
  · rw [heq]
  · calc text.lineEnd k ≤ text.lineStart (k + 1) := lineEnd_le_lineStart h
      _ ≤ text.lineStart (text.lineOf (text.lineEnd k)) := lineStart_mono hmore
      _ ≤ text.lineEnd (text.lineOf (text.lineEnd k)) := lineStart_le_lineEnd hlt

theorem getElem_lines_last {k : Nat} (h : k < text.lines.length)
    (hlast : k + 1 = text.lines.length) : ∀ c ∈ text.lines[k], isBreak c = false := by
  obtain ⟨front, last, hlines, hcontent⟩ := lines_eq_concat text
  have hlength : front.length = k := by
    rw [hlines, List.length_append, List.length_singleton] at hlast
    omega
  simpa only [hlines, ← hlength, List.getElem_concat_length] using hcontent

/-- Only a carriage return and its line feed can be parted. -/
theorem parts_of_returns {front behind : Text}
    (h : front ++ behind = [] ∨ front ++ behind = ['\n'] ∨ front ++ behind = ['\r']
      ∨ front ++ behind = ['\r', '\n'])
    (hfront : front ≠ []) (hbehind : behind ≠ []) : front = ['\r'] ∧ behind = ['\n'] := by
  rcases h with h | h | h | h
  · exact absurd (List.append_eq_nil_iff.1 h).1 hfront
  · rcases List.append_eq_singleton_iff.1 h with ⟨h, -⟩ | ⟨-, h⟩ <;> contradiction
  · rcases List.append_eq_singleton_iff.1 h with ⟨h, -⟩ | ⟨-, h⟩ <;> contradiction
  · cases front with
    | nil => exact absurd rfl hfront
    | cons c front =>
      obtain ⟨rfl, htail⟩ := List.cons.inj h
      rcases List.append_eq_singleton_iff.1 htail with ⟨rfl, hfeed⟩ | ⟨-, hnil⟩
      · exact ⟨rfl, hfeed⟩
      · exact absurd hnil hbehind

/-- Inside a line, a cut that does not part a carriage return from its line feed is not behind the
end of the line. -/
theorem IsLine.size_le_dropReturns {front behind : Text} (h : IsLine (front ++ behind))
    (hbehind : behind ≠ []) (hreturns : KeepsReturns front behind) :
    front.size ≤ (dropReturns (front ++ behind)).size := by
  obtain ⟨returns, hline, hcases⟩ := h.dropReturns_append
  by_contra hpast
  -- the cut is among the returns, and both sides of it hold some of them
  obtain ⟨first, hfirst, hfront, hreturns'⟩ :=
    exists_middle_of_lt hline.symm (Nat.lt_of_not_le hpast)
  obtain ⟨hfirst', hbehind'⟩ := parts_of_returns (hreturns' ▸ hcases) hfirst hbehind
  refine hreturns ?_ ?_
  · rw [hfront, hfirst', List.getLast?_concat]
  · rw [hbehind', List.head?_cons]

/-- A cut that does not part a carriage return from its line feed is within its line. -/
theorem size_le_lineEnd_lineOf {before after : Text} (htext : text = before ++ after)
    (hreturns : KeepsReturns before after) :
    before.size ≤ text.lineEnd (text.lineOf before.size) := by
  have hk := lineOf_lt text before.size
  generalize hindex : text.lineOf before.size = k at hk ⊢
  have hstart : text.lineStart k ≤ before.size := hindex ▸ lineStart_lineOf_le text before.size
  have hstop := lt_lineStart_lineOf text before.size
  rw [hindex] at hstop
  have hsplit : before ++ after = (text.lines.take k).flatten
      ++ (text.lines[k] ++ (text.lines.drop (k + 1)).flatten) := by
    rw [← List.append_assoc, ← lines_split hk, htext]
  obtain ⟨front, hbefore, hrest⟩ := exists_middle hsplit.symm hstart
  have hsize : before.size = text.lineStart k + front.size := by
    rw [hbefore, size_append, lineStart]
  rw [lineEnd_eq hk, hsize]
  -- the cut is inside a line that has one behind it, or in the last line, which has no break
  rcases hstop with hstop | hlast
  · rw [lineStart_add_size hk, hsize] at hstop
    obtain ⟨behind, hbehind, hline, hafter⟩ := exists_middle_of_lt hrest.symm (by omega)
    have hinside : KeepsReturns front behind := by
      intro hlast
      obtain ⟨c, behind', rfl⟩ := List.exists_cons_of_ne_nil hbehind
      have hfirst := hreturns (by simp [hbefore, hlast])
      rwa [hafter] at hfirst
    have hle := (hline ▸ isLine_of_mem_lines text _ (List.getElem_mem hk)).size_le_dropReturns
      hbehind hinside
    rw [hline]
    omega
  · have hcontent := getElem_lines_last hk hlast
    have hdrop : text.lines.drop (k + 1) = [] := List.drop_eq_nil_of_le (by omega)
    rw [hdrop, List.flatten_nil, List.append_nil] at hrest
    have hwhole := congrArg size hrest
    rw [size_append] at hwhole
    rw [dropReturns_of_forall hcontent]
    omega

/-! ## What ends a line -/

/-- A line that another one follows ends with a break. -/
theorem exists_break_of_lines_eq {front back : List Text} {line next : Text}
    (h : text.lines = front ++ line :: next :: back) :
    ∃ content c, line = content ++ [c] ∧ isBreak c = true := by
  fun_induction lines text generalizing front line with
  | case1 =>
    have hlength := congrArg List.length h
    simp only [List.length_append, List.length_cons, List.length_nil] at hlength
    omega
  | case2 rest ih =>
    cases front with
    | nil =>
      obtain ⟨rfl, -⟩ := List.cons.inj h
      exact ⟨['\r'], '\n', rfl, rfl⟩
    | cons first front => exact ih (List.cons.inj h).2
  | case3 c rest _ hbreak ih =>
    cases front with
    | nil =>
      obtain ⟨rfl, -⟩ := List.cons.inj h
      exact ⟨[], c, rfl, hbreak⟩
    | cons first front => exact ih (List.cons.inj h).2
  | case4 c rest _ _ hnil => exact absurd hnil (lines_ne_nil rest)
  | case5 c rest _ _ first more hlines ih =>
    rw [hlines] at ih
    cases front with
    | nil =>
      obtain ⟨rfl, hmore⟩ := List.cons.inj h
      obtain ⟨content, d, rfl, hd⟩ := @ih [] first (by rw [hmore]; rfl)
      exact ⟨c :: content, d, rfl, hd⟩
    | cons first' front =>
      obtain ⟨-, hmore⟩ := List.cons.inj h
      exact @ih (first :: front) line (by rw [hmore]; rfl)

theorem length_dropReturns_le (line : Text) : (dropReturns line).length ≤ line.length := by
  rw [dropReturns, List.length_reverse, ← @List.length_reverse _ line]
  exact (List.dropWhile_sublist _).length_le

/-- Where only line feeds and carriage returns end a line, one of them is behind the
end of each line but the last. -/
theorem isReturn_behind_lineEnd (hreturns : ∀ c ∈ text, isBreak c = true → c = '\n' ∨ c = '\r')
    {k : Nat} (hk : k < text.lines.length) {before after : Text} (htext : text = before ++ after)
    (hbefore : before.size = text.lineEnd k) :
    ∀ c, after.head? = some c → c = '\n' ∨ c = '\r' := by
  obtain ⟨returns, hline, hcases⟩ :=
    (isLine_of_mem_lines text _ (List.getElem_mem hk)).dropReturns_append
  have hsplit := lines_split hk
  conv at hsplit => rhs; rw [hline, ← List.append_assoc, List.append_assoc]
  obtain ⟨-, rfl⟩ : before = (text.lines.take k).flatten ++ dropReturns text.lines[k]
      ∧ after = returns ++ (text.lines.drop (k + 1)).flatten := by
    refine append_inj_of_size (htext.symm.trans hsplit) ?_
    rw [hbefore, lineEnd_eq hk, lineStart, size_append]
  intro c hc
  by_cases hlast : k + 1 = text.lines.length
  · -- the last line has no break, and nothing is behind it
    have hnone : returns = [] := by
      refine List.eq_nil_iff_forall_not_mem.2 fun d hd => ?_
      have hbreak := getElem_lines_last hk hlast d (by rw [hline]; exact List.mem_append_right _ hd)
      have hd' : d = '\n' ∨ d = '\r' := by
        rcases hcases with hnil | hfeed | hreturn | hboth
        · rw [hnil] at hd
          cases hd
        · exact .inl (List.mem_singleton.1 (hfeed ▸ hd))
        · exact .inr (List.mem_singleton.1 (hreturn ▸ hd))
        · rw [hboth, List.mem_cons, List.mem_singleton] at hd
          exact hd.symm
      rcases hd' with rfl | rfl <;> cases hbreak
    rw [hnone, List.drop_eq_nil_of_le (by omega)] at hc
    cases hc
  · have hnext : k + 1 < text.lines.length := by omega
    have hlines : text.lines = text.lines.take k
        ++ text.lines[k] :: text.lines[k + 1] :: text.lines.drop (k + 1 + 1) := by
      rw [← List.drop_eq_getElem_cons hnext, ← List.drop_eq_getElem_cons hk, List.take_append_drop]
    obtain ⟨content, d, hcontent, hd⟩ := exists_break_of_lines_eq hlines
    have hmem : d ∈ text := by
      rw [lines_split hk, hcontent]
      simp
    -- the break is dropped, so something is
    have hsome : returns ≠ [] := by
      rintro rfl
      have hdrop := length_dropReturns_le content
      rw [List.append_nil, hcontent, dropReturns_concat, if_pos (hreturns d hmem hd)] at hline
      rw [← hline, List.length_append, List.length_singleton] at hdrop
      omega
    rcases hcases with rfl | rfl | rfl | rfl
    · exact absurd rfl hsome
    · exact .inl (Option.some.inj hc).symm
    · exact .inr (Option.some.inj hc).symm
    · exact .inr (Option.some.inj hc).symm

/-! ## The first line -/

/-- A first line without breaks, with what ends it. -/
structure IsFirstLine (line : Text) (text : Text) : Prop where
  plain : ∀ c ∈ line, isBreak c = false
  rest : ∃ rest, text = line ++ rest ∧ (rest = [] ∨ rest.head? = some '\n')

theorem lines_append {line : Text} (hline : ∀ c ∈ line, isBreak c = false) (rest : Text) :
    ∃ first more, rest.lines = first :: more ∧ (line ++ rest).lines = (line ++ first) :: more := by
  induction line with
  | nil =>
    obtain ⟨first, more, hlines⟩ := List.exists_cons_of_ne_nil (lines_ne_nil rest)
    exact ⟨first, more, hlines, hlines⟩
  | cons c line ih =>
    obtain ⟨hc, hline⟩ := List.forall_mem_cons.1 hline
    obtain ⟨first, more, hrest, hlines⟩ := ih hline
    refine ⟨first, more, hrest, ?_⟩
    have hreturn : c ≠ '\r' := by
      rintro rfl
      cases hc
    rw [List.cons_append, lines.eq_def]
    split
    · next heq => cases heq
    · next heq => exact absurd (List.cons.inj heq).1 hreturn
    · next heq =>
      obtain ⟨rfl, rfl⟩ := List.cons.inj heq
      rw [if_neg (by rw [hc]; exact Bool.false_ne_true), hlines]
      rfl

namespace IsFirstLine

variable {line : Text}

/-- The first of the lines is the line and its line feed. -/
theorem exists_lines (h : IsFirstLine line text) : ∃ feed more,
    text.lines = (line ++ feed) :: more ∧ (feed = [] ∧ more = [] ∨ feed = ['\n']) := by
  obtain ⟨rest, rfl, hrest⟩ := h.rest
  obtain ⟨first, more, hlines, hall⟩ := lines_append h.plain rest
  refine ⟨first, more, hall, ?_⟩
  rcases hrest with rfl | hhead
  · obtain ⟨rfl, rfl⟩ := List.cons.inj hlines.symm
    exact .inl ⟨rfl, rfl⟩
  · obtain ⟨rest, rfl⟩ := List.head?_eq_some_iff.1 hhead
    rw [lines.eq_def] at hlines
    obtain ⟨rfl, rfl⟩ := List.cons.inj hlines.symm
    exact .inr rfl

theorem lineStart_eq (text : Text) : text.lineStart 0 = 0 :=
  rfl

/-- An offset up to the end of the line is on it. -/
theorem lineOf_eq (h : IsFirstLine line text) {offset : Nat} (hle : offset ≤ line.size) :
    text.lineOf offset = 0 := by
  obtain ⟨feed, more, hlines, ⟨-, rfl⟩ | rfl⟩ := h.exists_lines
  · rw [lineOf, hlines]
    rfl
  · rw [lineOf, hlines]
    cases more with
    | nil => rfl
    | cons next more =>
      have hfeed : size ['\n'] = 1 := rfl
      rw [indexOfLine, if_pos]
      · rw [size_append, hfeed]
        omega
      · exact List.cons_ne_nil _ _

theorem lineEnd_eq (h : IsFirstLine line text) : text.lineEnd 0 = line.size := by
  obtain ⟨feed, more, hlines, hfeed⟩ := h.exists_lines
  have hdrop : dropReturns (line ++ feed) = line := by
    rcases hfeed with ⟨rfl, -⟩ | rfl
    · rw [List.append_nil, dropReturns_of_forall h.plain]
    · rw [dropReturns_concat, if_pos (.inl rfl), dropReturns_of_forall h.plain]
  rw [lineEnd, lineStart_eq, hlines, List.getElem?_cons_zero, Option.getD_some, hdrop, Nat.zero_add]

/-- A line that begins with ink is not indented. -/
theorem lineIndent_eq (h : IsFirstLine line text) {c : Char} (hc : line.head? = some c)
    (hblank : isBlank c = false) {offset : Nat} (hle : offset ≤ line.size) :
    text.lineIndent offset = [] := by
  obtain ⟨feed, more, hlines, -⟩ := h.exists_lines
  obtain ⟨rest, rfl⟩ := List.head?_eq_some_iff.1 hc
  rw [lineIndent, h.lineOf_eq hle, hlines, List.getElem?_cons_zero, Option.getD_some, indentation,
    List.cons_append, List.takeWhile_cons_of_neg (by rw [hblank]; exact Bool.false_ne_true)]

end IsFirstLine

/-- A text without breaks has one line. -/
theorem isFirstLine_self {line : Text} (h : ∀ c ∈ line, isBreak c = false) :
    IsFirstLine line line :=
  ⟨h, [], (List.append_nil line).symm, .inl rfl⟩

end StatementCompletion.Text
