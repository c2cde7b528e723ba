import Mathlib.Data.List.Basic
import StatementCompletion.Proofs.Text.Lines

/-!
# The lines around a break

The place behind a character is on the line of this character, unless the character is a break: then
it is on a later line.  Only between a carriage return and its line feed there is no other line yet.
-/

namespace StatementCompletion.Text

variable {text : Text}

theorem lineOf_mono {offset later : Nat} (h : offset ≤ later) :
    text.lineOf offset ≤ text.lineOf later := by
  by_contra hless
  have hstart := lineStart_lineOf_le text offset
  have hmono : text.lineStart (text.lineOf later + 1) ≤ text.lineStart (text.lineOf offset) :=
    lineStart_mono (by omega)
  have hlt := lineOf_lt text offset
  rcases lt_lineStart_lineOf text later with hstop | hlast <;> omega

/-- A line that is not the first starts behind a break. -/
theorem exists_break_before_line {k : Nat} (hpos : 0 < k) (hk : k < text.lines.length) :
    ∃ c, (text.lines.take k).flatten.getLast? = some c ∧ isBreak c = true := by
  obtain ⟨k, rfl⟩ := Nat.exists_eq_add_of_lt hpos
  rw [Nat.zero_add] at hk ⊢
  have hlines : text.lines = text.lines.take k
      ++ text.lines[k] :: text.lines[k + 1] :: text.lines.drop (k + 1 + 1) := by
    rw [← List.drop_eq_getElem_cons hk, ← List.drop_eq_getElem_cons (Nat.lt_of_succ_lt hk),
      List.take_append_drop]
  obtain ⟨content, c, hcontent, hc⟩ := exists_break_of_lines_eq hlines
  refine ⟨c, ?_, hc⟩
  rw [List.take_succ_eq_append_getElem (Nat.lt_of_succ_lt hk), List.flatten_append,
    List.flatten_singleton, hcontent, ← List.append_assoc, List.getLast?_concat]

/-- The place behind a character that is no break is on the line of this character. -/
theorem lineOf_behind {before : Text} (after : Text) {c : Char} (hc : before.getLast? = some c)
    (hbreak : isBreak c = false) :
    (before ++ after).lineOf (before.size - 1) = (before ++ after).lineOf before.size := by
  refine (lineOf_mono (Nat.sub_le _ _)).antisymm (Nat.le_of_not_lt fun hlt => ?_)
  generalize htext : before ++ after = text at hlt
  have hk := lineOf_lt text before.size
  have hstart := lineStart_lineOf_le text before.size
  have hmono : text.lineStart (text.lineOf (before.size - 1) + 1)
      ≤ text.lineStart (text.lineOf before.size) := lineStart_mono (by omega)
  have hsize : text.lineStart (text.lineOf before.size) = before.size := by
    rcases lt_lineStart_lineOf text (before.size - 1) with hstop | hlast <;> omega
  -- a line would start behind the character, and so the character would be a break
  obtain ⟨d, hd, hdbreak⟩ := exists_break_before_line (Nat.zero_lt_of_lt hlt) hk
  have hsplit := List.take_append_drop (text.lineOf before.size) text.lines
  have hflat := congrArg List.flatten hsplit
  rw [List.flatten_append, flatten_lines] at hflat
  obtain ⟨hbefore, -⟩ := append_inj_of_size (hflat.trans htext.symm) hsize
  rw [hbefore, hc] at hd
  rw [← Option.some.inj hd, hbreak] at hdbreak
  cases hdbreak

/-- Inside a line only a carriage return with its line feed behind it is a break. -/
theorem IsLine.of_break {front behind : Text} (h : IsLine (front ++ behind)) (hbehind : behind ≠ [])
    {c : Char} (hc : front.getLast? = some c) (hbreak : isBreak c = true) :
    c = '\r' ∧ behind = ['\n'] := by
  have hno {content : Text} (hcontent : ∀ d ∈ content, isBreak d = false) {more : Text}
      (heq : content = front ++ more) : False := by
    have hd := hcontent c (by rw [heq]; exact List.mem_append_left _ (List.mem_of_getLast? hc))
    rw [hbreak] at hd
    cases hd
  obtain ⟨more, d, rfl⟩ := List.eq_nil_or_concat behind |>.resolve_left hbehind
  generalize hline : front ++ more.concat d = line at h
  rw [List.concat_eq_append, ← List.append_assoc] at hline
  cases h with
  | last hcontent => exact (hno hcontent (by rw [← hline, List.append_assoc])).elim
  | broken hcontent _ =>
    obtain ⟨hsame, -⟩ := List.append_inj' hline rfl
    exact (hno hcontent hsame.symm).elim
  | @returned content hcontent =>
    rw [show content ++ ['\r', '\n'] = (content ++ ['\r']) ++ ['\n'] by simp] at hline
    obtain ⟨hsame, hd⟩ := List.append_inj' hline rfl
    rcases List.eq_nil_or_concat more with rfl | ⟨more, e, rfl⟩
    · rw [List.append_nil] at hsame
      rw [hsame, List.getLast?_concat] at hc
      exact ⟨(Option.some.inj hc).symm, hd⟩
    · rw [List.concat_eq_append, ← List.append_assoc] at hsame
      obtain ⟨hsame, -⟩ := List.append_inj' hsame rfl
      exact (hno hcontent hsame.symm).elim

/-- The place behind a break is on a later line. -/
theorem lineOf_lt_behind_break {before after : Text} {c : Char} (hc : before.getLast? = some c)
    (hbreak : isBreak c = true) (hreturns : KeepsReturns before after) :
    (before ++ after).lineOf (before.size - 1) < (before ++ after).lineOf before.size := by
  refine (lineOf_mono (Nat.sub_le _ _)).lt_of_ne fun hsame => ?_
  generalize htext : before ++ after = text at hsame
  have hk := lineOf_lt text before.size
  have hstart := lineStart_lineOf_le text (before.size - 1)
  have hstop := lt_lineStart_lineOf text before.size
  rw [hsame] at hstart
  generalize text.lineOf before.size = k at hk hstart hstop
  have hpos : 0 < before.size := size_pos (by rintro rfl; cases hc)
  have hsplit := htext.trans (lines_split hk)
  rw [List.append_assoc] at hsplit
  obtain ⟨front, hfront, hrest⟩ := exists_middle hsplit.symm (hstart.trans (Nat.sub_le _ _))
  have hsize : before.size = text.lineStart k + front.size := by
    rw [lineStart, ← size_append, ← hfront]
  have hc' : front.getLast? = some c := by
    rwa [hfront, List.getLast?_append_of_ne_nil] at hc
    rintro rfl
    rw [size] at hsize
    omega
  -- in the line the break is not the last character, or the line is the last one and has no break
  rcases hstop with hstop | hlast
  · rw [lineStart_add_size hk] at hstop
    obtain ⟨behind, hbehind, hline, hafter⟩ := exists_middle_of_lt hrest.symm (by omega)
    obtain ⟨rfl, rfl⟩ :=
      (hline ▸ isLine_of_mem_lines text _ (List.getElem_mem hk)).of_break hbehind hc'
        hbreak
    exact hreturns hc (by rw [hafter]; rfl)
  · have hdrop : text.lines.drop (k + 1) = [] := List.drop_eq_nil_of_le (by omega)
    rw [hdrop, List.flatten_nil, List.append_nil] at hrest
    have hno := getElem_lines_last hk hlast c
      (by rw [hrest]; exact List.mem_append_left _ (List.mem_of_getLast? hc'))
    rw [hbreak] at hno
    cases hno

end StatementCompletion.Text
