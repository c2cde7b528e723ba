import Mathlib.Data.Nat.Basic
import Mathlib.Order.Basic
import StatementCompletion.Text

/-!
# Where a text can be cut

A byte offset is good for a cut exactly if it is the size of a first part of the text.  So instead
of offsets, what follows speaks of the two or three parts that a text is made of, and comes back to
offsets through `splitAt?_append` and `isBoundary_iff`.
-/

namespace StatementCompletion.Text

/-! ## Sizes of parts -/

theorem eq_nil_of_size_eq_zero {text : Text} (h : size text = 0) : text = [] := by
  cases text with
  | nil => rfl
  | cons c rest =>
    have hpos := c.utf8Size_pos
    simp only [size] at h
    omega

theorem size_pos {text : Text} (h : text ≠ []) : 0 < size text :=
  Nat.pos_of_ne_zero (mt eq_nil_of_size_eq_zero h)

/-- Of two first parts of a text the smaller one begins the larger one. -/
theorem exists_middle {a b c d : Text} (h : a ++ b = c ++ d) (hsize : size a ≤ size c) :
    ∃ middle, c = a ++ middle ∧ b = middle ++ d := by
  rcases List.append_eq_append_iff.1 h with ⟨middle, hc, hb⟩ | ⟨middle, ha, hd⟩
  · exact ⟨middle, hc, hb⟩
  · have hmiddle : middle = [] := by
      apply eq_nil_of_size_eq_zero
      rw [ha, size_append] at hsize
      omega
    subst hmiddle
    exact ⟨[], by simpa using ha.symm, by simpa using hd.symm⟩

theorem exists_middle_of_lt {a b c d : Text} (h : a ++ b = c ++ d) (hsize : size a < size c) :
    ∃ middle, middle ≠ [] ∧ c = a ++ middle ∧ b = middle ++ d := by
  obtain ⟨middle, hc, hb⟩ := exists_middle h hsize.le
  refine ⟨middle, ?_, hc, hb⟩
  rintro rfl
  rw [hc, List.append_nil] at hsize
  exact Nat.lt_irrefl _ hsize

/-- First parts of one size are the same. -/
theorem append_inj_of_size {a b c d : Text} (h : a ++ b = c ++ d) (hsize : size a = size c) :
    a = c ∧ b = d := by
  obtain ⟨middle, hc, hb⟩ := exists_middle h hsize.le
  have hmiddle : middle = [] := by
    apply eq_nil_of_size_eq_zero
    rw [hc, size_append] at hsize
    omega
  subst hmiddle
  exact ⟨by simpa using hc.symm, by simpa using hb⟩

/-- What is cut out of a text between two cuts around it is in the part between these. -/
theorem exists_inside {front inside back before blank after : Text}
    (h : front ++ inside ++ back = before ++ blank ++ after) (hstart : size front ≤ size before)
    (hstop : size (before ++ blank) ≤ size (front ++ inside)) :
    ∃ first second, before = front ++ first ∧ inside = first ++ blank ++ second
      ∧ after = second ++ back := by
  obtain ⟨second, hfront, hafter⟩ := exists_middle h.symm hstop
  rw [List.append_assoc] at hfront
  obtain ⟨first, hbefore, hinside⟩ := exists_middle hfront hstart
  exact ⟨first, second, hbefore, by rw [hinside, List.append_assoc], hafter⟩

/-! ## Cuts -/

theorem splitAt?_append (before after : Text) :
    splitAt? (size before) (before ++ after) = some (before, after) := by
  induction before with
  | nil => simp [size, splitAt?]
  | cons c rest ih =>
    obtain ⟨n, hn⟩ : ∃ n, size (c :: rest) = n + 1 :=
      Nat.exists_eq_succ_of_ne_zero fun hzero => by cases eq_nil_of_size_eq_zero hzero
    have hsub : n + 1 - c.utf8Size = size rest := by
      rw [← hn, size]
      omega
    have hle : c.utf8Size ≤ n + 1 := by
      rw [← hn, size]
      omega
    rw [hn, List.cons_append, splitAt?, if_pos hle, hsub, ih]
    rfl

theorem isBoundary_iff {text : Text} {offset : Nat} :
    text.isBoundary offset = true ↔ ∃ before after, text = before ++ after
      ∧ size before = offset := by
  constructor
  · intro h
    obtain ⟨⟨before, after⟩, hsplit⟩ := Option.isSome_iff_exists.1 h
    obtain ⟨happend, hsize⟩ := append_of_splitAt? hsplit
    exact ⟨before, after, happend.symm, hsize⟩
  · rintro ⟨before, after, rfl, rfl⟩
    rw [isBoundary, splitAt?_append]
    rfl

theorem isBoundary_append (before after : Text) :
    (before ++ after).isBoundary (size before) = true :=
  isBoundary_iff.2 ⟨before, after, rfl, rfl⟩

theorem isBoundary_floorBoundary (offset : Nat) (text : Text) :
    text.isBoundary (floorBoundary offset text) = true := by
  rw [isBoundary_iff]
  induction text generalizing offset with
  | nil => exact ⟨[], [], rfl, rfl⟩
  | cons c rest ih =>
    rw [floorBoundary]
    split
    · obtain ⟨before, after, happend, hsize⟩ := ih (offset - c.utf8Size)
      exact ⟨c :: before, after, by rw [happend, List.cons_append], by rw [size, hsize]⟩
    · exact ⟨[], c :: rest, rfl, rfl⟩

theorem floorBoundary_append (before after : Text) :
    floorBoundary (size before) (before ++ after) = size before := by
  induction before with
  | nil =>
    cases after with
    | nil => rfl
    | cons c rest =>
      have hpos := c.utf8Size_pos
      rw [List.nil_append, size, floorBoundary, if_neg (by omega)]
  | cons c rest ih =>
    rw [List.cons_append, size, floorBoundary, if_pos (by omega), Nat.add_sub_cancel_left, ih]

/-- A caret on a boundary is left where it is. -/
theorem floorBoundary_of_isBoundary {text : Text} {offset : Nat}
    (h : text.isBoundary offset = true) : floorBoundary offset text = offset := by
  obtain ⟨before, after, rfl, rfl⟩ := isBoundary_iff.1 h
  exact floorBoundary_append before after

/-- A text goes on with a part at an offset. -/
theorem matchesAt_iff {text part : Text} {offset : Nat} :
    text.matchesAt offset part = true
      ↔ ∃ before after, text = before ++ part ++ after ∧ size before = offset := by
  constructor
  · intro h
    unfold matchesAt at h
    split at h
    · next before after hsplit =>
      obtain ⟨happend, hsize⟩ := append_of_splitAt? hsplit
      obtain ⟨rest, rfl⟩ := List.isPrefixOf_iff_prefix.1 h
      exact ⟨before, rest, by rw [← happend, List.append_assoc], hsize⟩
    · cases h
  · rintro ⟨before, after, rfl, rfl⟩
    rw [List.append_assoc, matchesAt, splitAt?_append]
    exact List.isPrefixOf_iff_prefix.2 (List.prefix_append _ _)

/-- A cut that does not part a carriage return from the line feed that goes with it. -/
def KeepsReturns (before after : Text) : Prop :=
  before.getLast? = some '\r' → after.head? ≠ some '\n'

end StatementCompletion.Text
