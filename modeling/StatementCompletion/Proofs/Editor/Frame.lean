import Mathlib.Data.List.Induction
import Mathlib.Order.MinMax
import StatementCompletion.Proofs.Editor.Newline

/-!
# What edits spare

An edit moves markers, but it takes none away, and a marker on a good span of the text before is
on a good span of the text after it.  `Editor.Spares` says this of two editors, together with
the notes being the same; it is what all the ways to change a text have in common, whether they
are refused in the middle or not.

A marker that comes and goes in the meantime leaves no trace either, because it gets a
slot behind all others.  For this there must be no free slot at the end, and there
never is one: `Editor.IsCompact`.
-/

namespace StatementCompletion

/-! ## Spans that fit a text -/

/-- A span from the edge of a character of a text to another one that is not before it. -/
structure Span.Fits (span : Span) (text : Text) : Prop where
  le : span.start ≤ span.stop
  start : text.isBoundary span.start = true
  stop : text.isBoundary span.stop = true

instance (span : Span) (text : Text) : Decidable (span.Fits text) :=
  decidable_of_iff (span.start ≤ span.stop ∧ text.isBoundary span.start = true
      ∧ text.isBoundary span.stop = true)
    ⟨fun ⟨hle, hstart, hstop⟩ => ⟨hle, hstart, hstop⟩, fun h => ⟨h.le, h.start, h.stop⟩⟩

theorem Text.le_size_of_isBoundary {text : Text} {offset : Nat}
    (h : text.isBoundary offset = true) : offset ≤ text.size := by
  obtain ⟨before, after, rfl, rfl⟩ := Text.isBoundary_iff.1 h
  rw [Text.size_append]
  exact Nat.le_add_right _ _

/-- A marker on a span that fits is carried to a span that fits.  Where its stop would come in front
of its start, it is empty. -/
theorem Span.Fits.carryMarker {before inside after : Text} (new : Text) {marker : Span}
    (h : marker.Fits (before ++ inside ++ after)) :
    ((Span.behind before inside).carryMarker new.size marker).Fits (before ++ new ++ after) := by
  have hstart : (before ++ new ++ after).isBoundary
      ((Span.behind before inside).carryMarker new.size marker).start = true := by
    unfold Span.carryMarker
    dsimp only
    split
    · next hinsertion =>
      -- what is inserted at the start of the marker stays in front of it
      rw [hinsertion.2, Span.behind, ← Text.size_append]
      exact Text.isBoundary_append _ _
    · exact Editor.isBoundary_carry new h.start
  refine ⟨Nat.le_max_right _ _, hstart, ?_⟩
  exact max_rec' (fun offset => (before ++ new ++ after).isBoundary offset = true)
    (Editor.isBoundary_carry new h.stop) hstart

/-! ## Edits that are not refused -/

/-- What is not refused was not refused in its first part. -/
theorem exists_of_bind_ok {ε α β : Type} {p : Except ε α} {f : α → Except ε β} {b : β}
    (h : p >>= f = .ok b) : ∃ a, p = .ok a ∧ f a = .ok b := by
  cases p with
  | error reason => cases h
  | ok a => exact ⟨a, rfl, h⟩

namespace Document

variable {d d' : Document} {span : Span}

theorem append_of_splitAt {offset : Nat} {before after : Text}
    (h : d.splitAt offset = .ok (before, after)) :
    d.text = before ++ after ∧ before.size = offset := by
  unfold splitAt at h
  split at h
  · cases h
  · split at h
    · next parts hsplit =>
      cases h
      exact (Text.append_of_splitAt? hsplit).imp_left Eq.symm
    · cases h

/-- A span that is not refused cuts the text in three parts. -/
theorem append_of_cut {before inside after : Text} (h : d.cut span = .ok (before, inside, after)) :
    d.text = before ++ inside ++ after ∧ span = .behind before inside := by
  unfold cut at h
  split at h
  · cases h
  · next hle =>
    obtain ⟨⟨front, rest⟩, hstart, h⟩ := exists_of_bind_ok h
    obtain ⟨⟨upTo, back⟩, hstop, h⟩ := exists_of_bind_ok h
    cases h
    obtain ⟨hfront, hsize⟩ := append_of_splitAt hstart
    obtain ⟨hupTo, hsize'⟩ := append_of_splitAt hstop
    obtain ⟨middle, rfl, -⟩ := Text.exists_middle (hfront.symm.trans hupTo)
      (by rw [hsize, hsize']; exact Nat.le_of_not_lt hle)
    rw [List.drop_left]
    refine ⟨hupTo, ?_⟩
    rw [Text.size_append] at hsize'
    rw [Span.behind, hsize', hsize]

end Document

namespace Editor

variable {e e' e'' : Editor}

/-- An edit that is not refused takes the place of a part of the text. -/
theorem parts_of_replace {span : Span} {new : Text} (h : e.replace span new = .ok e') :
    ∃ before inside after, e.text = before ++ inside ++ after ∧ span = .behind before inside
      ∧ e'.text = before ++ new ++ after ∧ e'.caret = span.carry new.size e.caret
      ∧ e'.markers = e.markers.map (Option.map (span.carryMarker new.size))
      ∧ e'.notes = e.notes := by
  cases hcut : e.document.cut span with
  | error reason =>
    rw [replace, Document.replace, hcut] at h
    cases h
  | ok parts =>
    obtain ⟨htext, rfl⟩ := Document.append_of_cut hcut
    obtain ⟨d, hreplace, hd, -⟩ := replace_append (e := e) htext new
    rw [hreplace] at h
    cases h
    exact ⟨_, _, _, htext, rfl, hd, rfl, rfl, rfl⟩

/-! ## Sparing -/

/-- What happens between two editors takes away no note and no marker, and where a marker's span
fits the text before, it fits the text after. -/
structure Spares (e e' : Editor) : Prop where
  notes : e'.notes = e.notes
  slots : e'.markers.map Option.isSome = e.markers.map Option.isSome
  fits : ∀ slot span, e.marker? slot = some span → span.Fits e.text →
    ∃ span', e'.marker? slot = some span' ∧ span'.Fits e'.text

theorem Spares.refl (e : Editor) : e.Spares e :=
  ⟨rfl, rfl, fun _ span hspan hfits => ⟨span, hspan, hfits⟩⟩

theorem Spares.trans (h : e.Spares e') (h' : e'.Spares e'') : e.Spares e'' := by
  refine ⟨h'.notes.trans h.notes, h'.slots.trans h.slots, fun slot span hspan hfits => ?_⟩
  obtain ⟨span', hspan', hfits'⟩ := h.fits slot span hspan hfits
  exact h'.fits slot span' hspan' hfits'

/-- The same slots are in use. -/
theorem Spares.isSome_marker? (h : e.Spares e') (slot : Nat) :
    (e'.marker? slot).isSome = (e.marker? slot).isSome := by
  have hslot (e : Editor) :
      (e.marker? slot).isSome = (e.markers.map Option.isSome)[slot]?.getD false := by
    rw [marker?, List.getElem?_map]
    cases e.markers[slot]? <;> rfl
  rw [hslot, hslot, h.slots]

theorem spares_replace {span : Span} {new : Text} (h : e.replace span new = .ok e') :
    e.Spares e' := by
  obtain ⟨before, inside, after, htext, rfl, htext', -, hmarkers, hnotes⟩ := parts_of_replace h
  refine ⟨hnotes, ?_, fun slot marker hmarker hfits => ?_⟩
  · rw [hmarkers, List.map_map]
    exact List.map_congr_left fun marker _ => Option.isSome_map
  · refine ⟨_, by rw [marker?_map hmarkers, hmarker]; rfl, ?_⟩
    rw [htext']
    exact (htext ▸ hfits).carryMarker new

theorem spares_moveCaret (e : Editor) (offset : Nat) : e.Spares (e.moveCaret offset) :=
  ⟨rfl, rfl, fun _ span hspan hfits => ⟨span, hspan, hfits⟩⟩

/-- A batch spares the same, even if one of its edits is refused. -/
theorem spares_applyInTurn (edits : List TextEdit) (e : Editor) :
    e.Spares (applyInTurn edits e).1 := by
  induction edits generalizing e with
  | nil => exact .refl e
  | cons edit rest ih =>
    rw [applyInTurn]
    split
    · next e' hreplace => exact (spares_replace hreplace).trans (ih e')
    · exact .refl e

theorem spares_applyEdits (e : Editor) (edits : List TextEdit) :
    e.Spares (e.applyEdits edits).1 :=
  spares_applyInTurn _ e

/-- Breaking the line is one edit and a move of the caret. -/
theorem exists_replace_of_breakLine {style : CodeStyle} (h : e.breakLine style = .ok e') :
    ∃ span new broken offset, e.replace span new = .ok broken ∧ e' = broken.moveCaret offset := by
  obtain ⟨before, -, h⟩ := exists_of_bind_ok h
  obtain ⟨after, -, h⟩ := exists_of_bind_ok h
  obtain ⟨broken, hbroken, h⟩ := exists_of_bind_ok h
  cases h
  exact ⟨_, _, broken, _, hbroken, rfl⟩

theorem spares_breakLine {style : CodeStyle} (h : e.breakLine style = .ok e') : e.Spares e' := by
  obtain ⟨span, new, broken, offset, hbroken, rfl⟩ := exists_replace_of_breakLine h
  exact (spares_replace hbroken).trans (spares_moveCaret broken offset)

theorem spares_openLine {style : CodeStyle} (h : e.openLine style = .ok e') : e.Spares e' :=
  (spares_moveCaret e _).trans (spares_breakLine h)

/-! ## Markers that come and go -/

/-- There is no free slot at the end. -/
def IsCompact (e : Editor) : Prop :=
  e.markers.getLast? ≠ some none

instance (e : Editor) : Decidable e.IsCompact :=
  inferInstanceAs (Decidable (_ ≠ _))

theorem isCompact_iff : e.IsCompact ↔ (e.markers.map Option.isSome).getLast? ≠ some false := by
  rw [IsCompact, List.getLast?_map]
  rcases e.markers.getLast? with _ | _ | span <;> simp

theorem Spares.isCompact (h : e.Spares e') (hcompact : e.IsCompact) : e'.IsCompact := by
  rw [isCompact_iff] at hcompact ⊢
  rwa [h.slots]

theorem dropFree_concat_none (markers : List (Option Span)) :
    dropFree (markers ++ [none]) = dropFree markers := by
  induction markers with
  | nil => rfl
  | cons marker rest ih => simp only [List.cons_append, dropFree, ih]

theorem dropFree_concat_some (markers : List (Option Span)) (span : Span) :
    dropFree (markers ++ [some span]) = markers ++ [some span] := by
  induction markers with
  | nil => rfl
  | cons marker rest ih =>
    -- what is behind is not empty, so the slot in front stays whether it is free or not
    rw [List.cons_append, dropFree, ih]
    simp [ih]

/-- Slots without free ones at the end lose nothing. -/
theorem dropFree_eq_self {markers : List (Option Span)} (h : markers.getLast? ≠ some none) :
    dropFree markers = markers := by
  induction markers using List.reverseRecOn with
  | nil => rfl
  | append_singleton front marker _ =>
    cases marker with
    | none => exact absurd List.getLast?_concat h
    | some span => exact dropFree_concat_some front span

/-- No free slot is left at the end. -/
theorem getLast?_dropFree (markers : List (Option Span)) :
    (dropFree markers).getLast? ≠ some none := by
  induction markers using List.reverseRecOn with
  | nil => simp [dropFree]
  | append_singleton front marker ih =>
    cases marker with
    | none => rwa [dropFree_concat_none]
    | some span => rw [dropFree_concat_some, List.getLast?_concat]; simp

theorem join_getElem?_dropFree (markers : List (Option Span)) (slot : Nat) :
    (dropFree markers)[slot]?.join = markers[slot]?.join := by
  induction markers using List.reverseRecOn with
  | nil => rfl
  | append_singleton front marker ih =>
    cases marker with
    | some span => rw [dropFree_concat_some]
    | none =>
      -- a free slot is as good as none
      rw [dropFree_concat_none, ih, List.getElem?_append]
      split
      · rfl
      · next hle =>
        rw [List.getElem?_eq_none (Nat.le_of_not_lt hle)]
        cases slot - front.length <;> rfl

/-- A released marker is gone, and the others are where they were. -/
theorem marker?_release (e : Editor) (released slot : Nat) :
    (e.release released).marker? slot = if released = slot then none else e.marker? slot := by
  rw [marker?, release, join_getElem?_dropFree, List.getElem?_set]
  split
  · split <;> rfl
  · rfl

theorem isCompact_release (e : Editor) (slot : Nat) : (e.release slot).IsCompact :=
  getLast?_dropFree _

theorem isCompact_mark (e : Editor) (span : Span) : (e.mark span).1.IsCompact := by
  unfold IsCompact mark
  rw [List.getLast?_concat]
  simp

theorem lt_length_of_marker? {slot : Nat} {marked : Span} (h : e.marker? slot = some marked) :
    slot < e.markers.length := by
  by_contra hle
  rw [marker?, List.getElem?_eq_none (Nat.le_of_not_lt hle)] at h
  cases h

theorem marker?_mark {slot : Nat} {marked : Span} (h : e.marker? slot = some marked) (span : Span) :
    (e.mark span).1.marker? slot = some marked := by
  rwa [marker?, mark, List.getElem?_append_left (lt_length_of_marker? h)]

theorem marker?_mark_self (e : Editor) (span : Span) :
    (e.mark span).1.marker? e.markers.length = some span := by
  simp [marker?, mark]

/-- A marker that came and is released leaves the others as what happened in between left them. -/
theorem Spares.release_mark {span : Span} (h : (e.mark span).1.Spares e') (hcompact : e.IsCompact) :
    e.Spares (e'.release (e.mark span).2) := by
  -- the slots are those of before and the new one behind them
  have hslots : e'.markers.map Option.isSome = e.markers.map Option.isSome ++ [true] := by
    simpa [mark] using h.slots
  obtain ⟨front, back, hmarkers, hfront, hback⟩ := List.map_eq_append_iff.1 hslots
  obtain ⟨marker, rfl, -⟩ := List.map_eq_singleton_iff.1 hback
  have hlength : front.length = e.markers.length := by simpa using congrArg List.length hfront
  have hreleased : (e'.release (e.mark span).2).markers = front := by
    have hset : e'.markers.set e.markers.length none = front ++ [none] := by
      rw [hmarkers, ← hlength, List.set_append_right _ _ (Nat.le_refl _), Nat.sub_self]
      rfl
    rw [release, mark, hset, dropFree_concat_none]
    refine dropFree_eq_self fun hlast => isCompact_iff.1 hcompact ?_
    rw [← hfront, List.getLast?_map, hlast]
    rfl
  refine ⟨h.notes, by rw [hreleased, hfront], fun slot marked hmarked hfits => ?_⟩
  obtain ⟨moved, hmoved, hfits'⟩ := h.fits slot marked (marker?_mark hmarked span) hfits
  refine ⟨moved, ?_, hfits'⟩
  have hne : (e.mark span).2 ≠ slot := by
    rintro rfl
    rw [marker?, mark, List.getElem?_eq_none (Nat.le_refl _)] at hmarked
    cases hmarked
  rwa [marker?_release, if_neg hne]

/-! ## Notes -/

theorem lookup_filter_ne (notes : List (String × Note)) (name other : String) :
    (notes.filter (·.1 ≠ name)).lookup other
      = if other = name then none else notes.lookup other := by
  induction notes with
  | nil => simp
  | cons note rest ih =>
    obtain ⟨key, value⟩ := note
    by_cases hkey : key = name
    · subst hkey
      rw [List.filter_cons_of_neg (by simp), ih, List.lookup_cons]
      split
      · rfl
      · next hne => rw [beq_eq_false_iff_ne.2 hne]
    · rw [List.filter_cons_of_pos (by simpa using hkey), List.lookup_cons, List.lookup_cons, ih]
      by_cases hother : other = key
      · subst hother
        simp [hkey]
      · simp [beq_eq_false_iff_ne.2 hother]

/-- A forgotten note is gone, and the others are as they were. -/
theorem note?_forgetNote (e : Editor) (name other : String) :
    (e.forgetNote name).note? other = if other = name then none else e.note? other :=
  lookup_filter_ne e.notes name other

/-- A note that is kept takes the place of what had its name, and no other note is touched. -/
theorem note?_keepNote (e : Editor) (name : String) (note : Note) (other : String) :
    (e.keepNote name note).note? other = if other = name then some note else e.note? other := by
  rw [note?, keepNote, List.lookup_cons, lookup_filter_ne]
  by_cases hother : other = name
  · simp [hother]
  · simp [hother, beq_eq_false_iff_ne.2 hother, note?]

end Editor

end StatementCompletion
