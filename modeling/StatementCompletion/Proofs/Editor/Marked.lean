import StatementCompletion.Editor.Operation
import StatementCompletion.Proofs.Editor.Frame

/-!
# Markers follow their text

A marker is on a part of the text.  An edit beside it leaves that part as it is, and the marker is
on it afterwards: what is in front may be replaced up to the very start of the marker and what is
behind from its very stop on, and what is inserted at either end stays outside.  An edit inside the
marker changes the part there and nowhere else.

`Editor.Marks` is the invariant.  What one edit does to it is `Marks.replace_beside` and
`Marks.exists_of_replace_inside`; that it holds on through any number of edits beside the
marker is an induction on these.
-/

namespace StatementCompletion

/-! ## Edits beside a marker and inside it -/

namespace Span

/-- A span beside another one: it stops where the other one starts or before, or starts where that
stops or behind. -/
def IsBeside (span other : Span) : Prop :=
  span.stop ≤ other.start ∨ other.stop ≤ span.start

instance (span other : Span) : Decidable (span.IsBeside other) :=
  inferInstanceAs (Decidable (_ ∨ _))

/-- A span inside a marker that is no place for an insertion at one of its ends. -/
structure IsInside (span marker : Span) : Prop where
  start : marker.start ≤ span.start
  stop : span.stop ≤ marker.stop
  interior : span.start = span.stop → marker.start < span.start ∧ span.stop < marker.stop

end Span

namespace Editor

/-- Edits to be applied in turn, each of them beside the marker of a slot when its turn comes. -/
def AllBeside (slot : Nat) : Editor → List TextEdit → Prop
  | _, [] => True
  | e, edit :: rest =>
    (∀ marker ∈ e.marker? slot, edit.span.IsBeside marker)
      ∧ AllBeside slot (e.attempt (e.replace edit.span edit.text)) rest

instance decidableAllBeside (slot : Nat) : (e : Editor) → (edits : List TextEdit) →
    Decidable (AllBeside slot e edits)
  | _, [] => .isTrue trivial
  | e, edit :: rest =>
    @instDecidableAnd _ _ _
      (decidableAllBeside slot (e.attempt (e.replace edit.span edit.text)) rest)

/-! ## The invariant -/

/-- The marker of a slot is on a part of the text. -/
def Marks (e : Editor) (slot : Nat) (marked : Text) : Prop :=
  ∃ front back, e.text = front ++ marked ++ back ∧ e.marker? slot = some (.behind front marked)

variable {e e' : Editor} {slot : Nat} {marker span : Span} {marked new : Text}

/-- A marker on a good span is on a part of the text, the one that the document has there. -/
theorem exists_marks (hmarker : e.marker? slot = some marker) (hfits : marker.Fits e.text) :
    ∃ marked, e.document.slice marker = .ok marked ∧ e.Marks slot marked := by
  obtain ⟨front, marked, back, htext, hspan⟩ :=
    Text.exists_behind hfits.start hfits.stop hfits.le
  have hbehind : marker = .behind front marked := hspan
  refine ⟨marked, ?_, front, back, htext, ?_⟩
  · rw [hbehind]
    exact Document.slice_append htext
  · rw [hmarker, hbehind]

theorem Marks.exists_slice (h : e.Marks slot marked) :
    ∃ marker, e.marker? slot = some marker ∧ e.document.slice marker = .ok marked := by
  obtain ⟨front, back, htext, hmarker⟩ := h
  exact ⟨_, hmarker, Document.slice_append htext⟩

/-! ## One edit -/

/-- An edit beside a marker leaves what is marked. -/
theorem Marks.replace_beside (h : e.Marks slot marked) (hreplace : e.replace span new = .ok e')
    (hbeside : ∀ marker ∈ e.marker? slot, span.IsBeside marker) : e'.Marks slot marked := by
  obtain ⟨front, back, htext, hmarker⟩ := h
  obtain ⟨before, inside, after, hparts, rfl, htext', -, hmarkers, -⟩ := parts_of_replace hreplace
  have hmoved : e'.marker? slot
      = some ((Span.behind before inside).carryMarker new.size (.behind front marked)) := by
    rw [marker?_map hmarkers, hmarker]
    rfl
  have hsame : before ++ inside ++ after = front ++ marked ++ back := hparts.symm.trans htext
  by_cases hfront : (before ++ inside).size ≤ front.size
  · -- the edit is in front, and so the marker is found behind the new text
    rw [List.append_assoc front] at hsame
    obtain ⟨middle, rfl, rfl⟩ := Text.exists_middle hsame hfront
    refine ⟨before ++ new ++ middle, back, ?_, ?_⟩
    · rw [htext']
      simp only [List.append_assoc]
    · rw [hmoved, Span.behind, Span.behind, Span.behind, Span.carryMarker_of_stop_le (by omega)
        (by simp only [Text.size_append]; omega) (by omega)]
      simp only [Text.size_append, Option.some.injEq, Span.mk.injEq]
      omega
  · -- the edit is behind, also where it starts at the stop of an empty marker
    have hback : (front ++ marked).size ≤ before.size := by
      have hcases := hbeside _ hmarker
      simp only [Span.IsBeside, Span.behind] at hcases
      simp only [Text.size_append] at hfront ⊢
      omega
    obtain ⟨middle, rfl, rfl⟩ := Text.exists_middle (hsame.symm.trans (List.append_assoc ..)) hback
    refine ⟨front, middle ++ new ++ after, ?_, ?_⟩
    · rw [htext']
      simp only [List.append_assoc]
    · rw [hmoved]
      simp only [Text.size_append] at hfront
      simp only [Span.behind, Text.size_append]
      rw [Span.carryMarker_of_le_start (by omega) (by omega) (by omega)]

/-- An edit inside a marker changes what is marked as it changes the text. -/
theorem Marks.exists_of_replace_inside (h : e.Marks slot marked)
    (hmarker : e.marker? slot = some marker) (hreplace : e.replace span new = .ok e')
    (hinside : span.IsInside marker) :
    ∃ first inside second, marked = first ++ inside ++ second
      ∧ span = ⟨marker.start + first.size, marker.start + first.size + inside.size⟩
      ∧ e'.Marks slot (first ++ new ++ second) := by
  obtain ⟨front, back, htext, hbehind⟩ := h
  obtain rfl : marker = .behind front marked := Option.some.inj (hmarker.symm.trans hbehind)
  obtain ⟨before, inside, after, hparts, rfl, htext', -, hmarkers, -⟩ := parts_of_replace hreplace
  have hstart : front.size ≤ before.size := hinside.start
  have hstop : (before ++ inside).size ≤ (front ++ marked).size := by
    have hle := hinside.stop
    simp only [Span.behind] at hle
    simpa only [Text.size_append] using hle
  obtain ⟨first, second, rfl, rfl, rfl⟩ :=
    Text.exists_inside (htext.symm.trans hparts) hstart hstop
  refine ⟨first, inside, second, rfl, by rw [Span.behind, Text.size_append]; rfl,
    front, back, ?_, ?_⟩
  · rw [htext']
    simp only [List.append_assoc]
  · -- an insertion has something of the marker on both sides, and a part that goes is not empty
    have hinterior := hinside.interior
    simp only [Span.behind, Text.size_append] at hinterior
    rw [marker?_map hmarkers, hmarker, Option.map_some]
    simp only [Span.behind, Text.size_append]
    rw [Span.carryMarker_of_inside (by omega) (by omega) (by omega) (by omega) (by omega)]
    simp only [Option.some.injEq, Span.mk.injEq, true_and]
    omega

/-! ## Any number of edits -/

/-- What is marked stays through edits beside the marker. -/
theorem Marks.applyInTurn (h : e.Marks slot marked) {edits : List TextEdit}
    (hbeside : AllBeside slot e edits) (hrun : applyInTurn edits e = (e', .ok ())) :
    e'.Marks slot marked := by
  induction edits generalizing e with
  | nil =>
    obtain ⟨rfl, -⟩ := Prod.mk.inj hrun
    exact h
  | cons edit rest ih =>
    obtain ⟨hedit, hrest⟩ := hbeside
    rw [Editor.applyInTurn] at hrun
    cases hreplace : e.replace edit.span edit.text with
    | ok e₁ =>
      rw [hreplace] at hrun hrest
      exact ih (h.replace_beside hreplace hedit) hrest hrun
    | error reason =>
      rw [hreplace] at hrun
      cases (Prod.mk.inj hrun).2

/-- **A marker follows its text.**  A marker on a good span is on a part of the text.  After any
edits that are not refused, each of them beside the marker as it is when the turn of the edit comes,
the marker is on that same part.  An edit inside the marker that is not refused puts its text in the
place of the piece of the part that it replaces. -/
theorem marker_follows_text (hmarker : e.marker? slot = some marker)
    (hfits : marker.Fits e.text) :
    ∃ marked, e.document.slice marker = .ok marked
      ∧ (∀ edits e', AllBeside slot e edits → Editor.applyInTurn edits e = (e', .ok ()) →
          ∃ marker', e'.marker? slot = some marker' ∧ e'.document.slice marker' = .ok marked)
      ∧ ∀ span new e', e.replace span new = .ok e' → span.IsInside marker →
          ∃ first inside second, marked = first ++ inside ++ second
            ∧ span = ⟨marker.start + first.size, marker.start + first.size + inside.size⟩
            ∧ ∃ marker', e'.marker? slot = some marker'
              ∧ e'.document.slice marker' = .ok (first ++ new ++ second) := by
  obtain ⟨marked, hslice, hmarks⟩ := exists_marks hmarker hfits
  refine ⟨marked, hslice, ?_, ?_⟩
  · intro edits e' hbeside hrun
    exact (hmarks.applyInTurn hbeside hrun).exists_slice
  · intro span new e' hreplace hinside
    obtain ⟨first, inside, second, hmarked, hspan, hmarks'⟩ :=
      hmarks.exists_of_replace_inside hmarker hreplace hinside
    exact ⟨first, inside, second, hmarked, hspan, hmarks'.exists_slice⟩

/-- A marker with a letter of two bytes: something is inserted at its start, the text in front is
deleted up to the start, and something is inserted at the stop.  Then its
first letter is replaced. -/
theorem marker_follows_text_of_umlaut :
    let e := ((ofText ['a', 'b', 'ü', 'c']).mark ⟨1, 4⟩).1
    let edits : List TextEdit := [.insertion 1 ['x'], ⟨⟨0, 2⟩, []⟩, .insertion 3 ['y']]
    let e' := (Editor.applyInTurn edits e).1
    e.marker? 0 = some ⟨1, 4⟩ ∧ (⟨1, 4⟩ : Span).Fits e.text ∧ AllBeside 0 e edits
      ∧ Editor.applyInTurn edits e = (e', .ok ()) ∧ e'.text = ['b', 'ü', 'y', 'c']
      ∧ (⟨1, 2⟩ : Span).IsInside ⟨1, 4⟩
      ∧ (∃ marker, e'.marker? 0 = some marker ∧ e'.document.slice marker = .ok ['b', 'ü'])
      ∧ ∃ e₂, e.replace ⟨1, 2⟩ ['z', 'z'] = .ok e₂ ∧ e₂.text = ['a', 'z', 'z', 'ü', 'c']
        ∧ ∃ first inside second, ['b', 'ü'] = first ++ inside ++ second
          ∧ ∃ marker, e₂.marker? 0 = some marker
            ∧ e₂.document.slice marker = .ok (first ++ ['z', 'z'] ++ second) := by
  intro e edits e'
  have hmarker : e.marker? 0 = some ⟨1, 4⟩ := rfl
  have hfits : (⟨1, 4⟩ : Span).Fits e.text := by decide
  have hbeside : AllBeside 0 e edits := by decide
  have hinside : (⟨1, 2⟩ : Span).IsInside ⟨1, 4⟩ := ⟨by decide, by decide, by decide⟩
  obtain ⟨marked, hslice, hedits, hreplaced⟩ := marker_follows_text hmarker hfits
  obtain rfl : ['b', 'ü'] = marked := Except.ok.inj hslice
  refine ⟨hmarker, hfits, hbeside, rfl, rfl, hinside, hedits edits e' hbeside rfl, ?_⟩
  obtain ⟨first, inside, second, hmarked, -, hmarks⟩ :=
    hreplaced ⟨1, 2⟩ ['z', 'z'] _ rfl hinside
  exact ⟨_, rfl, rfl, first, inside, second, hmarked, hmarks⟩

end Editor

end StatementCompletion
