import StatementCompletion.Editor.Operation
import StatementCompletion.Proofs.Editor.Frame

/-!
# Positions are good

The caret of an editor and the ends of its markers are offsets where the text can be cut, whatever
has been done to the editor and whatever of it was refused, as long as only spans were marked that
fit the text of the moment.  What one operation preserves is `IsPlaced.perform`; that it holds after
any number of them is an induction on the operations.
-/

namespace StatementCompletion

/-- An operation that marks a span marks one that fits the text of an editor. -/
def Operation.MarksFitting (e : Editor) : Operation → Prop
  | .mark span => span.Fits e.text
  | _ => True

instance (e : Editor) : DecidablePred (Operation.MarksFitting e)
  | .mark span => inferInstanceAs (Decidable (span.Fits e.text))
  | .replace .. | .insert .. | .delete _ | .applyEdits _ | .moveCaret _ | .breakLine _ | .openLine _
  | .release _ | .keepNote .. | .forgetNote _ => .isTrue trivial

namespace Editor

variable {e e' : Editor}

/-- Whatever is marked by some operations fits the text of the moment. -/
def AllMarksFit : Editor → List Operation → Prop
  | _, [] => True
  | e, operation :: rest => operation.MarksFitting e ∧ AllMarksFit (e.perform operation) rest

instance decidableAllMarksFit : (e : Editor) → (operations : List Operation) →
    Decidable (AllMarksFit e operations)
  | _, [] => .isTrue trivial
  | e, operation :: rest =>
    @instDecidableAnd _ _ _ (decidableAllMarksFit (e.perform operation) rest)

/-! ## The invariant -/

/-- The caret is on the edge of a character and the spans of the markers fit the text. -/
structure IsPlaced (e : Editor) : Prop where
  caret : e.text.isBoundary e.caret = true
  markers : ∀ slot span, e.marker? slot = some span → span.Fits e.text

theorem isPlaced_ofText (text : Text) : (ofText text).IsPlaced :=
  ⟨Text.isBoundary_iff.2 ⟨[], text, rfl, rfl⟩, fun _ _ hspan => by cases hspan⟩

/-! ## What edits preserve -/

/-- What spares the markers leaves no bad one behind. -/
theorem IsPlaced.spares (h : e.IsPlaced) (hspares : e.Spares e')
    (hcaret : e'.text.isBoundary e'.caret = true) : e'.IsPlaced := by
  refine ⟨hcaret, fun slot span' hspan' => ?_⟩
  have hsome : (e.marker? slot).isSome := by
    rw [← hspares.isSome_marker?, hspan']
    rfl
  obtain ⟨span, hspan⟩ := Option.isSome_iff_exists.1 hsome
  obtain ⟨moved, hmoved, hfits⟩ := hspares.fits slot span hspan (h.markers slot span hspan)
  rw [hspan'] at hmoved
  cases hmoved
  exact hfits

theorem IsPlaced.replace (h : e.IsPlaced) {span : Span} {new : Text}
    (hreplace : e.replace span new = .ok e') : e'.IsPlaced := by
  refine h.spares (spares_replace hreplace) ?_
  obtain ⟨before, inside, after, htext, rfl, htext', hcaret, -⟩ := parts_of_replace hreplace
  rw [htext', hcaret]
  exact isBoundary_carry new (htext ▸ h.caret)

theorem IsPlaced.moveCaret (h : e.IsPlaced) (offset : Nat) : (e.moveCaret offset).IsPlaced :=
  h.spares (spares_moveCaret e offset) (Text.isBoundary_floorBoundary offset e.text)

theorem IsPlaced.breakLine (h : e.IsPlaced) {style : CodeStyle}
    (hbreak : e.breakLine style = .ok e') : e'.IsPlaced := by
  obtain ⟨span, new, broken, offset, hbroken, rfl⟩ := exists_replace_of_breakLine hbreak
  exact (h.replace hbroken).moveCaret offset

/-- What is edited in turn stays good up to the first edit that is refused, and that one changes
nothing. -/
theorem IsPlaced.applyInTurn (h : e.IsPlaced) (edits : List TextEdit) :
    (applyInTurn edits e).1.IsPlaced := by
  induction edits generalizing e with
  | nil => exact h
  | cons edit rest ih =>
    rw [Editor.applyInTurn]
    split
    · next e' hreplace => exact ih (h.replace hreplace)
    · exact h

theorem IsPlaced.attempt (h : e.IsPlaced) {change : Except EditError Editor}
    (hchange : ∀ e', change = .ok e' → e'.IsPlaced) : (e.attempt change).IsPlaced := by
  cases change with
  | ok e' => exact hchange e' rfl
  | error reason => exact h

/-! ## What marking and releasing preserve -/

theorem IsPlaced.mark (h : e.IsPlaced) {span : Span} (hfits : span.Fits e.text) :
    (e.mark span).1.IsPlaced := by
  refine ⟨h.caret, fun slot marked hmarked => ?_⟩
  rw [marker?, Editor.mark, List.getElem?_append] at hmarked
  split at hmarked
  · exact h.markers slot marked hmarked
  · -- only the slot behind all others is new
    cases hslot : slot - e.markers.length with
    | zero =>
      rw [hslot] at hmarked
      cases hmarked
      exact hfits
    | succ n =>
      rw [hslot] at hmarked
      cases hmarked

theorem IsPlaced.release (h : e.IsPlaced) (released : Nat) : (e.release released).IsPlaced := by
  refine ⟨h.caret, fun slot span hspan => ?_⟩
  rw [marker?_release] at hspan
  split at hspan
  · cases hspan
  · exact h.markers slot span hspan

/-! ## Operations -/

/-- One operation leaves good positions. -/
theorem IsPlaced.perform (h : e.IsPlaced) {operation : Operation}
    (hmarks : operation.MarksFitting e) : (e.perform operation).IsPlaced := by
  cases operation with
  | replace span text => exact h.attempt fun _ hreplace => h.replace hreplace
  | insert offset text => exact h.attempt fun _ hinsert => h.replace hinsert
  | delete span => exact h.attempt fun _ hdelete => h.replace hdelete
  | applyEdits edits => exact h.applyInTurn _
  | moveCaret offset => exact h.moveCaret offset
  | breakLine style => exact h.attempt fun _ hbreak => h.breakLine hbreak
  | openLine style =>
    have hmoved := h.moveCaret (e.text.lineEnd (e.text.lineOf e.caret))
    exact hmoved.attempt fun _ hopen => hmoved.breakLine hopen
  | mark span => exact h.mark hmarks
  | release slot => exact h.release slot
  | keepNote name note => exact ⟨h.caret, h.markers⟩
  | forgetNote name => exact ⟨h.caret, h.markers⟩

theorem IsPlaced.performAll {operations : List Operation} (h : e.IsPlaced)
    (hmarks : AllMarksFit e operations) : (e.performAll operations).IsPlaced := by
  induction operations generalizing e with
  | nil => exact h
  | cons operation rest ih => exact ih (h.perform hmarks.1) hmarks.2

/-- **Positions are good.**  After any operations on an editor, refused or not, the caret is in the
text and on the edge of a character, and so are the ends of every marker that is not released, the
stop of which is not in front of its start. -/
theorem positions_of_performAll (text : Text) (operations : List Operation)
    (hmarks : AllMarksFit (ofText text) operations) :
    let e := (ofText text).performAll operations
    (e.caret ≤ e.text.size ∧ e.text.isBoundary e.caret = true)
      ∧ ∀ slot span, e.marker? slot = some span →
        span.start ≤ span.stop ∧ span.stop ≤ e.text.size
          ∧ e.text.isBoundary span.start = true ∧ e.text.isBoundary span.stop = true := by
  have hplaced := (isPlaced_ofText text).performAll hmarks
  refine ⟨⟨Text.le_size_of_isBoundary hplaced.caret, hplaced.caret⟩, fun slot span hspan => ?_⟩
  have hfits := hplaced.markers slot span hspan
  exact ⟨hfits.le, Text.le_size_of_isBoundary hfits.stop, hfits.start, hfits.stop⟩

/-- Around letters of two bytes: two markers, one edit that takes in the start of the first marker
and all of the second, a cut through a letter that is refused, and a new line. -/
theorem positions_of_umlauts :
    let operations : List Operation :=
      [.mark ⟨2, 6⟩, .mark ⟨4, 4⟩, .moveCaret 5, .replace ⟨0, 4⟩ ['€'], .insert 2 ['x'],
        .openLine {}, .release 0]
    let e := (ofText ['ä', 'ö', 'ü']).performAll operations
    AllMarksFit (ofText ['ä', 'ö', 'ü']) operations
      ∧ (e.text = ['€', 'ü', '\n'] ∧ e.caret = 6 ∧ e.marker? 1 = some ⟨3, 3⟩)
      ∧ e.text.isBoundary e.caret = true
      ∧ ∀ slot span, e.marker? slot = some span → span.stop ≤ e.text.size := by
  intro operations e
  have hmarks : AllMarksFit (ofText ['ä', 'ö', 'ü']) operations := by decide +kernel
  have hgood := positions_of_performAll ['ä', 'ö', 'ü'] operations hmarks
  exact ⟨hmarks, by decide +kernel, hgood.1.2, fun slot span hspan => (hgood.2 slot span hspan).2.1⟩

/-! ## Slots -/

theorem IsCompact.attempt (h : e.IsCompact) {change : Except EditError Editor}
    (hchange : ∀ e', change = .ok e' → e.Spares e') : (e.attempt change).IsCompact := by
  cases change with
  | ok e' => exact (hchange e' rfl).isCompact h
  | error reason => exact h

/-- No operation leaves a free slot at the end. -/
theorem IsCompact.perform (h : e.IsCompact) (operation : Operation) :
    (e.perform operation).IsCompact := by
  cases operation with
  | replace span text => exact h.attempt fun _ => spares_replace
  | insert offset text => exact h.attempt fun _ => spares_replace
  | delete span => exact h.attempt fun _ => spares_replace
  | applyEdits edits => exact (spares_applyEdits e edits).isCompact h
  | moveCaret offset => exact h
  | breakLine style => exact h.attempt fun _ => spares_breakLine
  | openLine style => exact IsCompact.attempt (e := e.moveCaret _) h fun _ => spares_breakLine
  | mark span => exact isCompact_mark e span
  | release slot => exact isCompact_release e slot
  | keepNote name note => exact h
  | forgetNote name => exact h

/-- Whatever is done to an editor, it has no free slot at the end afterwards. -/
theorem IsCompact.performAll (h : e.IsCompact) (operations : List Operation) :
    (e.performAll operations).IsCompact := by
  induction operations generalizing e with
  | nil => exact h
  | cons operation rest ih => exact ih (h.perform operation)

theorem isCompact_ofText (text : Text) : (ofText text).IsCompact := by
  simp [IsCompact, ofText]

end Editor

end StatementCompletion
