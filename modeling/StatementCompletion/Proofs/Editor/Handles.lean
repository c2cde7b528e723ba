import StatementCompletion.Proofs.Editor.Operation

/-!
# Handles of markers

The handle of a marker is its slot, and slots are used again.  Whoever makes markers and gives each
of them back at most once does not notice: two markers that are live at the same time have two
handles, the handle of a marker leads to the span that this marker would be on if no other one had
ever been made, and when a marker is released the others stay.

What is said of a marker is said by its number, which is never used again: `MarkerLedger` keeps
account of all markers that were made, next to the editor that knows slots only.
`MarkerLedger.Sound` is what each use preserves.  It rests on `Editor.MovesEach`: an edit looks at
no marker, and moves each of them by itself.
-/

namespace StatementCompletion

/-- Whether an operation neither makes a marker nor releases one. -/
def Operation.sparesMarkers : Operation → Bool
  | .mark _ | .release _ => false
  | _ => true

namespace Editor

variable {e : Editor} {operation : Operation}

/-! ## Each marker moves by itself -/

/-- An editor with other markers. -/
def withMarkers (e : Editor) (markers : List (Option Span)) : Editor :=
  { e with markers }

@[simp] theorem document_withMarkers (e : Editor) (markers : List (Option Span)) :
    (e.withMarkers markers).document = e.document :=
  rfl

@[simp] theorem text_withMarkers (e : Editor) (markers : List (Option Span)) :
    (e.withMarkers markers).text = e.text :=
  rfl

@[simp] theorem caret_withMarkers (e : Editor) (markers : List (Option Span)) :
    (e.withMarkers markers).caret = e.caret :=
  rfl

/-- What is done to an editor is the same whatever is marked there, and each
marker moves by itself. -/
def MovesEach (change : Editor → Editor) (e : Editor) : Prop :=
  ∃ move : Span → Span, ∀ markers,
    change (e.withMarkers markers) = (change e).withMarkers (markers.map (Option.map move))

theorem movesEach_of_eq {change : Editor → Editor}
    (h : ∀ markers, change (e.withMarkers markers) = (change e).withMarkers markers) :
    MovesEach change e :=
  ⟨id, fun markers => by rw [h, Option.map_id, List.map_id]⟩

theorem MovesEach.comp {first second : Editor → Editor} (h : MovesEach first e)
    (h' : MovesEach second (first e)) : MovesEach (second ∘ first) e := by
  obtain ⟨move, hmove⟩ := h
  obtain ⟨move', hmove'⟩ := h'
  refine ⟨move' ∘ move, fun markers => ?_⟩
  rw [Function.comp_apply, hmove, hmove', List.map_map, Option.map_comp_map]
  rfl

/-- An attempt moves each marker by itself if the change that it attempts does. -/
theorem movesEach_attempt {change : Editor → Except EditError Editor} {move : Span → Span}
    (h : ∀ markers, change (e.withMarkers markers)
      = (change e).map (·.withMarkers (markers.map (Option.map move)))) :
    MovesEach (fun e => e.attempt (change e)) e := by
  cases hchange : change e with
  | ok changed =>
    refine ⟨move, fun markers => ?_⟩
    simp only [h, hchange]
    rfl
  | error reason =>
    refine movesEach_of_eq fun markers => ?_
    simp only [h, hchange]
    rfl

theorem replace_withMarkers (e : Editor) (span : Span) (new : Text) (markers : List (Option Span)) :
    (e.withMarkers markers).replace span new = (e.replace span new).map
      (·.withMarkers (markers.map (Option.map (span.carryMarker new.size)))) := by
  simp only [replace, withMarkers]
  cases e.document.replace span new <;> rfl

theorem movesEach_applyInTurn (edits : List TextEdit) (e : Editor) :
    MovesEach (fun e => (applyInTurn edits e).1) e := by
  induction edits generalizing e with
  | nil => exact movesEach_of_eq fun markers => rfl
  | cons edit rest ih =>
    cases hreplace : e.replace edit.span edit.text with
    | ok replaced =>
      obtain ⟨move, hmove⟩ := ih replaced
      refine ⟨move ∘ edit.span.carryMarker edit.text.size, fun markers => ?_⟩
      simp only [applyInTurn, replace_withMarkers, hreplace]
      refine (hmove _).trans ?_
      rw [List.map_map, Option.map_comp_map]
    | error reason =>
      refine movesEach_of_eq fun markers => ?_
      simp only [applyInTurn, replace_withMarkers, hreplace]
      rfl

theorem exists_replace_moveCaret (e : Editor) (span : Span) (new : Text) (offset : Nat) :
    ∃ move : Span → Span, ∀ markers,
      ((e.withMarkers markers).replace span new >>= fun broken => pure (broken.moveCaret offset))
        = (e.replace span new >>= fun broken => pure (broken.moveCaret offset)).map
          (·.withMarkers (markers.map (Option.map move))) := by
  refine ⟨span.carryMarker new.size, fun markers => ?_⟩
  rw [replace_withMarkers]
  cases e.replace span new <;> rfl

/-- Where a line is broken does not depend on markers, nor does what is put there. -/
theorem exists_breakLine_withMarkers (e : Editor) (style : CodeStyle) :
    ∃ move : Span → Span, ∀ markers, (e.withMarkers markers).breakLine style
      = (e.breakLine style).map (·.withMarkers (markers.map (Option.map move))) := by
  simp only [breakLine, document_withMarkers, text_withMarkers, caret_withMarkers]
  cases e.document.slice ⟨e.text.lineStart (e.text.lineOf e.caret), e.caret⟩ with
  | error reason => exact ⟨id, fun markers => rfl⟩
  | ok before =>
    cases e.document.slice ⟨e.caret, e.text.lineEnd (e.text.lineOf e.caret)⟩ with
    | error reason => exact ⟨id, fun markers => rfl⟩
    | ok after => exact exists_replace_moveCaret e _ _ _

theorem movesEach_perform (h : operation.sparesMarkers = true) (e : Editor) :
    MovesEach (·.perform operation) e := by
  cases operation with
  | replace span text => exact movesEach_attempt (replace_withMarkers e span text)
  | insert offset text => exact movesEach_attempt (replace_withMarkers e _ text)
  | delete span => exact movesEach_attempt (replace_withMarkers e span [])
  | applyEdits edits => exact movesEach_applyInTurn _ e
  | moveCaret offset => exact movesEach_of_eq fun markers => rfl
  | breakLine style =>
    obtain ⟨move, hmove⟩ := exists_breakLine_withMarkers e style
    exact movesEach_attempt hmove
  | openLine style =>
    have hmoved : MovesEach (fun e => e.moveCaret (e.text.lineEnd (e.text.lineOf e.caret))) e :=
      movesEach_of_eq fun markers => rfl
    obtain ⟨move, hmove⟩ := exists_breakLine_withMarkers
      (e.moveCaret (e.text.lineEnd (e.text.lineOf e.caret))) style
    have hopened : MovesEach (fun e => e.attempt (e.breakLine style))
        (e.moveCaret (e.text.lineEnd (e.text.lineOf e.caret))) := movesEach_attempt hmove
    exact hmoved.comp hopened
  | mark span => cases h
  | release slot => cases h
  | keepNote name note => exact movesEach_of_eq fun markers => rfl
  | forgetNote name => exact movesEach_of_eq fun markers => rfl

/-- Where an operation takes a span if that is all that is marked. -/
def carried (e : Editor) (operation : Operation) (span : Span) : Span :=
  (((e.withMarkers [some span]).perform operation).marker? 0).getD span

theorem markers_perform (h : operation.sparesMarkers = true) (e : Editor) :
    (e.perform operation).markers = e.markers.map (Option.map (e.carried operation)) := by
  obtain ⟨move, hmove⟩ := movesEach_perform h e
  have hcarried : e.carried operation = move := by
    funext span
    rw [carried, show (e.withMarkers [some span]).perform operation = _ from hmove [some span]]
    rfl
  rw [hcarried]
  exact congrArg Editor.markers (hmove e.markers)

end Editor

/-! ## Who holds which handle -/

/-- What is done with an editor and its markers.  A marker is told by its number, that is how many
were made before it, and never by its handle. -/
inductive MarkerUse where
  | mark (span : Span)
  | edit (operation : Operation) (spares : operation.sparesMarkers = true)
  | release (number : Nat)

/-- The numbers of the markers that are released, in turn. -/
def MarkerUse.releases (uses : List MarkerUse) : List Nat :=
  uses.filterMap fun
    | .release number => some number
    | _ => none

/-- A marker that was made: the handle that came with it, and the span that it is on. -/
structure IssuedMarker where
  handle : Nat
  span : Span
  released : Bool := false
deriving DecidableEq

/-- An editor and all markers that were ever made on it, by their numbers. -/
structure MarkerLedger where
  editor : Editor
  issued : List IssuedMarker := []

namespace MarkerLedger

/-- An editor over a document, on which no marker was made. -/
def ofDocument (document : Document) : MarkerLedger :=
  { editor := { document } }

/-- Use the editor and its markers, and keep account of these: each is moved
as if it was the only one. -/
def use (l : MarkerLedger) : MarkerUse → MarkerLedger
  | .mark span =>
    let (editor, handle) := l.editor.mark span
    { editor, issued := l.issued ++ [{ handle, span }] }
  | .edit operation _ =>
    { editor := l.editor.perform operation
      issued := l.issued.map fun m => { m with span := l.editor.carried operation m.span } }
  | .release number =>
    match l.issued[number]? with
    | some m =>
      { editor := l.editor.release m.handle
        issued := l.issued.set number { m with released := true } }
    | none => l

/-- The account after some uses, one after the other. -/
def useAll (l : MarkerLedger) (uses : List MarkerUse) : MarkerLedger :=
  uses.foldl use l

variable {l : MarkerLedger} {number : Nat} {m : IssuedMarker} {operation : Operation}

/-! ### What one use does to the account -/

theorem issued_mark {span : Span} (h : (l.use (.mark span)).issued[number]? = some m) :
    l.issued[number]? = some m
      ∨ number = l.issued.length ∧ m = { handle := l.editor.markers.length, span } := by
  change (l.issued ++ [_])[number]? = some m at h
  rw [List.getElem?_append] at h
  split at h
  · exact .inl h
  · -- only the number behind all others is new
    cases hnumber : number - l.issued.length with
    | zero =>
      rw [hnumber] at h
      exact .inr ⟨by omega, (Option.some.inj h).symm⟩
    | succ n =>
      rw [hnumber] at h
      cases h

theorem issued_edit {spares : operation.sparesMarkers = true}
    (h : (l.use (.edit operation spares)).issued[number]? = some m) :
    ∃ before, l.issued[number]? = some before
      ∧ m = { before with span := l.editor.carried operation before.span } := by
  change (l.issued.map _)[number]? = some m at h
  rw [List.getElem?_map] at h
  obtain ⟨before, hbefore, rfl⟩ := Option.map_eq_some_iff.1 h
  exact ⟨before, hbefore, rfl⟩

theorem issued_release {before : IssuedMarker} {released : Nat}
    (hbefore : l.issued[released]? = some before)
    (h : (l.use (.release released)).issued[number]? = some m) :
    number ≠ released ∧ l.issued[number]? = some m ∨ number = released ∧ m.released = true := by
  simp only [use, hbefore, List.getElem?_set] at h
  split at h
  · next heq =>
    split at h
    · exact .inr ⟨heq.symm, by rw [← Option.some.inj h]⟩
    · cases h
  · next hne => exact .inl ⟨Ne.symm hne, h⟩

/-! ### The invariant -/

/-- A marker with a number is live: it was made and not released. -/
def Holds (l : MarkerLedger) (number : Nat) (m : IssuedMarker) : Prop :=
  l.issued[number]? = some m ∧ m.released = false

instance (l : MarkerLedger) (number : Nat) (m : IssuedMarker) : Decidable (l.Holds number m) :=
  inferInstanceAs (Decidable (_ ∧ _))

/-- What is kept up by those who release each marker at most once. -/
structure Sound (released : List Nat) (l : MarkerLedger) : Prop where
  named : ∀ number m, l.Holds number m → l.editor.marker? m.handle = some m.span
  distinct : ∀ number other m m', l.Holds number m → l.Holds other m' → m.handle = m'.handle →
    number = other
  accounted : ∀ number m, l.issued[number]? = some m → m.released = true → number ∈ released
  compact : l.editor.IsCompact

variable {released : List Nat}

theorem sound_ofDocument (document : Document) : (ofDocument document).Sound [] where
  named _ _ h := by cases h.1
  distinct _ _ _ _ h := by cases h.1
  accounted _ _ h := by cases h
  compact := nofun

theorem Sound.mark (h : l.Sound released) (span : Span) : (l.use (.mark span)).Sound released := by
  have hbelow : ∀ number m, l.Holds number m → m.handle < l.editor.markers.length :=
    fun number m hm => Editor.lt_length_of_marker? (h.named number m hm)
  refine ⟨?_, ?_, ?_, Editor.isCompact_mark _ _⟩
  · rintro number m ⟨hissued, hlive⟩
    rcases issued_mark hissued with hold | ⟨-, rfl⟩
    · exact Editor.marker?_mark (h.named number m ⟨hold, hlive⟩) span
    · exact Editor.marker?_mark_self l.editor span
  · rintro number other m m' ⟨hissued, hlive⟩ ⟨hissued', hlive'⟩ hsame
    -- the new handle is behind all others
    rcases issued_mark hissued with hold | ⟨rfl, rfl⟩ <;>
      rcases issued_mark hissued' with hold' | ⟨rfl, rfl⟩
    · exact h.distinct number other m m' ⟨hold, hlive⟩ ⟨hold', hlive'⟩ hsame
    · exact absurd hsame (Nat.ne_of_lt (hbelow number m ⟨hold, hlive⟩))
    · exact absurd hsame.symm (Nat.ne_of_lt (hbelow other m' ⟨hold', hlive'⟩))
    · rfl
  · intro number m hissued hreleased
    rcases issued_mark hissued with hold | ⟨-, rfl⟩
    · exact h.accounted number m hold hreleased
    · cases hreleased

theorem Sound.edit (h : l.Sound released) (spares : operation.sparesMarkers = true) :
    (l.use (.edit operation spares)).Sound released := by
  refine ⟨?_, ?_, ?_, h.compact.perform operation⟩
  · rintro number m ⟨hissued, hlive⟩
    obtain ⟨before, hbefore, rfl⟩ := issued_edit hissued
    change (l.editor.perform operation).marker? before.handle = _
    rw [Editor.marker?_map (Editor.markers_perform spares l.editor),
      h.named number before ⟨hbefore, hlive⟩]
    rfl
  · rintro number other m m' ⟨hissued, hlive⟩ ⟨hissued', hlive'⟩ hsame
    obtain ⟨before, hbefore, rfl⟩ := issued_edit hissued
    obtain ⟨before', hbefore', rfl⟩ := issued_edit hissued'
    exact h.distinct number other before before' ⟨hbefore, hlive⟩ ⟨hbefore', hlive'⟩ hsame
  · intro number m hissued hreleased
    obtain ⟨before, hbefore, rfl⟩ := issued_edit hissued
    exact h.accounted number before hbefore hreleased

theorem Sound.release (h : l.Sound released) (hfresh : number ∉ released) :
    (l.use (.release number)).Sound (number :: released) := by
  cases hbefore : l.issued[number]? with
  | none =>
    -- there is no such marker, and nothing happens
    rw [use, hbefore]
    exact ⟨h.named, h.distinct, fun other m hissued hreleased =>
      List.mem_cons_of_mem _ (h.accounted other m hissued hreleased), h.compact⟩
  | some before =>
    have hlive : l.Holds number before :=
      ⟨hbefore, Bool.eq_false_iff.2 fun hreleased =>
        hfresh (h.accounted number before hbefore hreleased)⟩
    have hothers : ∀ other m, (l.use (.release number)).Holds other m →
        other ≠ number ∧ l.Holds other m := by
      rintro other m ⟨hissued, hother⟩
      rcases issued_release hbefore hissued with ⟨hne, hold⟩ | ⟨-, hreleased⟩
      · exact ⟨hne, hold, hother⟩
      · rw [hother] at hreleased
        cases hreleased
    have heditor : (l.use (.release number)).editor = l.editor.release before.handle := by
      rw [use, hbefore]
    refine ⟨?_, ?_, ?_, heditor ▸ Editor.isCompact_release _ _⟩
    · intro other m hm
      obtain ⟨hne, hm⟩ := hothers other m hm
      rw [heditor, Editor.marker?_release, if_neg, h.named other m hm]
      exact fun hsame => hne (h.distinct number other before m hlive hm hsame).symm
    · intro other third m m' hm hm' hsame
      exact h.distinct other third m m' (hothers other m hm).2 (hothers third m' hm').2 hsame
    · intro other m hissued hreleased
      rcases issued_release hbefore hissued with ⟨-, hold⟩ | ⟨rfl, -⟩
      · exact List.mem_cons_of_mem _ (h.accounted other m hold hreleased)
      · exact List.mem_cons_self

theorem Sound.useAll {uses : List MarkerUse} (h : l.Sound released)
    (honce : (MarkerUse.releases uses).Nodup)
    (hfresh : ∀ number ∈ released, number ∉ MarkerUse.releases uses) :
    ∃ released', (l.useAll uses).Sound released' := by
  induction uses generalizing l released with
  | nil => exact ⟨released, h⟩
  | cons first rest ih =>
    cases first with
    | mark span => exact ih (h.mark span) honce hfresh
    | edit operation spares => exact ih (h.edit spares) honce hfresh
    | release number =>
      obtain ⟨hnumber, hrest⟩ := List.nodup_cons.1 honce
      have hnew : number ∉ released := fun hmem => hfresh number hmem List.mem_cons_self
      refine ih (h.release hnew) hrest
        (List.forall_mem_cons.2 ⟨hnumber, fun other hother hmem => ?_⟩)
      exact hfresh other hother (List.mem_cons_of_mem _ hmem)

/-- **Handles never alias.**  Whatever is done with the markers of an editor, as long as
none of them is released twice: the handles of two live markers are different, each leads
to the span of its own marker, releasing a marker takes away that one and no other, and no
free slot is left at the end. -/
theorem handles_never_alias (document : Document) (uses : List MarkerUse)
    (honce : (MarkerUse.releases uses).Nodup) :
    let l := (ofDocument document).useAll uses
    (∀ number other m m', l.Holds number m → l.Holds other m' → number ≠ other →
        m.handle ≠ m'.handle)
      ∧ (∀ number m, l.Holds number m → l.editor.marker? m.handle = some m.span)
      ∧ (∀ number other m m', l.Holds number m → l.Holds other m' →
        (l.editor.release m.handle).marker? m'.handle
          = if number = other then none else some m'.span)
      ∧ l.editor.markers.getLast? ≠ some none := by
  intro l
  obtain ⟨released, h⟩ := (sound_ofDocument document).useAll honce (List.forall_mem_nil _)
  refine ⟨fun number other m m' hm hm' hne hsame => hne (h.distinct number other m m' hm hm' hsame),
    h.named, fun number other m m' hm hm' => ?_, h.compact⟩
  rw [Editor.marker?_release]
  by_cases hnumber : number = other
  · subst hnumber
    rw [if_pos rfl, if_pos]
    rw [Option.some.inj (hm.1.symm.trans hm'.1)]
  · rw [if_neg hnumber, if_neg, h.named other m' hm']
    exact fun hsame => hnumber (h.distinct number other m m' hm hm' hsame)

/-- Two of three markers are released in the order in which they were made, and the next one gets
the slot of the first of these. -/
theorem handles_of_reused_slot :
    let uses : List MarkerUse :=
      [.mark ⟨0, 1⟩, .mark ⟨1, 2⟩, .mark ⟨2, 3⟩, .release 1, .release 2, .mark ⟨0, 3⟩,
        .edit (.insert 0 ['x']) rfl]
    let l := (ofDocument { text := ['a', 'b', 'c'] }).useAll uses
    (MarkerUse.releases uses).Nodup ∧ l.issued.map (·.handle) = [0, 1, 2, 1]
      ∧ l.Holds 0 { handle := 0, span := ⟨1, 2⟩ } ∧ l.Holds 3 { handle := 1, span := ⟨1, 4⟩ }
      ∧ l.editor.marker? 1 = some ⟨1, 4⟩ ∧ (l.editor.release 0).marker? 1 = some ⟨1, 4⟩
      ∧ (l.editor.release 0).marker? 0 = none ∧ l.editor.markers.getLast? ≠ some none := by
  intro uses l
  have honce : (MarkerUse.releases uses).Nodup := by decide
  have hfirst : l.Holds 0 { handle := 0, span := ⟨1, 2⟩ } := by decide
  have hreused : l.Holds 3 { handle := 1, span := ⟨1, 4⟩ } := by decide
  obtain ⟨-, hnamed, hreleased, hcompact⟩ :=
    handles_never_alias { text := ['a', 'b', 'c'] } uses honce
  exact ⟨honce, by decide, hfirst, hreused, hnamed 3 _ hreused, hreleased 0 3 _ _ hfirst hreused,
    hreleased 0 0 _ _ hfirst hfirst, hcompact⟩

/-- A marker that is released twice takes another one with it. -/
example :
    let l := (ofDocument { text := ['a', 'b'] }).useAll
      [.mark ⟨0, 1⟩, .release 0, .mark ⟨1, 2⟩, .release 0]
    l.Holds 1 { handle := 0, span := ⟨1, 2⟩ } ∧ l.editor.marker? 0 = none := by
  decide

end MarkerLedger

end StatementCompletion
