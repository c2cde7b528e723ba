import StatementCompletion.Proofs.Editor.Batch

/-!
# Edits of the white space between pieces of text

A text is seen as cells: each is a piece of text and the white space in front of it, together with
what is to take the place of that white space.  The batch of edits that does so gives the new texts
of the cells in a row, and carries a marker on some of the pieces along with them.
-/

namespace StatementCompletion

namespace TextEdit

/-- White space, what is to take its place, and the text behind it. -/
structure Cell where
  old : Text
  new : Text
  ink : Text

namespace Cell

/-- The text of cells in a row. -/
def spell : List Cell → Text
  | [] => []
  | cell :: rest => cell.old ++ cell.ink ++ spell rest

/-- The text of cells in a row with the new white space. -/
def respell : List Cell → Text
  | [] => []
  | cell :: rest => cell.new ++ cell.ink ++ respell rest

/-- The edits of cells in a row, from an offset on. -/
def edits (offset : Nat) : List Cell → List TextEdit
  | [] => []
  | cell :: rest =>
    let behind := edits (offset + cell.old.size + cell.ink.size) rest
    if cell.new = cell.old then behind
    else { span := ⟨offset, offset + cell.old.size⟩, text := cell.new } :: behind

theorem spell_append (a b : List Cell) : spell (a ++ b) = spell a ++ spell b := by
  induction a with
  | nil => rfl
  | cons cell rest ih => simp only [List.cons_append, spell, ih, List.append_assoc]

theorem respell_append (a b : List Cell) : respell (a ++ b) = respell a ++ respell b := by
  induction a with
  | nil => rfl
  | cons cell rest ih => simp only [List.cons_append, respell, ih, List.append_assoc]

theorem edits_append (offset : Nat) (a b : List Cell) :
    edits offset (a ++ b) = edits offset a ++ edits (offset + (spell a).size) b := by
  induction a generalizing offset with
  | nil => rfl
  | cons cell rest ih =>
    rw [List.cons_append, edits, edits, ih, spell, Text.size_append, Text.size_append]
    simp only [Nat.add_assoc]
    split <;> rfl

theorem le_start_of_mem_edits {offset : Nat} {cells : List Cell} :
    ∀ edit ∈ edits offset cells, offset ≤ edit.span.start := by
  induction cells generalizing offset with
  | nil => simp [edits]
  | cons cell rest ih =>
    have hrest : ∀ edit ∈ edits (offset + cell.old.size + cell.ink.size) rest,
        offset ≤ edit.span.start := by
      intro edit hedit
      have hle := ih edit hedit
      omega
    rw [edits]
    split
    · exact hrest
    · exact List.forall_mem_cons.2 ⟨Nat.le_refl _, hrest⟩

/-- Between two edits there is some text. -/
theorem pairwise_edits {offset : Nat} {cells : List Cell} (hink : ∀ cell ∈ cells, cell.ink ≠ []) :
    (edits offset cells).Pairwise fun a b => a.span.stop < b.span.start := by
  induction cells generalizing offset with
  | nil => exact .nil
  | cons cell rest ih =>
    obtain ⟨hcell, hrest⟩ := List.forall_mem_cons.1 hink
    have hpos := Text.size_pos hcell
    rw [edits]
    split
    · exact ih hrest
    · refine .cons (fun later hlater => ?_) (ih hrest)
      have hle := le_start_of_mem_edits later hlater
      show offset + cell.old.size < later.span.start
      omega

theorem start_le_stop_of_mem_edits {offset : Nat} {cells : List Cell} :
    ∀ edit ∈ edits offset cells, edit.span.start ≤ edit.span.stop := by
  induction cells generalizing offset with
  | nil => simp [edits]
  | cons cell rest ih =>
    rw [edits]
    split
    · exact ih
    · exact List.forall_mem_cons.2 ⟨Nat.le_add_right _ _, ih⟩

/-- Every edit puts the new white space of a cell in the place of the old. -/
theorem exists_of_mem_edits {before : Text} {cells : List Cell} :
    ∀ edit ∈ edits before.size cells, ∃ cell ∈ cells, edit.text = cell.new
      ∧ ∃ front back, before ++ spell cells = front ++ cell.old ++ back
        ∧ edit.span = .behind front cell.old := by
  induction cells generalizing before with
  | nil => simp [edits]
  | cons cell rest ih =>
    have hrest : ∀ edit ∈ edits (before.size + cell.old.size + cell.ink.size) rest,
        ∃ other ∈ cell :: rest, edit.text = other.new
          ∧ ∃ front back, before ++ spell (cell :: rest) = front ++ other.old ++ back
            ∧ edit.span = .behind front other.old := by
      intro edit hedit
      have hsize : before.size + cell.old.size + cell.ink.size
          = (before ++ cell.old ++ cell.ink).size := by
        rw [Text.size_append, Text.size_append]
      rw [hsize] at hedit
      obtain ⟨other, hother, htext, front, back, hspell, hspan⟩ := ih edit hedit
      refine ⟨other, List.mem_cons_of_mem _ hother, htext, front, back, ?_, hspan⟩
      rw [← hspell, spell]
      simp only [List.append_assoc]
    rw [edits]
    split
    · exact hrest
    · refine List.forall_mem_cons.2 ⟨⟨cell, List.mem_cons_self .., rfl, before, ?_⟩, hrest⟩
      refine ⟨cell.ink ++ spell rest, ?_, rfl⟩
      rw [spell]
      simp only [List.append_assoc]

end Cell

/-! ## Markers -/

/-- Where a marker is after edits that are applied from the last to the first. -/
def carryAll (edits : List TextEdit) (marker : Span) : Span :=
  edits.foldr (fun edit marker => edit.span.carryMarker edit.text.size marker) marker

theorem carryAll_append (a b : List TextEdit) (marker : Span) :
    carryAll (a ++ b) marker = carryAll a (carryAll b marker) := by
  simp only [carryAll, List.foldr_append]

end TextEdit

namespace TextEdit.Cell

/-- Edits behind a marker leave it. -/
theorem carryAll_behind {offset first last : Nat} (cells : List Cell) (hlt : first < last)
    (hlast : last ≤ offset) : carryAll (edits offset cells) ⟨first, last⟩ = ⟨first, last⟩ := by
  induction cells generalizing offset with
  | nil => rfl
  | cons cell rest ih =>
    have hrest := @ih (offset + cell.old.size + cell.ink.size) (by omega)
    rw [edits]
    split
    · exact hrest
    · show Span.carryMarker _ _ (carryAll _ _) = _
      rw [hrest]
      exact Span.carryMarker_of_le_start hlt.le hlast (by omega)

/-- Edits inside a marker move its end. -/
theorem carryAll_inside {offset first : Nat} {cells : List Cell}
    (hink : ∀ cell ∈ cells, cell.ink ≠ []) (hfirst : first < offset) :
    carryAll (edits offset cells) ⟨first, offset + (spell cells).size⟩
      = ⟨first, offset + (respell cells).size⟩ := by
  induction cells generalizing offset with
  | nil => rfl
  | cons cell rest ih =>
    obtain ⟨hcell, hrest⟩ := List.forall_mem_cons.1 hink
    have hpos := Text.size_pos hcell
    have hbehind := @ih (offset + cell.old.size + cell.ink.size) hrest (by omega)
    simp only [spell, respell, Text.size_append, ← Nat.add_assoc]
    rw [edits]
    split
    · next hsame => rw [hbehind, hsame]
    · show Span.carryMarker _ _ (carryAll _ _) = _
      rw [hbehind, Span.carryMarker_of_inside hfirst.le (by omega) (by omega) (by omega)
          (by omega), Span.mk.injEq]
      refine ⟨rfl, ?_⟩
      show _ + cell.new.size = _
      omega

/-- Edits in front of a marker move it along. -/
theorem carryAll_front {offset first last : Nat} {cells : List Cell}
    (hlt : first < last) :
    carryAll (edits offset cells) ⟨offset + (spell cells).size + first,
        offset + (spell cells).size + last⟩
      = ⟨offset + (respell cells).size + first, offset + (respell cells).size + last⟩ := by
  induction cells generalizing offset with
  | nil => rfl
  | cons cell rest ih =>
    have hbehind := @ih (offset + cell.old.size + cell.ink.size)
    simp only [spell, respell, Text.size_append, ← Nat.add_assoc]
    rw [edits]
    split
    · next hsame => rw [hbehind, hsame]
    · show Span.carryMarker _ _ (carryAll _ _) = _
      rw [hbehind, Span.carryMarker_of_stop_le (by omega) (by omega) (by omega), Span.mk.injEq]
      show _ + cell.new.size = _ ∧ _ + cell.new.size = _
      omega

/-- **A marker on some of the pieces of text is on the same pieces afterwards.** -/
theorem carryAll_pieces {front inside back : List Cell} {cell : Cell} {offset : Nat}
    (hcell : cell.ink ≠ []) (hink : ∀ cell ∈ inside, cell.ink ≠ []) :
    carryAll (edits offset (front ++ cell :: (inside ++ back)))
        ⟨offset + (spell front).size + cell.old.size,
          offset + (spell (front ++ cell :: inside)).size⟩
      = ⟨offset + (respell front).size + cell.new.size,
          offset + (respell (front ++ cell :: inside)).size⟩ := by
  have hpos := Text.size_pos hcell
  have hcells : front ++ cell :: (inside ++ back) = front ++ ([cell] ++ (inside ++ back)) := rfl
  have hspell : (spell (front ++ cell :: inside)).size
      = (spell front).size + cell.old.size + cell.ink.size + (spell inside).size := by
    simp only [spell_append, spell, Text.size_append]
    omega
  have hrespell : (respell (front ++ cell :: inside)).size
      = (respell front).size + (cell.new.size + cell.ink.size + (respell inside).size) := by
    simp only [respell_append, respell, Text.size_append]
  have hown : (spell [cell]).size = cell.old.size + cell.ink.size := by
    simp only [spell, Text.size_append, Text.size, Nat.add_zero]
  -- from the last edit to the first: those behind, those inside, that of the cell, those in front
  rw [hcells, edits_append, edits_append, edits_append, carryAll_append, carryAll_append,
    carryAll_append, hspell, hrespell, hown, carryAll_behind back (by omega) (by omega)]
  have hinside := @carryAll_inside (offset + (spell front).size + (cell.old.size + cell.ink.size))
    (offset + (spell front).size + cell.old.size) inside hink (by omega)
  have hlast : offset + ((spell front).size + cell.old.size + cell.ink.size + (spell inside).size)
      = offset + (spell front).size + (cell.old.size + cell.ink.size) + (spell inside).size := by
    omega
  have hcell : carryAll (edits (offset + (spell front).size) [cell])
        ⟨offset + (spell front).size + cell.old.size,
          offset + (spell front).size + (cell.old.size + cell.ink.size) + (respell inside).size⟩
      = ⟨offset + (spell front).size + cell.new.size, offset + (spell front).size
          + (cell.new.size + cell.ink.size + (respell inside).size)⟩ := by
    rw [edits]
    split
    · next hsame =>
      rw [hsame]
      show (⟨_, _⟩ : Span) = ⟨_, _⟩
      rw [Span.mk.injEq]
      omega
    · show Span.carryMarker _ _ ⟨_, _⟩ = _
      rw [Span.carryMarker_of_stop_le (by omega) (by omega) (by omega), Span.mk.injEq]
      show _ + cell.new.size = _ ∧ _ + cell.new.size = _
      omega
  rw [hlast, hinside, hcell, carryAll_front (by omega), Nat.add_assoc offset (respell front).size
    (cell.new.size + cell.ink.size + (respell inside).size)]

end TextEdit.Cell

namespace Editor

/-! ## Applying -/

theorem markers_map_map (e : Editor) (f g : Span → Span) :
    (e.markers.map (Option.map f)).map (Option.map g) = e.markers.map (Option.map (g ∘ f)) := by
  rw [List.map_map]
  congr 1
  funext marker
  cases marker <;> rfl

/-- The edits of cells are not refused, and give the new texts of the cells. -/
theorem applyInTurn_edits {before back : Text} {cells : List TextEdit.Cell} {e : Editor}
    (htext : e.text = before ++ TextEdit.Cell.spell cells ++ back) :
    ∃ e', applyInTurn (TextEdit.Cell.edits before.size cells).reverse e = (e', .ok ())
      ∧ e'.text = before ++ TextEdit.Cell.respell cells ++ back
      ∧ e'.markers = e.markers.map
          (Option.map (TextEdit.carryAll (TextEdit.Cell.edits before.size cells))) := by
  -- the last edit comes first, so what is in front of an edit is still the old text
  induction cells generalizing before with
  | nil =>
    refine ⟨e, rfl, htext, ?_⟩
    have hid : Option.map (TextEdit.carryAll (TextEdit.Cell.edits before.size [])) = id := by
      funext marker
      cases marker <;> rfl
    rw [hid, List.map_id]
  | cons cell rest ih =>
    have hsize : (before ++ cell.old ++ cell.ink).size
        = before.size + cell.old.size + cell.ink.size := by
      rw [Text.size_append, Text.size_append]
    obtain ⟨e₁, hrun, htext₁, hmarkers₁⟩ := @ih (before ++ cell.old ++ cell.ink) (by
      rw [htext, TextEdit.Cell.spell]
      simp only [List.append_assoc])
    rw [hsize] at hrun hmarkers₁
    rw [TextEdit.Cell.edits, TextEdit.Cell.respell]
    split
    · next hsame =>
      refine ⟨e₁, hrun, ?_, hmarkers₁⟩
      rw [htext₁, hsame]
      simp only [List.append_assoc]
    · have hbehind : e₁.text = before ++ cell.old
          ++ (cell.ink ++ TextEdit.Cell.respell rest ++ back) := by
        rw [htext₁]
        simp only [List.append_assoc]
      obtain ⟨e₂, hreplace, htext₂, hmarkers₂⟩ : ∃ e₂,
          e₁.replace (.behind before cell.old) cell.new = .ok e₂
            ∧ e₂.text = before ++ cell.new ++ (cell.ink ++ TextEdit.Cell.respell rest ++ back)
            ∧ e₂.markers = e₁.markers.map
              (Option.map ((Span.behind before cell.old).carryMarker cell.new.size)) := by
        obtain ⟨d, hreplace, hd, -⟩ := replace_append hbehind cell.new
        exact ⟨_, hreplace, hd, rfl⟩
      refine ⟨e₂, ?_, ?_, ?_⟩
      · rw [List.reverse_cons, applyInTurn_append hrun, applyInTurn]
        rw [Span.behind] at hreplace
        rw [hreplace]
        rfl
      · rw [htext₂]
        simp only [List.append_assoc]
      · rw [hmarkers₂, hmarkers₁, markers_map_map]
        rfl

/-- **A batch that gives cells new white space is not refused.** -/
theorem applyEdits_cells {back : Text} {cells : List TextEdit.Cell} {e : Editor}
    (hink : ∀ cell ∈ cells, cell.ink ≠ []) (htext : e.text = TextEdit.Cell.spell cells ++ back) :
    ∃ e', e.applyEdits (TextEdit.Cell.edits 0 cells) = (e', .ok ())
      ∧ e'.text = TextEdit.Cell.respell cells ++ back
      ∧ e'.markers =
        e.markers.map (Option.map (TextEdit.carryAll (TextEdit.Cell.edits 0 cells))) := by
  have hstarts : (TextEdit.Cell.edits 0 cells).Pairwise fun a b => a.span.start < b.span.start := by
    refine List.Pairwise.imp_of_mem (fun {a b} ha _ hlt => ?_) (TextEdit.Cell.pairwise_edits hink)
    have hle := TextEdit.Cell.start_le_stop_of_mem_edits a ha
    omega
  rw [Editor.applyEdits, TextEdit.inApplicationOrder_eq_reverse hstarts]
  exact @applyInTurn_edits [] back cells e htext

end Editor

end StatementCompletion
