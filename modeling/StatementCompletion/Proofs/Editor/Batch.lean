import StatementCompletion.Proofs.Editor

/-!
# Batches that are not refused

The edits of a batch are meant for one text, and are applied from the last to the first.  If they
take the place of parts of that text without ink, one behind the other, then each of them still
finds its part when its turn comes, for only what lies behind it has changed.
-/

namespace StatementCompletion

namespace TextEdit

/-! ## The order of application -/

theorem insertOrdered_of_forall {edit : TextEdit} {edits : List TextEdit}
    (h : ∀ other ∈ edits, edit.span.start < other.span.start) :
    edit.insertOrdered edits = edits ++ [edit] := by
  induction edits with
  | nil => rfl
  | cons other rest ih =>
    obtain ⟨hother, hrest⟩ := List.forall_mem_cons.1 h
    have hprecedes : edit.precedes other = false := by
      simp only [precedes, Bool.or_eq_false_iff, Bool.and_eq_false_iff, decide_eq_false_iff_not]
      omega
    rw [insertOrdered, hprecedes, if_neg Bool.false_ne_true, ih hrest, List.cons_append]

/-- Edits that start one behind the other are applied in reverse. -/
theorem inApplicationOrder_eq_reverse {edits : List TextEdit}
    (h : edits.Pairwise fun a b => a.span.start < b.span.start) :
    inApplicationOrder edits = edits.reverse := by
  induction edits with
  | nil => rfl
  | cons edit rest ih =>
    obtain ⟨hedit, hrest⟩ := List.pairwise_cons.1 h
    show edit.insertOrdered (inApplicationOrder rest) = _
    rw [ih hrest, List.reverse_cons]
    exact insertOrdered_of_forall fun other hother => hedit other (List.mem_reverse.1 hother)

/-! ## Filling gaps -/

/-- Edits of parts of a text without ink, each of them starting behind the start of the one before;
the text starts at an offset. -/
inductive Fills : Nat → Text → List TextEdit → Prop where
  | nil {offset : Nat} {text : Text} : Fills offset text []
  | cons {offset : Nat} {skipped gap rest new : Text} {edits : List TextEdit} :
      gap.ink = [] → (∀ later ∈ edits, offset + skipped.size < later.span.start) →
        Fills (offset + skipped.size + gap.size) rest edits →
          Fills offset (skipped ++ gap ++ rest)
            ({ span := ⟨offset + skipped.size, offset + skipped.size + gap.size⟩, text := new }
              :: edits)

theorem Fills.cons_here {offset : Nat} {gap rest new : Text} {edits : List TextEdit}
    (hgap : gap.ink = []) (hlater : ∀ later ∈ edits, offset < later.span.start)
    (h : Fills (offset + gap.size) rest edits) :
    Fills offset (gap ++ rest) ({ span := ⟨offset, offset + gap.size⟩, text := new } :: edits) :=
  @Fills.cons offset [] gap rest new edits hgap hlater h

theorem Fills.pairwise {offset : Nat} {text : Text} {edits : List TextEdit}
    (h : Fills offset text edits) : edits.Pairwise fun a b => a.span.start < b.span.start := by
  induction h with
  | nil => exact .nil
  | cons _ hlater _ ih => exact .cons hlater ih

theorem Fills.le_start {offset : Nat} {text : Text} {edits : List TextEdit}
    (h : Fills offset text edits) : ∀ edit ∈ edits, offset ≤ edit.span.start := by
  induction h with
  | nil => simp
  | @cons offset skipped gap rest new edits _ _ _ ih =>
    refine List.forall_mem_cons.2 ⟨Nat.le_add_right _ _, fun edit hedit => ?_⟩
    have hle := ih edit hedit
    omega

/-- What fills the gaps of a text fills those of a longer one. -/
theorem Fills.skip {offset : Nat} {skipped text : Text} {edits : List TextEdit}
    (h : Fills (offset + skipped.size) text edits) : Fills offset (skipped ++ text) edits := by
  generalize hstart : offset + skipped.size = start at h
  cases h with
  | nil => exact .nil
  | @cons _ skipped' gap rest new edits hgap hlater hrest =>
    subst hstart
    have hsize : offset + (skipped ++ skipped').size = offset + skipped.size + skipped'.size := by
      rw [Text.size_append, Nat.add_assoc]
    rw [← List.append_assoc, ← List.append_assoc, ← hsize]
    refine .cons hgap ?_ ?_ <;> rwa [hsize]

end TextEdit

namespace Editor

/-! ## Applying -/

theorem applyInTurn_append {first : List TextEdit} {e e' : Editor}
    (h : applyInTurn first e = (e', .ok ())) (second : List TextEdit) :
    applyInTurn (first ++ second) e = applyInTurn second e' := by
  induction first generalizing e with
  | nil =>
    obtain ⟨rfl, -⟩ := Prod.mk.inj h
    rfl
  | cons edit rest ih =>
    rw [List.cons_append, applyInTurn]
    rw [applyInTurn] at h
    cases hreplace : e.replace edit.span edit.text with
    | ok e₁ =>
      rw [hreplace] at h
      exact ih h
    | error reason =>
      rw [hreplace] at h
      cases (Prod.mk.inj h).2

theorem Keeps.applyInTurn_reverse {original before text : Text} {slots : List Nat} {e : Editor}
    {edits : List TextEdit} (h : e.Keeps original slots) (htext : e.text = before ++ text)
    (hfills : TextEdit.Fills before.size text edits) :
    ∃ e' text', applyInTurn edits.reverse e = (e', .ok ()) ∧ Follows original slots e e'
      ∧ e'.text = before ++ text' := by
  -- what is behind an edit is edited first, so the induction is on the edits behind it
  generalize hoffset : before.size = offset at hfills
  induction hfills generalizing before with
  | nil => exact ⟨e, _, rfl, h.follows_self, htext⟩
  | @cons offset skipped gap rest new edits hgap _ _ ih =>
    subst hoffset
    have hbehind : e.text = (before ++ skipped ++ gap) ++ rest := by simp [htext]
    have hsize : (before ++ skipped ++ gap).size = before.size + skipped.size + gap.size := by
      rw [Text.size_append, Text.size_append]
    obtain ⟨e₁, rest', hrun, hfollows, htext₁⟩ := ih hbehind hsize
    have hink : List.Sublist gap.ink new.ink := by
      rw [hgap]
      exact List.nil_sublist _
    obtain ⟨e₂, hreplace, hfollows', htext₂⟩ := hfollows.keeps.replace htext₁ hink
    refine ⟨e₂, skipped ++ new ++ rest', ?_, hfollows.trans hfollows', ?_⟩
    · rw [List.reverse_cons, applyInTurn_append hrun, applyInTurn]
      rw [Span.behind, Text.size_append] at hreplace
      simp only [hreplace]
      rfl
    · simp [htext₂]

/-- A batch that fills gaps is not refused. -/
theorem Keeps.applyEdits {original : Text} {slots : List Nat} {e : Editor} {edits : List TextEdit}
    (h : e.Keeps original slots) (hfills : TextEdit.Fills 0 e.text edits) :
    ∃ e', e.applyEdits edits = (e', .ok ()) ∧ Follows original slots e e' := by
  rw [Editor.applyEdits, TextEdit.inApplicationOrder_eq_reverse hfills.pairwise]
  have htext : e.text = [] ++ e.text := rfl
  obtain ⟨e', _, hrun, hfollows, -⟩ := h.applyInTurn_reverse htext hfills
  exact ⟨e', hrun, hfollows⟩

end Editor

end StatementCompletion
