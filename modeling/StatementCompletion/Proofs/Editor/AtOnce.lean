import Mathlib.Data.List.Pairwise
import Mathlib.Data.List.Sort
import StatementCompletion.Proofs.Editor.Batch
import StatementCompletion.Proofs.Editor.Marked

/-!
# Batches apply at once

The edits of a batch are all meant for one text.  `TextEdit.replaceAll` is that text with all of
their spans replaced at once: it is read once from its start to its end, and every character is
written again unless an edit covers it.  There is no order of edits in this.

`Editor.applyEdits` applies the edits one after the other to a text that changes.  Where the
edits are apart from each other, the order of application puts every edit behind all that
touch it from the front, so that an edit finds its span where it was, and what comes out is
the text of `TextEdit.replaceAll`.
-/

namespace StatementCompletion

namespace TextEdit

/-! ## Edits that can be applied at once -/

/-- Two edits are apart: neither of their spans reaches into the other, and they do not both insert
something at one offset. -/
structure Apart (a b : TextEdit) : Prop where
  beside : a.span.IsBeside b.span
  once : a.span.start = a.span.stop → b.span.start = b.span.stop → a.span.start ≠ b.span.start

theorem Apart.symm {a b : TextEdit} (h : a.Apart b) : b.Apart a :=
  ⟨Or.symm h.beside, fun hb ha => (h.once ha hb).symm⟩

instance : Std.Symm Apart where
  symm _ _ := Apart.symm

instance (a b : TextEdit) : Decidable (a.Apart b) :=
  decidable_of_iff (a.span.IsBeside b.span
      ∧ (a.span.start = a.span.stop → b.span.start = b.span.stop → a.span.start ≠ b.span.start))
    ⟨fun ⟨hbeside, honce⟩ => ⟨hbeside, honce⟩, fun h => ⟨h.beside, h.once⟩⟩

/-- Whether an edit inserts its text at an offset. -/
def insertsAt (offset : Nat) (edit : TextEdit) : Bool :=
  edit.span.start = offset && edit.span.stop = offset

/-- Whether an edit replaces some text from an offset on. -/
def replacesFrom (offset : Nat) (edit : TextEdit) : Bool :=
  edit.span.start = offset && offset < edit.span.stop

/-- Whether an edit replaces the character at an offset. -/
def replacesAt (offset : Nat) (edit : TextEdit) : Bool :=
  edit.span.start ≤ offset && offset < edit.span.stop

/-- What edits write at an offset: first what is inserted there, then what takes the place of a span
that starts there. -/
def writtenAt (edits : List TextEdit) (offset : Nat) : Text :=
  (edits.filter (insertsAt offset)).flatMap (·.text)
    ++ (edits.filter (replacesFrom offset)).flatMap (·.text)

/-- A text that starts at an offset, with the spans of all edits replaced at once. -/
def replaceAllFrom (edits : List TextEdit) (offset : Nat) : Text → Text
  | [] => writtenAt edits offset
  | c :: rest =>
    let kept := if edits.any (replacesAt offset) then [] else [c]
    writtenAt edits offset ++ kept ++ replaceAllFrom edits (offset + c.utf8Size) rest

/-- A text with the spans of all edits replaced at once. -/
def replaceAll (edits : List TextEdit) (text : Text) : Text :=
  replaceAllFrom edits 0 text

/-! ## Reading on -/

variable {edit : TextEdit} {edits rest : List TextEdit} {offset : Nat}

theorem writtenAt_cons_of_ne (h : edit.span.start ≠ offset) :
    writtenAt (edit :: rest) offset = writtenAt rest offset := by
  simp [writtenAt, insertsAt, replacesFrom, h]

/-- Nothing is written in front of the edits. -/
theorem writtenAt_of_forall_lt (h : ∀ edit ∈ edits, offset < edit.span.start) :
    writtenAt edits offset = [] := by
  induction edits with
  | nil => rfl
  | cons edit rest ih =>
    obtain ⟨hedit, hrest⟩ := List.forall_mem_cons.1 h
    rw [writtenAt_cons_of_ne hedit.ne', ih hrest]

/-- In front of the edits every character stays. -/
theorem any_replacesAt_of_forall_lt (h : ∀ edit ∈ edits, offset < edit.span.start) :
    edits.any (replacesAt offset) = false := by
  rw [List.any_eq_false]
  intro edit hedit
  have hlt := h edit hedit
  simp only [replacesAt, Bool.and_eq_true, decide_eq_true_eq]
  omega

theorem replaceAllFrom_nil (offset : Nat) (text : Text) : replaceAllFrom [] offset text = text := by
  induction text generalizing offset with
  | nil => rfl
  | cons c rest ih =>
    rw [replaceAllFrom, ih]
    rfl

/-- Text in front of the edits is written again. -/
theorem replaceAllFrom_skip {skipped : Text} (text : Text)
    (h : ∀ edit ∈ edits, offset + skipped.size ≤ edit.span.start) :
    replaceAllFrom edits offset (skipped ++ text)
      = skipped ++ replaceAllFrom edits (offset + skipped.size) text := by
  induction skipped generalizing offset with
  | nil => rfl
  | cons c skipped ih =>
    have hpos := c.utf8Size_pos
    have hlt : ∀ edit ∈ edits, offset < edit.span.start := by
      intro edit hedit
      have hle := h edit hedit
      rw [Text.size] at hle
      omega
    have hrest := @ih (offset + c.utf8Size) (by
      intro edit hedit
      have hle := h edit hedit
      rw [Text.size] at hle
      omega)
    rw [List.cons_append, replaceAllFrom, hrest, writtenAt_of_forall_lt hlt,
      any_replacesAt_of_forall_lt hlt, Text.size, Nat.add_assoc]
    rfl

/-- An edit that has been passed does nothing any more. -/
theorem replaceAllFrom_cons_of_passed (text : Text) (hstart : edit.span.start < offset)
    (hstop : edit.span.stop ≤ offset) :
    replaceAllFrom (edit :: rest) offset text = replaceAllFrom rest offset text := by
  have hkept (offset : Nat) (hstop : edit.span.stop ≤ offset) :
      (edit :: rest).any (replacesAt offset) = rest.any (replacesAt offset) := by
    have hedit : edit.replacesAt offset = false := by
      simp only [replacesAt, Bool.and_eq_false_iff, decide_eq_false_iff_not]
      omega
    rw [List.any_cons, hedit, Bool.false_or]
  induction text generalizing offset with
  | nil => exact writtenAt_cons_of_ne hstart.ne
  | cons c text ih =>
    rw [replaceAllFrom, replaceAllFrom, writtenAt_cons_of_ne hstart.ne, hkept offset hstop,
      ih (by omega) (by omega)]

/-- What is left of a span that is being replaced is not written again. -/
theorem replaceAllFrom_cons_inside {inside : Text} (text : Text) (hstart : edit.span.start < offset)
    (hstop : edit.span.stop = offset + inside.size)
    (hrest : ∀ later ∈ rest, edit.span.stop ≤ later.span.start) :
    replaceAllFrom (edit :: rest) offset (inside ++ text)
      = replaceAllFrom rest edit.span.stop text := by
  induction inside generalizing offset with
  | nil =>
    rw [Text.size, Nat.add_zero] at hstop
    rw [List.nil_append, hstop]
    exact replaceAllFrom_cons_of_passed text hstart hstop.le
  | cons c inside ih =>
    have hpos := c.utf8Size_pos
    rw [Text.size] at hstop
    have hlt : ∀ later ∈ rest, offset < later.span.start := by
      intro later hlater
      have hle := hrest later hlater
      omega
    have hcovered : (edit :: rest).any (replacesAt offset) = true := by
      rw [List.any_cons, Bool.or_eq_true, replacesAt, Bool.and_eq_true, decide_eq_true_eq,
        decide_eq_true_eq]
      left
      omega
    rw [List.cons_append, replaceAllFrom, writtenAt_cons_of_ne hstart.ne,
      writtenAt_of_forall_lt hlt, hcovered, if_pos rfl, ih (by omega) (by omega)]
    rfl

/-- Where the first edit has its span, its text is written. -/
theorem replaceAllFrom_cons_here {inside : Text} (text : Text)
    (hspan : edit.span = ⟨offset, offset + inside.size⟩)
    (hrest : ∀ later ∈ rest, offset + inside.size ≤ later.span.start) :
    replaceAllFrom (edit :: rest) offset (inside ++ text)
      = edit.text ++ replaceAllFrom rest (offset + inside.size) text := by
  cases inside with
  | nil =>
    -- an insertion: a span that is replaced may start at the same offset
    have hwritten : writtenAt (edit :: rest) offset = edit.text ++ writtenAt rest offset := by
      simp [writtenAt, insertsAt, replacesFrom, hspan, Text.size]
    cases text with
    | nil => exact hwritten
    | cons c text =>
      have hpos := c.utf8Size_pos
      have hkept : (edit :: rest).any (replacesAt offset) = rest.any (replacesAt offset) := by
        simp [replacesAt, hspan, Text.size]
      have hpassed : replaceAllFrom (edit :: rest) (offset + c.utf8Size) text
          = replaceAllFrom rest (offset + c.utf8Size) text := by
        apply replaceAllFrom_cons_of_passed <;> rw [hspan]
        · show offset < _
          omega
        · show offset + 0 ≤ _
          omega
      show replaceAllFrom (edit :: rest) offset (c :: text)
        = edit.text ++ replaceAllFrom rest offset (c :: text)
      simp only [replaceAllFrom, hwritten, hkept, hpassed, List.append_assoc]
  | cons c inside =>
    have hpos := c.utf8Size_pos
    rw [Text.size] at hspan hrest
    have hlt : ∀ later ∈ rest, offset < later.span.start := by
      intro later hlater
      have hle := hrest later hlater
      omega
    have hwritten : writtenAt (edit :: rest) offset = edit.text := by
      have hnone := writtenAt_of_forall_lt hlt
      rw [writtenAt, List.append_eq_nil_iff] at hnone
      have hinserts : ¬ edit.insertsAt offset = true := by
        simp only [insertsAt, hspan, Bool.and_eq_true, decide_eq_true_eq, true_and]
        omega
      have hreplaces : edit.replacesFrom offset = true := by
        simp only [replacesFrom, hspan, Bool.and_eq_true, decide_eq_true_eq, true_and]
        omega
      rw [writtenAt, List.filter_cons_of_neg hinserts, List.filter_cons_of_pos hreplaces,
        List.flatMap_cons, hnone.1, hnone.2, List.nil_append, List.append_nil]
    have hcovered : (edit :: rest).any (replacesAt offset) = true := by
      simp only [List.any_cons, Bool.or_eq_true, replacesAt, hspan, Bool.and_eq_true,
        decide_eq_true_eq]
      left
      omega
    rw [List.cons_append, replaceAllFrom, hwritten, hcovered, if_pos rfl,
      replaceAllFrom_cons_inside text (by rw [hspan]; show offset < _; omega)
        (by rw [hspan]; show offset + _ = _; omega) (by rw [hspan]; exact hrest), hspan, Text.size,
      List.append_nil]

/-! ## The order of edits does not matter -/

theorem pairwise_filter_of_apart {p : TextEdit → Bool} (hapart : edits.Pairwise Apart)
    (hp : ∀ a b, p a = true → p b = true → ¬ a.Apart b) :
    (edits.filter p).Pairwise fun _ _ => False := by
  refine (hapart.filter p).imp_of_mem ?_
  intro a b ha hb hab
  exact hp a b (List.mem_filter.1 ha).2 (List.mem_filter.1 hb).2 hab

/-- Lists of at most one element are the same if they have the same elements. -/
theorem filter_eq_of_perm {other : List TextEdit} {p : TextEdit → Bool} (hperm : other.Perm edits)
    (hapart : edits.Pairwise Apart) (hp : ∀ a b, p a = true → p b = true → ¬ a.Apart b) :
    other.filter p = edits.filter p := by
  have hapart' : other.Pairwise Apart := hapart.perm hperm.symm Apart.symm
  exact (hperm.filter p).eq_of_pairwise (fun _ _ _ _ h => h.elim)
    (pairwise_filter_of_apart hapart' hp) (pairwise_filter_of_apart hapart hp)

theorem writtenAt_perm {other : List TextEdit} (hperm : other.Perm edits)
    (hapart : edits.Pairwise Apart) (offset : Nat) :
    writtenAt other offset = writtenAt edits offset := by
  rw [writtenAt, writtenAt, filter_eq_of_perm hperm hapart, filter_eq_of_perm hperm hapart]
  · intro a b ha hb hab
    simp only [replacesFrom, Bool.and_eq_true, decide_eq_true_eq] at ha hb
    have hbeside := hab.beside
    simp only [Span.IsBeside] at hbeside
    omega
  · intro a b ha hb hab
    simp only [insertsAt, Bool.and_eq_true, decide_eq_true_eq] at ha hb
    exact hab.once (by omega) (by omega) (by omega)

theorem replaceAllFrom_perm {other : List TextEdit} (hperm : other.Perm edits)
    (hapart : edits.Pairwise Apart) (offset : Nat) (text : Text) :
    replaceAllFrom other offset text = replaceAllFrom edits offset text := by
  induction text generalizing offset with
  | nil => exact writtenAt_perm hperm hapart offset
  | cons c text ih =>
    rw [replaceAllFrom, replaceAllFrom, writtenAt_perm hperm hapart, hperm.any_eq, ih]

/-! ## The order of application -/

theorem precedes_iff {a b : TextEdit} : a.precedes b = true
    ↔ b.span.start < a.span.start ∨ a.span.start = b.span.start ∧ b.span.stop ≤ a.span.stop := by
  simp only [precedes, Bool.or_eq_true, Bool.and_eq_true, decide_eq_true_eq]

instance : Std.Total fun a b : TextEdit => a.precedes b = true where
  total a b := by
    simp only [precedes_iff]
    omega

instance : IsTrans TextEdit fun a b => a.precedes b = true where
  trans a b c := by
    simp only [precedes_iff]
    omega

/-- The order of application is that of sorting by insertion. -/
theorem inApplicationOrder_eq_insertionSort (edits : List TextEdit) :
    inApplicationOrder edits = edits.insertionSort fun a b => a.precedes b = true := by
  have hinsert (edit : TextEdit) (edits : List TextEdit) :
      edit.insertOrdered edits = edits.orderedInsert (fun a b => a.precedes b = true) edit := by
    induction edits with
    | nil => rfl
    | cons other rest ih => rw [insertOrdered, List.orderedInsert_cons, ih]
  induction edits with
  | nil => rfl
  | cons edit rest ih =>
    rw [List.insertionSort_cons, ← ih, ← hinsert]
    rfl

theorem perm_inApplicationOrder (edits : List TextEdit) :
    (inApplicationOrder edits).Perm edits := by
  rw [inApplicationOrder_eq_insertionSort]
  exact List.perm_insertionSort _ edits

theorem pairwise_inApplicationOrder (edits : List TextEdit) :
    (inApplicationOrder edits).Pairwise fun a b => a.precedes b = true := by
  rw [inApplicationOrder_eq_insertionSort]
  exact List.pairwise_insertionSort _ edits

/-- Edits that are apart are applied in one order, however they are given. -/
theorem inApplicationOrder_perm {text : Text} {other : List TextEdit} (hperm : other.Perm edits)
    (hfits : ∀ edit ∈ edits, edit.span.Fits text) (hapart : edits.Pairwise Apart) :
    inApplicationOrder other = inApplicationOrder edits := by
  have hboth : (inApplicationOrder other).Perm (inApplicationOrder edits) :=
    (perm_inApplicationOrder other).trans (hperm.trans (perm_inApplicationOrder edits).symm)
  refine hboth.eq_of_pairwise ?_ (pairwise_inApplicationOrder other)
    (pairwise_inApplicationOrder edits)
  intro a b ha hb hab hba
  have ha := hboth.mem_iff.1 ha
  have ha := (perm_inApplicationOrder edits).mem_iff.1 ha
  have hb := (perm_inApplicationOrder edits).mem_iff.1 hb
  by_contra hne
  -- two edits of one span would both insert at one offset
  have hboth := hapart.forall ha hb hne
  have hbeside := hboth.beside
  have hle := (hfits a ha).le
  rw [precedes_iff] at hab hba
  simp only [Span.IsBeside] at hbeside
  exact hboth.once (by omega) (by omega) (by omega)

/-- Edits in the order of application that are apart: each stops where the one before it starts, or
in front of that. -/
theorem pairwise_stop_le_start {text : Text} (hfits : ∀ edit ∈ edits, edit.span.Fits text)
    (hapart : edits.Pairwise Apart) :
    (inApplicationOrder edits).reverse.Pairwise fun a b => a.span.stop ≤ b.span.start := by
  have hperm := perm_inApplicationOrder edits
  have hapart' : (inApplicationOrder edits).Pairwise Apart := hapart.perm hperm.symm Apart.symm
  rw [List.pairwise_reverse]
  refine ((pairwise_inApplicationOrder edits).and hapart').imp_of_mem ?_
  intro a b ha hb hab
  have hale := (hfits a (hperm.mem_iff.1 ha)).le
  have hble := (hfits b (hperm.mem_iff.1 hb)).le
  have hprecedes := precedes_iff.1 hab.1
  have hbeside := hab.2.beside
  simp only [Span.IsBeside] at hbeside
  omega

end TextEdit

namespace Editor

/-! ## Applying -/

/-- Edits one behind the other, applied from the last to the first, replace their spans at once. -/
theorem applyInTurn_reverse {e : Editor} {before text : Text} {edits : List TextEdit}
    (htext : e.text = before ++ text)
    (hsorted : edits.Pairwise fun a b => a.span.stop ≤ b.span.start)
    (hfits : ∀ edit ∈ edits, edit.span.Fits e.text ∧ before.size ≤ edit.span.start) :
    ∃ e', applyInTurn edits.reverse e = (e', .ok ())
      ∧ e'.text = before ++ TextEdit.replaceAllFrom edits before.size text := by
  -- what is behind an edit is edited first, so the induction is on the edits behind it
  induction edits generalizing before text with
  | nil => exact ⟨e, rfl, by rw [TextEdit.replaceAllFrom_nil, htext]⟩
  | cons edit rest ih =>
    obtain ⟨⟨hfit, hbefore⟩, hrest⟩ := List.forall_mem_cons.1 hfits
    obtain ⟨hlater, hsorted⟩ := List.pairwise_cons.1 hsorted
    obtain ⟨front, inside, back, hparts, hspan⟩ :=
      Text.exists_behind hfit.start hfit.stop hfit.le
    have hspan : edit.span = .behind front inside := hspan
    have hfront : before.size ≤ front.size := by
      rw [hspan] at hbefore
      exact hbefore
    have hsame : before ++ text = front ++ (inside ++ back) := by
      rw [← htext, hparts, List.append_assoc]
    obtain ⟨skipped, rfl, rfl⟩ := Text.exists_middle hsame hfront
    have hstop : edit.span.stop = (before ++ skipped ++ inside).size := by
      rw [hspan, Span.behind, ← Text.size_append]
    obtain ⟨e₁, hrun, htext₁⟩ := ih hparts hsorted (by
      intro later hmem
      refine ⟨(hrest later hmem).1, ?_⟩
      rw [← hstop]
      exact hlater later hmem)
    obtain ⟨e₂, hreplace, htext₂⟩ : ∃ e₂,
        e₁.replace (.behind (before ++ skipped) inside) edit.text = .ok e₂ ∧ e₂.text
          = before ++ skipped ++ edit.text
            ++ TextEdit.replaceAllFrom rest (before ++ skipped ++ inside).size back := by
      obtain ⟨d, hreplace, hd, -⟩ := replace_append htext₁ edit.text
      exact ⟨_, hreplace, hd⟩
    refine ⟨e₂, ?_, ?_⟩
    · rw [List.reverse_cons, applyInTurn_append hrun, applyInTurn, hspan, hreplace]
      rfl
    · have hstart : edit.span.start = before.size + skipped.size := by
        rw [hspan, Span.behind, Text.size_append]
      rw [Text.size_append, Text.size_append] at hstop
      have hskip : TextEdit.replaceAllFrom (edit :: rest) before.size (skipped ++ (inside ++ back))
          = skipped ++ TextEdit.replaceAllFrom (edit :: rest) (before.size + skipped.size)
            (inside ++ back) := by
        apply TextEdit.replaceAllFrom_skip
        refine List.forall_mem_cons.2 ⟨hstart.ge, ?_⟩
        intro later hmem
        have hle := hlater later hmem
        omega
      have hhere : TextEdit.replaceAllFrom (edit :: rest) (before.size + skipped.size)
            (inside ++ back)
          = edit.text ++ TextEdit.replaceAllFrom rest
            (before.size + skipped.size + inside.size) back := by
        apply TextEdit.replaceAllFrom_cons_here
        · rw [hspan, Span.behind, Text.size_append]
        · intro later hmem
          have hle := hlater later hmem
          omega
      rw [htext₂, hskip, hhere]
      simp only [List.append_assoc, Text.size_append, Nat.add_assoc]

variable {e : Editor} {edits : List TextEdit}

/-- **A batch of edits applies at once.**  If the spans of the edits are good in the text and the
edits are apart from each other, none of them is refused, whatever order they are given in, and the
text afterwards is the one before with all their spans replaced at once.  Given in any other order,
the edits leave the very same editor. -/
theorem applyEdits_at_once (hfits : ∀ edit ∈ edits, edit.span.Fits e.text)
    (hapart : edits.Pairwise TextEdit.Apart) :
    (∃ e', e.applyEdits edits = (e', .ok ()) ∧ e'.text = TextEdit.replaceAll edits e.text)
      ∧ ∀ other, other.Perm edits → e.applyEdits other = e.applyEdits edits := by
  constructor
  · have hperm := (List.reverse_perm _).trans (TextEdit.perm_inApplicationOrder edits)
    have htext : e.text = [] ++ e.text := rfl
    obtain ⟨e', hrun, htext'⟩ := applyInTurn_reverse htext
      (TextEdit.pairwise_stop_le_start hfits hapart) (by
        intro edit hedit
        exact ⟨hfits edit (hperm.mem_iff.1 hedit), Nat.zero_le _⟩)
    rw [List.reverse_reverse] at hrun
    refine ⟨e', hrun, htext'.trans ?_⟩
    exact TextEdit.replaceAllFrom_perm hperm hapart 0 e.text
  · intro other hother
    rw [applyEdits, applyEdits, TextEdit.inApplicationOrder_perm hother hfits hapart]

/-- Around a letter of two bytes: edits that touch each other and insertions at both ends of spans
that are replaced, in no order, and the same in reverse. -/
theorem applyEdits_at_once_of_touching :
    let e := ofText ['a', 'b', 'ü', 'd']
    let edits : List TextEdit := [.insertion 2 ['y'], ⟨⟨2, 4⟩, ['u']⟩, .insertion 4 ['z'],
      ⟨⟨1, 2⟩, []⟩, .insertion 1 ['x']]
    (∀ edit ∈ edits, edit.span.Fits e.text) ∧ edits.Pairwise TextEdit.Apart
      ∧ (∃ e', e.applyEdits edits = (e', .ok ()) ∧ e'.text = ['a', 'x', 'y', 'u', 'z', 'd'])
      ∧ e.applyEdits edits.reverse = e.applyEdits edits := by
  intro e edits
  have hfits : ∀ edit ∈ edits, edit.span.Fits e.text := by decide
  have hapart : edits.Pairwise TextEdit.Apart := by decide
  obtain ⟨⟨e', hrun, htext⟩, hother⟩ := applyEdits_at_once hfits hapart
  exact ⟨hfits, hapart, ⟨e', hrun, htext.trans (by decide)⟩, hother _ (List.reverse_perm edits)⟩

end Editor

end StatementCompletion
