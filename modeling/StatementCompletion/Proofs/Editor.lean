import StatementCompletion.Editor.Session
import StatementCompletion.Proofs.Document
import StatementCompletion.Token

/-!
# What an editor keeps through edits

A completion may do a lot to an editor, but some things it keeps: the ink that was there in the
beginning, a caret on the edge of a character, the stamp of the session and the markers that are in
use.  `Editor.Keeps` is that invariant, and `Keeps.replace` is the one lemma about edits that all
others come from: an edit that takes the place of a part of the text is never refused, and if the
ink of that part is in the new text, the invariant holds on.
-/

namespace StatementCompletion

/-! ## The ink of a text -/

namespace Text

/-- What is left of a text without its spaces, tabs, line feeds, carriage returns and form feeds.
White space is laid out anew all the time; the ink is what the user wrote. -/
def ink (text : Text) : Text :=
  text.filter (!Token.isSpace ·)

@[simp] theorem ink_nil : ink [] = [] :=
  rfl

@[simp] theorem ink_append (a b : Text) : ink (a ++ b) = ink a ++ ink b :=
  List.filter_append a b

theorem ink_eq_nil {text : Text} (h : ∀ c ∈ text, Token.isSpace c = true) : ink text = [] := by
  rw [ink, List.filter_eq_nil_iff]
  intro c hc
  simp [h c hc]

theorem ink_sublist {a b : Text} (h : List.Sublist a b) : List.Sublist (ink a) (ink b) :=
  h.filter _

/-- A blank has no ink. -/
theorem isSpace_of_isBlank {c : Char} (h : isBlank c = true) : Token.isSpace c = true := by
  simp only [isBlank, Bool.or_eq_true, decide_eq_true_eq] at h
  rcases h with rfl | rfl <;> rfl

end Text

/-! ## Markers across an edit -/

namespace Span

variable {start stop inserted first last : Nat}

/-- A marker behind what is edited moves along, also if it is empty and something is inserted where
it is. -/
theorem carryMarker_of_stop_le (hle : start ≤ stop) (hstop : stop ≤ first) (hlast : first ≤ last) :
    (⟨start, stop⟩ : Span).carryMarker inserted ⟨first, last⟩
      = ⟨first - (stop - start) + inserted, last - (stop - start) + inserted⟩ := by
  simp only [carryMarker, carry]
  rw [mk.injEq]
  constructor
  · split_ifs <;> omega
  · split_ifs <;> omega

/-- A marker in front of what is edited stays. -/
theorem carryMarker_of_le_start (hlast : first ≤ last) (hstart : last ≤ start)
    (hstop : first < stop) :
    (⟨start, stop⟩ : Span).carryMarker inserted ⟨first, last⟩ = ⟨first, last⟩ := by
  simp only [carryMarker, carry]
  rw [mk.injEq]
  constructor
  · split_ifs <;> omega
  · split_ifs <;> omega

/-- A marker around what is edited keeps its start. -/
theorem carryMarker_of_inside (hfirst : first ≤ start) (hle : start ≤ stop) (hlast : stop ≤ last)
    (hstart : first < stop) (hstop : start < last) :
    (⟨start, stop⟩ : Span).carryMarker inserted ⟨first, last⟩
      = ⟨first, last - (stop - start) + inserted⟩ := by
  simp only [carryMarker, carry]
  rw [mk.injEq]
  constructor
  · split_ifs <;> omega
  · split_ifs <;> omega

end Span

namespace Editor

/-! ## The invariant -/

/-- What an editor keeps: the ink of a text, the caret on a boundary, the stamp of the session and
the markers of some slots. -/
structure Keeps (original : Text) (slots : List Nat) (e : Editor) : Prop where
  ink : List.Sublist original.ink e.text.ink
  caret : e.text.isBoundary e.caret = true
  stamp : ∃ stamp, e.originalStamp = .ok stamp
  markers : ∀ slot ∈ slots, (e.marker? slot).isSome

/-- The document is still the same, or has a later stamp. -/
def Advances (e e' : Editor) : Prop :=
  e'.document = e.document ∨ e.document.stamp < e'.document.stamp

theorem Advances.refl (e : Editor) : e.Advances e :=
  .inl rfl

theorem Advances.trans {a b c : Editor} (hab : a.Advances b) (hbc : b.Advances c) :
    a.Advances c := by
  unfold Advances at *
  rcases hab with hab | hab <;> rcases hbc with hbc | hbc
  · exact .inl (hbc.trans hab)
  · exact .inr (hab ▸ hbc)
  · exact .inr (hbc ▸ hab)
  · exact .inr (hab.trans hbc)

/-! ## Positions across an edit -/

/-- A caret on the edge of a character is carried to the edge of one. -/
theorem isBoundary_carry {before inside after : Text} (new : Text) {caret : Nat}
    (h : (before ++ inside ++ after).isBoundary caret = true) :
    (before ++ new ++ after).isBoundary ((Span.behind before inside).carry new.size caret)
      = true := by
  obtain ⟨front, back, happend, rfl⟩ := Text.isBoundary_iff.1 h
  unfold Span.carry Span.behind
  -- the caret is in front of the new text, behind it, or in the place of it
  split_ifs with hstart hstop
  · rw [List.append_assoc] at happend
    obtain ⟨middle, hbefore, -⟩ := Text.exists_middle happend.symm hstart
    rw [hbefore, List.append_assoc, List.append_assoc]
    exact Text.isBoundary_append _ _
  · rw [← Text.size_append] at hstop
    obtain ⟨middle, hfront, hafter⟩ := Text.exists_middle happend hstop
    have hsize : front.size - (before.size + inside.size - before.size) + new.size
        = (before ++ new ++ middle).size := by
      simp only [hfront, Text.size_append]
      omega
    rw [hsize, hafter, ← List.append_assoc]
    exact Text.isBoundary_append _ _
  · rw [← Text.size_append]
    exact Text.isBoundary_append _ _

theorem marker?_map {e e' : Editor} {f : Span → Span}
    (h : e'.markers = e.markers.map (Option.map f)) (slot : Nat) :
    e'.marker? slot = (e.marker? slot).map f := by
  simp only [marker?, h, List.getElem?_map]
  cases e.markers[slot]? with
  | none => rfl
  | some marker => cases marker <;> rfl

/-- An edit that takes the place of a part of the text is not refused. -/
theorem replace_append {e : Editor} {before inside after : Text}
    (h : e.text = before ++ inside ++ after) (new : Text) :
    ∃ d, e.replace (.behind before inside) new = .ok { e with
        document := d
        caret := (Span.behind before inside).carry new.size e.caret
        markers := e.markers.map (Option.map ((Span.behind before inside).carryMarker new.size)) }
      ∧ d.text = before ++ new ++ after ∧ (d = e.document ∨ d.stamp = e.document.stamp + 1) := by
  obtain ⟨d, hreplace, hd⟩ := Document.replace_append (d := e.document) h new
  refine ⟨d, ?_, hd⟩
  rw [Editor.replace, hreplace]
  rfl

/-- The caret goes to a place where the text can be cut. -/
theorem caret_moveCaret {e : Editor} {before after : Text} (h : e.text = before ++ after) :
    (e.moveCaret before.size).caret = before.size := by
  show Text.floorBoundary before.size e.text = before.size
  rw [h, Text.floorBoundary_append]

/-- The whole text can be replaced. -/
theorem replace_all (e : Editor) (new : Text) :
    Succeeds (e.replace { start := 0, stop := e.document.size } new) fun e' => e'.text = new := by
  have hspan : ({ start := 0, stop := e.document.size } : Span) = .behind [] e.text := by
    simp [Span.behind, Document.size, Text.size, text]
  have hwhole : e.text = [] ++ e.text ++ [] := by simp
  obtain ⟨d, hreplace, htext, -⟩ := replace_append hwhole new
  rw [hspan, hreplace]
  exact .ok (by simpa [text] using htext)

/-! ## Keeping -/

variable {original : Text} {slots : List Nat} {e : Editor}

/-- The invariant holds on for an editor whose text has not gone back and that
has the same notes. -/
structure Follows (original : Text) (slots : List Nat) (e e' : Editor) : Prop where
  keeps : e'.Keeps original slots
  advances : e.Advances e'
  notes : e'.notes = e.notes

theorem Keeps.follows_self (h : e.Keeps original slots) : Follows original slots e e :=
  ⟨h, .refl e, rfl⟩

theorem Follows.trans {a b c : Editor} (hab : Follows original slots a b)
    (hbc : Follows original slots b c) : Follows original slots a c :=
  ⟨hbc.keeps, hab.advances.trans hbc.advances, hbc.notes.trans hab.notes⟩

/-- An edit that takes the place of a part of the text and leaves its ink is not refused. -/
theorem Keeps.replace (h : e.Keeps original slots) {before inside after new : Text}
    (htext : e.text = before ++ inside ++ after) (hink : List.Sublist inside.ink new.ink) :
    Succeeds (e.replace (.behind before inside) new) fun e' =>
      Follows original slots e e' ∧ e'.text = before ++ new ++ after := by
  obtain ⟨d, hreplace, hd, hstamp⟩ := replace_append htext new
  rw [hreplace]
  refine .ok ⟨⟨⟨?_, ?_, h.stamp, ?_⟩, ?_, rfl⟩, hd⟩
  · show List.Sublist original.ink d.text.ink
    refine h.ink.trans ?_
    rw [htext, hd]
    simp only [Text.ink_append]
    exact ((List.Sublist.refl _).append hink).append (List.Sublist.refl _)
  · show d.text.isBoundary _ = true
    rw [hd]
    exact isBoundary_carry new (htext ▸ h.caret)
  · intro slot hslot
    -- an edit moves markers and releases none
    rw [marker?_map (e := e) rfl, Option.isSome_map]
    exact h.markers slot hslot
  · rcases hstamp with hsame | hstamp
    · exact .inl hsame
    · exact .inr (by show _ < d.stamp; omega)

theorem Keeps.moveCaret (h : e.Keeps original slots) (offset : Nat) :
    Follows original slots e (e.moveCaret offset) :=
  ⟨⟨h.ink, Text.isBoundary_floorBoundary offset e.text, h.stamp, h.markers⟩, .inl rfl, rfl⟩

/-! ## Markers and sessions -/

theorem Keeps.mark (h : e.Keeps original []) (span : Span) :
    (e.mark span).1.Keeps original [(e.mark span).2] := by
  refine ⟨h.ink, h.caret, h.stamp, fun slot hslot => ?_⟩
  rw [List.mem_singleton.1 hslot]
  simp [Editor.mark, marker?]

theorem Keeps.release (h : e.Keeps original slots) (slot : Nat) :
    (e.release slot).Keeps original [] :=
  ⟨h.ink, h.caret, h.stamp, by simp⟩

/-- A session begins with a stamp that can be read back. -/
theorem keeps_beginSession (hcaret : e.text.isBoundary e.caret = true) :
    e.beginSession.Keeps e.text [] :=
  ⟨.refl _, hcaret,
    ⟨e.document.stamp, by simp [originalStamp, beginSession, number?, note?, keepNote]⟩, by simp⟩

end Editor

end StatementCompletion
