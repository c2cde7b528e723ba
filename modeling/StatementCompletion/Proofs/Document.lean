import StatementCompletion.Document
import StatementCompletion.Proofs.Text.Cuts

/-!
# Edits that a document does not refuse

A span that cuts the text of a document in three parts is never refused.
-/

namespace StatementCompletion

/-! ## Not being refused -/

/-- A computation is not refused, and `Q` holds of its answer. -/
def Succeeds {ε α : Type} (p : Except ε α) (Q : α → Prop) : Prop :=
  ∃ a, p = .ok a ∧ Q a

namespace Succeeds

variable {ε α β : Type} {p : Except ε α} {Q R : α → Prop}

theorem ok {a : α} (h : Q a) : Succeeds (.ok a : Except ε α) Q :=
  ⟨a, rfl, h⟩

theorem mono (hp : Succeeds p Q) (h : ∀ a, Q a → R a) : Succeeds p R := by
  obtain ⟨a, hrun, hQ⟩ := hp
  exact ⟨a, hrun, h a hQ⟩

theorem bind {f : α → Except ε β} {S : β → Prop} (hp : Succeeds p Q)
    (hf : ∀ a, Q a → Succeeds (f a) S) : Succeeds (p >>= f) S := by
  obtain ⟨a, hrun, hQ⟩ := hp
  rw [hrun]
  exact hf a hQ

end Succeeds

/-! ## Spans between parts -/

/-- The span of a text behind another one. -/
def Span.behind (before inside : Text) : Span :=
  { start := before.size, stop := before.size + inside.size }

/-- A span between two boundaries cuts the text in three parts. -/
theorem Text.exists_behind {text : Text} {start stop : Nat} (hstart : text.isBoundary start = true)
    (hstop : text.isBoundary stop = true) (hle : start ≤ stop) :
    ∃ before inside after, text = before ++ inside ++ after
      ∧ (⟨start, stop⟩ : Span) = .behind before inside := by
  obtain ⟨before, rest, hbefore, rfl⟩ := Text.isBoundary_iff.1 hstart
  obtain ⟨upTo, after, hupTo, rfl⟩ := Text.isBoundary_iff.1 hstop
  obtain ⟨inside, rfl, -⟩ := Text.exists_middle (hbefore.symm.trans hupTo) hle
  exact ⟨before, inside, after, hupTo, by rw [Span.behind, Text.size_append]⟩

/-- A span between boundaries inside a part of a text cuts that part. -/
theorem Text.exists_behind_within {before part after : Text} {start stop : Nat}
    (hstart : (before ++ part ++ after).isBoundary start = true)
    (hstop : (before ++ part ++ after).isBoundary stop = true) (hbefore : before.size ≤ start)
    (hle : start ≤ stop) (hpart : stop ≤ before.size + part.size) :
    ∃ front inside back, before ++ part ++ after = front ++ inside ++ back
      ∧ (⟨start, stop⟩ : Span) = .behind front inside ∧ List.Sublist inside part := by
  obtain ⟨front, inside, back, htext, hspan⟩ := Text.exists_behind hstart hstop hle
  refine ⟨front, inside, back, htext, hspan, ?_⟩
  have hfront : start = front.size := congrArg Span.start hspan
  have hinside : stop = front.size + inside.size := congrArg Span.stop hspan
  rw [List.append_assoc, List.append_assoc] at htext
  obtain ⟨skipped, rfl, hrest⟩ := Text.exists_middle htext (hfront ▸ hbefore)
  rw [← List.append_assoc] at hrest
  obtain ⟨kept, rfl, -⟩ := Text.exists_middle hrest.symm (by
    rw [Text.size_append] at *
    omega)
  exact (List.sublist_append_right _ _).trans (List.sublist_append_left _ _)

namespace Document

variable {d : Document} {before inside after : Text}

theorem splitAt_append (h : d.text = before ++ after) :
    d.splitAt before.size = .ok (before, after) := by
  have hsize : ¬ d.size < before.size := by
    rw [size, h, Text.size_append]
    omega
  rw [splitAt, if_neg hsize, h, Text.splitAt?_append]

theorem cut_append (h : d.text = before ++ inside ++ after) :
    d.cut (.behind before inside) = .ok (before, inside, after) := by
  have hstart : d.splitAt before.size = .ok (before, inside ++ after) :=
    splitAt_append (by rw [h, List.append_assoc])
  have hstop : d.splitAt (before.size + inside.size) = .ok (before ++ inside, after) := by
    rw [← Text.size_append]
    exact splitAt_append h
  rw [cut, if_neg (by simp [Span.behind])]
  simp only [Span.behind, hstart, hstop]
  show Except.ok (before, (before ++ inside).drop before.length, after) = _
  rw [List.drop_left]

theorem slice_append (h : d.text = before ++ inside ++ after) :
    d.slice (.behind before inside) = .ok inside := by
  rw [slice, cut_append h]
  rfl

/-- What takes the place of a part stands between the two others, and unless nothing happens there
is a new stamp. -/
theorem replace_append (h : d.text = before ++ inside ++ after) (new : Text) :
    Succeeds (d.replace (.behind before inside) new) fun d' =>
      d'.text = before ++ new ++ after ∧ (d' = d ∨ d'.stamp = d.stamp + 1) := by
  rw [replace, cut_append h]
  show Succeeds (if (Span.behind before inside).start = (Span.behind before inside).stop ∧ new = []
    then pure d else pure { text := before ++ new ++ after, stamp := d.stamp + 1 }) _
  split
  · next hnothing =>
    obtain ⟨hspan, rfl⟩ := hnothing
    -- an empty span between two parts cuts nothing out
    have hinside : inside = [] := by
      apply Text.eq_nil_of_size_eq_zero
      simp only [Span.behind] at hspan
      omega
    subst hinside
    exact .ok ⟨h, .inl rfl⟩
  · exact .ok ⟨rfl, .inr rfl⟩

end Document

end StatementCompletion
