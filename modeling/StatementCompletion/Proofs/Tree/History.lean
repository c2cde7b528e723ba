import StatementCompletion.Proofs.Completion.Workspace

/-!
# Histories of a document and its tree

A tree is made from a document, and from then on the document is edited and the tree is renewed in
any order.  Some of the edits are refused and some change nothing.  The stamps tell the moments of
such a history apart well enough: where two moments have one stamp they have one text, and where
the tree has the stamp of the document it is the tree of the text that the document has.
-/

namespace StatementCompletion

/-! ## One edit -/

/-- An edit that is not refused leaves the document as it is, or gives it a new stamp. -/
theorem Document.eq_or_stamp_eq_of_replace {d d' : Document} {span : Span} {text : Text}
    (h : d.replace span text = .ok d') : d' = d ∨ d'.stamp = d.stamp + 1 := by
  unfold replace at h
  cases hcut : d.cut span with
  | error reason =>
    rw [hcut] at h
    nomatch h
  | ok parts =>
    rw [hcut] at h
    change (if span.start = span.stop ∧ text = [] then pure d
      else pure { text := parts.1 ++ text ++ parts.2.2, stamp := d.stamp + 1 }) = _ at h
    split at h
    · left
      injection h with h
      exact h.symm
    · right
      injection h with h
      rw [← h]

/-- The document after an attempt to edit it.  An edit that is refused changes nothing. -/
def Document.attempt (d : Document) (span : Span) (text : Text) : Document :=
  match d.replace span text with
  | .ok d' => d'
  | .error _ => d

theorem Document.eq_or_stamp_eq_attempt (d : Document) (span : Span) (text : Text) :
    d.attempt span text = d ∨ (d.attempt span text).stamp = d.stamp + 1 := by
  unfold attempt
  split
  · next d' hedit => exact eq_or_stamp_eq_of_replace hedit
  · exact .inl rfl

/-! ## Moments -/

/-- A document and a tree at one moment of their history. -/
structure Moment where
  document : Document
  tree : Snapshot

/-- What happens between two moments. -/
inductive Event where
  | edit (span : Span) (text : Text)
  | renewal

namespace Moment

/-- The moment when the tree is made. -/
def first (kind : SourceKind) (d : Document) : Moment :=
  { document := d, tree := .ofDocument kind d }

/-- The moment after an event. -/
def next (m : Moment) : Event → Moment
  | .edit span text => { m with document := m.document.attempt span text }
  | .renewal => { m with tree := m.tree.renewed m.document }

/-- The moments of a history, from a first one on. -/
def history (m : Moment) : List Event → List Moment
  | [] => [m]
  | event :: events => m :: (m.next event).history events

/-- A later moment has the same document, or a document with a later stamp. -/
def Precedes (m m' : Moment) : Prop :=
  m'.document = m.document ∨ m.document.stamp < m'.document.stamp

/-- The tree is one of a given kind that tracks the document. -/
structure Tracks (kind : SourceKind) (m : Moment) : Prop where
  kind_eq : m.tree.kind = kind
  tracks : m.tree.Tracks m.document

variable {kind : SourceKind} {m m' m'' : Moment}

theorem Precedes.refl (m : Moment) : m.Precedes m :=
  .inl rfl

theorem Precedes.trans (h : m.Precedes m') (h' : m'.Precedes m'') : m.Precedes m'' := by
  rcases h with hsame | hlater
  · unfold Precedes at h' ⊢
    rwa [hsame] at h'
  · right
    rcases h' with hsame' | hlater'
    · rwa [hsame']
    · omega

/-- Of two moments one of which precedes the other, the stamps are the same only if the documents
are. -/
theorem Precedes.document_eq (h : m.Precedes m')
    (hstamp : m.document.stamp = m'.document.stamp) : m'.document = m.document := by
  rcases h with hsame | hlater
  · exact hsame
  · omega

/-! ## What one event preserves -/

theorem precedes_next (m : Moment) (event : Event) : m.Precedes (m.next event) := by
  cases event with
  | renewal => exact .refl m
  | edit span text =>
    rcases m.document.eq_or_stamp_eq_attempt span text with hsame | hstamp
    · exact .inl hsame
    · right
      show m.document.stamp < (m.document.attempt span text).stamp
      omega

/-- An edit leaves the tree where it is, and a renewal leaves the document where it is. -/
theorem Tracks.next (h : m.Tracks kind) (event : Event) : (m.next event).Tracks kind := by
  cases event with
  | renewal =>
    constructor
    · show (m.tree.renewed m.document).kind = kind
      rw [Snapshot.kind_renewed, h.kind_eq]
    · exact h.tracks.renewed
  | edit span text =>
    have hle := h.tracks.stamp_le
    constructor
    · exact h.kind_eq
    · show m.tree.Tracks (m.next (.edit span text)).document
      rcases m.precedes_next (.edit span text) with hsame | hlater
      · rw [hsame]
        exact h.tracks
      · -- the document is ahead of the tree, which is not asked for its text any more
        constructor
        · omega
        · intro hstamp
          omega

/-! ## What a history preserves -/

/-- What holds of the first moment and is preserved by every event holds of every moment. -/
theorem forall_mem_history {P : Moment → Prop} (hnext : ∀ m event, P m → P (m.next event))
    (h : P m) (events : List Event) : ∀ m' ∈ m.history events, P m' := by
  induction events generalizing m with
  | nil =>
    intro m' hm'
    rw [history, List.mem_singleton] at hm'
    rwa [hm']
  | cons event events ih =>
    intro m' hm'
    rw [history, List.mem_cons] at hm'
    rcases hm' with rfl | hlater
    · exact h
    · exact ih (hnext m event h) m' hlater

theorem precedes_of_mem_history (m : Moment) (events : List Event) :
    ∀ m' ∈ m.history events, m.Precedes m' :=
  forall_mem_history (fun m' event h => h.trans (m'.precedes_next event)) (.refl m) events

/-- Of any two moments of a history one precedes the other. -/
theorem precedes_or_precedes (m : Moment) (events : List Event) :
    ∀ m' ∈ m.history events, ∀ m'' ∈ m.history events, m'.Precedes m'' ∨ m''.Precedes m' := by
  induction events generalizing m with
  | nil =>
    intro m' hm' m'' hm''
    rw [history, List.mem_singleton] at hm' hm''
    rw [hm', hm'']
    exact .inl (.refl m)
  | cons event events ih =>
    intro m' hm' m'' hm''
    rw [history, List.mem_cons] at hm' hm''
    have hfirst : ∀ later ∈ (m.next event).history events, m.Precedes later := fun later hlater =>
      (m.precedes_next event).trans (precedes_of_mem_history _ events later hlater)
    rcases hm' with rfl | hm'
    · rcases hm'' with rfl | hm''
      · exact .inl (.refl m'')
      · exact .inl (hfirst m'' hm'')
    · rcases hm'' with rfl | hm''
      · exact .inr (hfirst m' hm')
      · exact ih (m.next event) m' hm' m'' hm''

theorem tracks_first (kind : SourceKind) (d : Document) : (first kind d).Tracks kind :=
  ⟨rfl, Snapshot.tracks_ofDocument kind d⟩

/-- A tree that tracks the document and has its stamp is the tree of its text, and spells it. -/
theorem Tracks.tree_eq (h : m.Tracks kind) (hcurrent : m.tree.isCurrent m.document = true) :
    m.tree = .ofDocument kind m.document ∧ m.tree.text = m.document.text := by
  have htree := h.tracks.eq_ofDocument hcurrent
  rw [h.kind_eq] at htree
  refine ⟨htree, ?_⟩
  rw [htree]
  exact Node.text_ofText kind m.document.text

/-! ## The stamps are to be trusted -/

/-- At every moment of a history where the tree has the stamp of the document, it is the tree of
the text that the document has and spells this text, and two moments of one stamp have one text. -/
theorem stamps_sound (kind : SourceKind) (d : Document) (events : List Event) :
    (∀ m ∈ (first kind d).history events, m.tree.isCurrent m.document = true →
      m.tree = .ofDocument kind m.document ∧ m.tree.text = m.document.text)
    ∧ ∀ m ∈ (first kind d).history events, ∀ m' ∈ (first kind d).history events,
        m.document.stamp = m'.document.stamp → m.document.text = m'.document.text := by
  constructor
  · intro m hm hcurrent
    have htracks : m.Tracks kind :=
      forall_mem_history (fun _ event h => h.next event) (tracks_first kind d) events m hm
    exact htracks.tree_eq hcurrent
  · intro m hm m' hm' hstamp
    rcases precedes_or_precedes (first kind d) events m hm m' hm' with h | h
    · rw [h.document_eq hstamp]
    · rw [h.document_eq hstamp.symm]

/-- A statement that gets a left side: the edit, an edit that changes nothing, one that is refused
and a renewal.  The tree made last spells the text, and only the first of the edits has changed
it. -/
theorem stamps_sound_leftSide :
    let foo : Document := { text := "foo();".toList }
    let events : List Event :=
      [.edit ⟨0, 0⟩ "x = ".toList, .edit ⟨2, 2⟩ [], .edit ⟨9, 3⟩ [], .renewal]
    ∃ m ∈ (first .codeFragment foo).history events,
      m.tree.isCurrent m.document = true ∧ m.document.text = "x = foo();".toList
      ∧ m.tree.text = "x = foo();".toList
      ∧ ∃ m' ∈ (first .codeFragment foo).history events,
          m'.tree.isCurrent m'.document = false ∧ m.document.stamp = m'.document.stamp
          ∧ m.document.text = m'.document.text := by
  intro foo events
  let edited := (first .codeFragment foo).next (.edit ⟨0, 0⟩ "x = ".toList)
  let left := (edited.next (.edit ⟨2, 2⟩ [])).next (.edit ⟨9, 3⟩ [])
  have hedited : edited ∈ (first .codeFragment foo).history events := .tail _ (.head _)
  have hlast : left.next .renewal ∈ (first .codeFragment foo).history events :=
    .tail _ (.tail _ (.tail _ (.tail _ (.head _))))
  have hcurrent := Snapshot.isCurrent_renewed left.tree left.document
  have htext : left.document.text = "x = foo();".toList := rfl
  have sound := stamps_sound .codeFragment foo events
  refine ⟨_, hlast, hcurrent, htext, ?_, _, hedited, rfl, rfl, ?_⟩
  · exact (sound.1 _ hlast hcurrent).2.trans htext
  · exact sound.2 _ hlast _ hedited rfl

end Moment

end StatementCompletion
