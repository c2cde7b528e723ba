import StatementCompletion.Proofs.Completion.Step
import StatementCompletion.Proofs.Editor
import StatementCompletion.Proofs.Tree.Places

/-!
# The invariant of a completion

The editor keeps what it has to keep, and the tree tracks the document: it was made from a text that
the document had, so where the stamps agree it is the tree of the text.  Every step of a completion
preserves `Workspace.Sound`; what looks up offsets needs `Workspace.Current`, which holds from a
renewal of the tree to the next edit.
-/

namespace StatementCompletion

/-! ## Trees that track a document -/

/-- A tree of the document as it is or as it was. -/
structure Snapshot.Tracks (tree : Snapshot) (d : Document) : Prop where
  stamp_le : tree.stamp ≤ d.stamp
  root_eq : tree.stamp = d.stamp → tree.root = Node.ofText tree.kind d.text

namespace Snapshot

variable {tree : Snapshot} {d : Document} {e e' : Editor}

theorem tracks_ofDocument (kind : SourceKind) (d : Document) : (ofDocument kind d).Tracks d :=
  ⟨Nat.le_refl _, fun _ => rfl⟩

/-- A tree of the document as it is. -/
theorem Tracks.eq_ofDocument (h : tree.Tracks d) (hcurrent : tree.isCurrent d = true) :
    tree = .ofDocument tree.kind d := by
  have hstamp : tree.stamp = d.stamp := of_decide_eq_true hcurrent
  rw [ofDocument, ← h.root_eq hstamp, ← hstamp]

theorem Tracks.isTreeOf (h : tree.Tracks d) (hcurrent : tree.isCurrent d = true) :
    Node.IsTreeOf d.text tree.root := by
  rw [h.root_eq (of_decide_eq_true hcurrent)]
  exact Node.ofText_isTreeOf tree.kind d.text

theorem Tracks.advances (h : tree.Tracks e.document) (hadvances : e.Advances e') :
    tree.Tracks e'.document := by
  have hle := h.stamp_le
  rcases hadvances with hsame | hlater
  · rwa [hsame]
  · exact ⟨by omega, fun heq => by omega⟩

/-- A document that has not left its tree behind is the same. -/
theorem document_eq_of_isCurrent (hadvances : e.Advances e')
    (hcurrent : tree.isCurrent e.document = true) (hcurrent' : tree.isCurrent e'.document = true) :
    e'.document = e.document := by
  have hstamp : tree.stamp = e.document.stamp := of_decide_eq_true hcurrent
  have hstamp' : tree.stamp = e'.document.stamp := of_decide_eq_true hcurrent'
  rcases hadvances with hsame | hlater
  · exact hsame
  · omega

theorem isCurrent_renewed (tree : Snapshot) (d : Document) :
    (tree.renewed d).isCurrent d = true := by
  unfold renewed
  split
  · assumption
  · exact decide_eq_true rfl

theorem kind_renewed (tree : Snapshot) (d : Document) : (tree.renewed d).kind = tree.kind := by
  unfold renewed
  split <;> rfl

theorem Tracks.renewed (h : tree.Tracks d) : (tree.renewed d).Tracks d := by
  unfold Snapshot.renewed
  split
  · exact h
  · exact tracks_ofDocument tree.kind d

/-- A renewed tree is that of the document. -/
theorem Tracks.renewed_eq {kind : SourceKind} (h : tree.Tracks d) (hkind : tree.kind = kind) :
    tree.renewed d = .ofDocument kind d := by
  rw [h.renewed.eq_ofDocument (tree.isCurrent_renewed d), tree.kind_renewed, hkind]

end Snapshot

/-! ## The invariant -/

namespace Completion

/-- The invariant of a workspace. -/
structure Sound (original : Text) (slots : List Nat) (w : Workspace) : Prop where
  keeps : w.editor.Keeps original slots
  tracks : w.tree.Tracks w.editor.document

/-- The invariant, and the tree is that of the text as it is. -/
structure Current (original : Text) (slots : List Nat) (w : Workspace) : Prop
    extends Sound original slots w where
  isCurrent : w.tree.isCurrent w.editor.document = true

variable {original : Text} {slots : List Nat} {w w' : Workspace}

/-- The invariant is about the editor and the tree only. -/
theorem Sound.of_eq (h : Sound original slots w) (heditor : w'.editor = w.editor)
    (htree : w'.tree = w.tree) : Sound original slots w' :=
  ⟨heditor ▸ h.keeps, heditor ▸ htree ▸ h.tracks⟩

theorem Current.of_eq (h : Current original slots w) (heditor : w'.editor = w.editor)
    (htree : w'.tree = w.tree) : Current original slots w' :=
  ⟨h.toSound.of_eq heditor htree, heditor ▸ htree ▸ h.isCurrent⟩

/-- The invariant holds on while the tree stays and the editor follows. -/
theorem Sound.follows (h : Sound original slots w) (htree : w'.tree = w.tree)
    (hfollows : Editor.Follows original slots w.editor w'.editor) : Sound original slots w' :=
  ⟨hfollows.keeps, htree ▸ h.tracks.advances hfollows.advances⟩

theorem Current.isTreeOf (h : Current original slots w) :
    Node.IsTreeOf w.editor.text w.tree.root :=
  h.tracks.isTreeOf h.isCurrent

theorem Current.moveCaret (h : Current original slots w) (offset : Nat) :
    Current original slots { w with editor := w.editor.moveCaret offset } :=
  ⟨h.toSound.follows rfl (h.keeps.moveCaret offset), h.isCurrent⟩

theorem Current.mark (h : Current original [] w) (span : Span) :
    Current original [(w.editor.mark span).2] { w with editor := (w.editor.mark span).1 } :=
  ⟨⟨h.keeps.mark span, h.tracks⟩, h.isCurrent⟩

theorem Sound.release (h : Sound original slots w) (slot : Nat) :
    Sound original [] { w with editor := w.editor.release slot } :=
  ⟨h.keeps.release slot, h.tracks⟩

theorem Sound.renewTree (h : Sound original slots w) :
    Answers w renewTree fun _ w' => Current original slots w' ∧ w'.editor = w.editor := by
  have hcurrent := w.tree.isCurrent_renewed w.editor.document
  exact .modify ⟨⟨⟨h.keeps, h.tracks.renewed⟩, hcurrent⟩, rfl⟩

end Completion

end StatementCompletion
