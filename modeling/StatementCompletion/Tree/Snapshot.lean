import StatementCompletion.Grammar.Source
import StatementCompletion.Tree.Search

/-!
# Snapshots

A snapshot is the tree of a document at one modification stamp.  It speaks of the document as long
as the stamps agree; after an edit it is renewed before anything is looked up in it again.
-/

namespace StatementCompletion

/-- The tree of a document, and the stamp the document had. -/
structure Snapshot where
  root : Node
  stamp : Nat
  kind : SourceKind

namespace Snapshot

/-- The tree of a document as it is now. -/
def ofDocument (kind : SourceKind) (d : Document) : Snapshot :=
  { root := Node.ofText kind d.text, stamp := d.stamp, kind }

/-- Whether the tree speaks of a document. -/
def isCurrent (s : Snapshot) (d : Document) : Bool :=
  s.stamp = d.stamp

/-- The snapshot itself if it is current, and otherwise a new one. -/
def renewed (s : Snapshot) (d : Document) : Snapshot :=
  if s.isCurrent d then s else ofDocument s.kind d

/-- The text the tree was made from. -/
def text (s : Snapshot) : Text :=
  s.root.text

/-- The root in its place. -/
def cursor (s : Snapshot) : Cursor :=
  .root s.root

end Snapshot

end StatementCompletion
