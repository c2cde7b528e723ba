import StatementCompletion.Proofs.Editor
import StatementCompletion.Proofs.Tree.Places
import StatementCompletion.Repair.Remedy

/-!
# What remedies write

A repair answers with actions before anything is done, so what they will do can be judged by the
text alone.  A remedy writes once or not at all: it adds delimiters behind a part of the tree,
closes a literal that lacks its quote, or puts a condition into parentheses or a body into braces.
`Mends` is the list of these cases, and whatever is known of the edits of remedies follows from it.

So a remedy puts pieces in front of a part of the text and behind it, and writes that part again as
it is.  Such an edit is not refused, and the editor keeps what it has to keep.
-/

namespace StatementCompletion

/-! ## Parts of a tree -/

namespace Cursor

variable {tree : Node} {c child : Cursor}

/-- A node of a tree that is neither white space nor a comment, and not the file as a whole. -/
structure IsPart (tree : Node) (c : Cursor) : Prop where
  below : Below (root tree) c
  isTrivia : c.kind.isTrivia = false
  isInner : c = root tree → c.kind ≠ .file

theorem Below.isPart (h : Below (root tree) c) {kind : Kind} (hkind : c.kind = kind)
    (htrivia : kind.isTrivia = false) (hfile : kind ≠ .file) : IsPart tree c :=
  ⟨h, hkind ▸ htrivia, fun _ => hkind ▸ hfile⟩

theorem Below.isPart_child (h : Below (root tree) c) (hchild : child ∈ c.children)
    (htrivia : child.kind.isTrivia = false) : IsPart tree child :=
  ⟨h.child hchild, htrivia, fun heq => absurd (heq ▸ Below.self) (h.not_below_child hchild)⟩

theorem Below.isPart_child? (h : Below (root tree) c) {kind : Kind}
    (hchild : c.child? kind = some child) (htrivia : kind.isTrivia = false) : IsPart tree child :=
  h.isPart_child (mem_of_child? hchild) (kind_of_child? hchild ▸ htrivia)

theorem isTrivia_of_mem_parts (h : child ∈ c.parts) : child.kind.isTrivia = false := by
  have hpart := (List.mem_filter.1 h).2
  rw [Bool.and_eq_true, Bool.not_eq_true'] at hpart
  exact hpart.1

theorem Below.isPart_of_mem_parts (h : Below (root tree) c) (hchild : child ∈ c.parts) :
    IsPart tree child :=
  h.isPart_child (mem_parts hchild) (isTrivia_of_mem_parts hchild)

theorem Below.isPart_of_lastPart? (h : Below (root tree) c) (hchild : c.lastPart? = some child) :
    IsPart tree child :=
  h.isPart_of_mem_parts (List.mem_of_getLast? hchild)

/-- The last part ends where it ends, or the node itself. -/
theorem IsPart.exists_partsStop (h : IsPart tree c) :
    ∃ part, IsPart tree part ∧ part.stop = c.partsStop := by
  cases hlast : c.lastPart? with
  | none => exact ⟨c, h, by rw [partsStop, hlast]⟩
  | some part => exact ⟨part, h.below.isPart_of_lastPart? hlast, by rw [partsStop, hlast]⟩

end Cursor

open Cursor

/-! ## What is written -/

namespace Repair

/-- What repairs write: the delimiters and what closes a `do` loop. -/
def pieces : List Text :=
  [['('], [')'], ['\x7b'], ['\x7d'], [';'], [','], ['"'], ['\''], ['\n'], doWhileTail]

/-- A text that pieces in a row make up. -/
inductive IsWritten : Text → Prop where
  | nil : IsWritten []
  | append {piece rest : Text} : piece ∈ pieces → IsWritten rest → IsWritten (piece ++ rest)

theorem IsWritten.piece {piece : Text} (h : piece ∈ pieces) : IsWritten piece := by
  simpa using IsWritten.append h .nil

theorem IsWritten.cons {c : Char} {rest : Text} (h : [c] ∈ pieces) (hrest : IsWritten rest) :
    IsWritten (c :: rest) :=
  .append h hrest

theorem IsWritten.pair {c d : Char} (hc : [c] ∈ pieces) (hd : [d] ∈ pieces) : IsWritten [c, d] :=
  .cons hc (.piece hd)

/-- What repairs put behind a part: the delimiters in a row, or what closes a `do` loop. -/
def additions : List Text :=
  [['('], [')'], ['\x7b'], ['\x7d'], [';'], [','], doWhileTail]

/-- A text that additions in a row make up. -/
inductive IsAddition : Text → Prop where
  | single {new : Text} : new ∈ additions → IsAddition new
  | append {new rest : Text} : new ∈ additions → IsAddition rest → IsAddition (new ++ rest)

namespace IsAddition

variable {new rest : Text}

theorem cons {c : Char} (h : [c] ∈ additions) (hrest : IsAddition rest) : IsAddition (c :: rest) :=
  .append h hrest

theorem pair {c d : Char} (hc : [c] ∈ additions) (hd : [d] ∈ additions) : IsAddition [c, d] :=
  .cons hc (.single hd)

theorem concat (h : IsAddition new) (hrest : IsAddition rest) : IsAddition (new ++ rest) := by
  induction h with
  | single hnew => exact .append hnew hrest
  | append hnew _ ih => exact List.append_assoc _ _ _ ▸ .append hnew ih

theorem separators (n : Nat) (hrest : IsAddition rest) :
    IsAddition (List.replicate n ';' ++ rest) := by
  induction n with
  | zero => exact hrest
  | succ n ih => exact .cons (by decide) ih

theorem isWritten (h : IsAddition new) : IsWritten new := by
  have hpieces : ∀ new ∈ additions, new ∈ pieces := by decide
  induction h with
  | single hnew => exact .piece (hpieces _ hnew)
  | append hnew _ ih => exact .append (hpieces _ hnew) ih

theorem ink_ne_nil (h : IsAddition new) : Text.ink new ≠ [] := by
  have hadditions : ∀ new ∈ additions, Text.ink new ≠ [] := by decide
  cases h with
  | single hnew => exact hadditions _ hnew
  | append hnew _ =>
    rw [Text.ink_append]
    exact List.append_ne_nil_of_left_ne_nil (hadditions _ hnew) _

end IsAddition

end Repair

open Repair (IsWritten IsAddition closingQuote? lacksQuote)

namespace Action

/-! ## The edits among actions -/

/-- The edit that an action is. -/
def edit? : Action → Option TextEdit
  | .replace edit => some edit
  | _ => none

/-- The edits among actions. -/
def edits (actions : List Action) : List TextEdit :=
  actions.filterMap edit?

variable {actions rest : List Action} {new text : Text} {tree : Node}

@[simp] theorem edits_replace (edit : TextEdit) :
    edits (.replace edit :: rest) = edit :: edits rest :=
  rfl

@[simp] theorem edits_recordBelow (c : Cursor) : edits (recordBelow c ++ rest) = edits rest := by
  rw [recordBelow]
  induction c.holes with
  | nil => rfl
  | cons offset offsets ih => exact ih

/-! ## The ways to mend a text -/

/-- The edits of a remedy in a text with a tree. -/
inductive Mends (tree : Node) (text : Text) : List TextEdit → Prop where
  | nothing : Mends tree text []
  /-- Something is put behind a part. -/
  | behind {part : Cursor} {new : Text} : IsPart tree part → IsAddition new →
      Mends tree text [.insertion part.stop new]
  /-- A literal gets the quote that it lacks. -/
  | literal {part : Cursor} {quote : Char} :
      IsPart tree part → closingQuote? part.kind = some quote →
      lacksQuote part.node.ownText quote = true → Mends tree text [.insertion part.stop [quote]]
  /-- A part is put into parentheses. -/
  | parentheses {part : Cursor} : IsPart tree part →
      Mends tree text [{ span := part.span, text := '(' :: part.node.text ++ [')'] }]
  /-- A part and the gap behind another part in front of it are put into braces. -/
  | braces {closed body : Cursor} {before gap after : Text} :
      IsPart tree closed → IsPart tree body →
      text = before ++ (gap ++ body.node.text) ++ after →
        (⟨closed.stop, body.stop⟩ : Span) = .behind before (gap ++ body.node.text) →
          Mends tree text [{ span := ⟨closed.stop, body.stop⟩
                             text := '\x7b' :: gap ++ body.node.text ++ ['\n', '\x7d'] }]

theorem mends_insert {part : Cursor} (hpart : IsPart tree part) (hnew : IsAddition new)
    (hrest : edits rest = []) : Mends tree text (edits (.insert part.stop new :: rest)) := by
  rw [insert, edits_replace, hrest]
  exact .behind hpart hnew

theorem mends_openBlock {part : Cursor} (hpart : IsPart tree part) :
    Mends tree text (edits (openBlock part.stop)) :=
  mends_insert hpart (.pair (by decide) (by decide)) rfl

theorem mends_recordBelow (c : Cursor) (h : Mends tree text (edits rest)) :
    Mends tree text (edits (recordBelow c ++ rest)) := by
  rwa [edits_recordBelow]

end Action

/-! ## What the repairs write -/

namespace Repair

open StatementCompletion.Action

variable {text : Text} {tree : Node} {c : Cursor}

/-! ### Delimiters -/

theorem mends_closeLiteral (h : Below (root tree) c) :
    Mends tree text (edits (closeLiteral c)) := by
  unfold closeLiteral
  split
  · next quote hquote =>
    split
    · next hlacks =>
      refine .literal ⟨h, ?_, fun _ => ?_⟩ hquote hlacks
      · cases hkind : c.kind <;> first | rfl | rw [hkind] at hquote; cases hquote
      · intro hkind
        rw [hkind] at hquote
        cases hquote
    · exact .nothing
  · exact .nothing

theorem mends_closeWith {kind : Kind} (delimiter : Kind) {closer : Text} (h : Below (root tree) c)
    (htrivia : kind.isTrivia = false) (hfile : kind ≠ .file) (hcloser : closer ∈ additions) :
    Mends tree text (edits (closeWith kind delimiter closer c)) := by
  unfold closeWith
  split
  · next hopen =>
    obtain ⟨part, hpart, hstop⟩ := (h.isPart hopen.1 htrivia hfile).exists_partsStop
    rw [← hstop]
    exact mends_insert hpart (.single hcloser) rfl
  · exact .nothing

theorem mends_closeArguments (h : Below (root tree) c) :
    Mends tree text (edits (closeArguments c)) := by
  unfold closeArguments
  split
  · split
    · next list hlist =>
      exact mends_recordBelow _ (mends_closeWith _ (h.child (mem_of_child? hlist)) rfl
        (by decide) (by decide))
    · exact .nothing
  · exact .nothing

theorem mends_closeParenthesized (h : Below (root tree) c) :
    Mends tree text (edits (closeParenthesized c)) := by
  unfold closeParenthesized
  split
  · exact mends_recordBelow _ (mends_closeWith _ h rfl (by decide) (by decide))
  · exact .nothing

theorem mends_addSemicolon (h : Below (root tree) c) :
    Mends tree text (edits (addSemicolon c)) := by
  unfold addSemicolon
  split
  · refine mends_recordBelow _ ?_
    split
    · exact .nothing
    · split
      · next last hlast =>
        split
        · exact .nothing
        · exact mends_insert (h.isPart_of_lastPart? hlast) (.single (by decide)) rfl
      · exact .nothing
  · exact .nothing

theorem mends_separateConstant (h : Below (root tree) c) :
    Mends tree text (edits (separateConstant c)) := by
  unfold separateConstant
  split
  · next hkind =>
    have hself := h.isPart hkind rfl (by decide)
    split
    · next previous hprevious =>
      obtain ⟨hfound, hconstant⟩ := Option.filter_eq_some_iff.1 hprevious
      obtain ⟨p, hp, hsibling⟩ := mem_before (List.mem_of_find?_eq_some hfound)
      have hpart := (h.parent hp).isPart_child hsibling (by rw [of_decide_eq_true hconstant]; rfl)
      exact mends_insert hpart (.single (by decide)) rfl
    · split
      · split
        · exact mends_insert hself (.single (by decide)) rfl
        · split
          · exact mends_insert hself (.single (by decide)) rfl
          · exact .nothing
      · exact .nothing
  · exact .nothing

/-! ### Headers -/

theorem mem_of_headerParts {keyword child : Cursor} (h : child ∈ headerParts c keyword) :
    child ∈ c.children :=
  mem_childrenAfter ((List.takeWhile_sublist _).subset (List.mem_filter.1 h).1)

theorem isPart_of_headerParts {keyword part : Cursor} {p : Cursor → Bool} (h : Below (root tree) c)
    (hpart : (headerParts c keyword).find? p = some part) : IsPart tree part := by
  have hmem := List.mem_of_find?_eq_some hpart
  refine h.isPart_child (mem_of_headerParts hmem) ?_
  simpa using (List.mem_filter.1 hmem).2

theorem mends_emptyHeader (h : IsPart tree c) : Mends tree text (edits (emptyHeader c)) :=
  mends_insert h (.pair (by decide) (by decide)) rfl

theorem mends_closeParentheses {opened : Cursor} {held : Option Cursor}
    (hopened : IsPart tree opened)
    (hheld : ∀ part, held = some part → IsPart tree part) (isClosed : Bool) :
    Mends tree text (edits (closeParentheses opened held isClosed)) := by
  have hclosing {part : Cursor} (hpart : IsPart tree part) :
      Mends tree text (edits (if isClosed then [] else [.insert part.stop [')']])) := by
    split
    · exact .nothing
    · exact mends_insert hpart (.single (by decide)) rfl
  unfold closeParentheses
  cases held with
  | none => exact hclosing hopened
  | some part => exact mends_recordBelow part (hclosing (hheld part rfl))

theorem mends_completeHeader (statement keyword : Kind) (h : Below (root tree) c)
    (hkeyword : keyword.isTrivia = false) :
    Mends tree text (edits (completeHeader statement keyword c)) := by
  unfold completeHeader
  split
  · split
    · exact .nothing
    · next word hword =>
      dsimp only
      split
      · next opened hopened =>
        exact mends_closeParentheses (isPart_of_headerParts h hopened)
          (fun _ hpart => isPart_of_headerParts h hpart) _
      · next condition _ hcondition => exact .parentheses (isPart_of_headerParts h hcondition)
      · exact mends_emptyHeader (h.isPart_child? hword hkeyword)
  · exact .nothing

theorem mends_completeDoWhile (h : Below (root tree) c) :
    Mends tree text (edits (completeDoWhile c)) := by
  unfold completeDoWhile
  split
  · split
    · exact mends_completeHeader _ _ h rfl
    · split
      · next body hbody =>
        have hpart := h.isPart_child (List.mem_of_find?_eq_some hbody)
          (Kind.isTrivia_of_isStatement (by simpa using List.find?_some hbody))
        exact mends_insert hpart (.single (by decide)) rfl
      · exact .nothing
  · exact .nothing

theorem mends_completeCatch (h : Below (root tree) c) :
    Mends tree text (edits (completeCatch c)) := by
  unfold completeCatch
  split
  · split
    · next opened _ hopened =>
      exact mends_closeParentheses (h.isPart_child? hopened rfl)
        (fun _ hpart => h.isPart_child? hpart rfl) _
    · next keyword hkeyword _ => exact mends_emptyHeader (h.isPart_child? hkeyword rfl)
    · exact .nothing
  · exact .nothing

/-! ### Bodies -/

theorem mem_of_thenBranch? {closed body : Cursor} (h : thenBranch? c closed = some body) :
    body ∈ c.childrenAfter closed.index :=
  (List.takeWhile_sublist _).subset (List.mem_of_find?_eq_some h)

theorem mem_of_body? {closed body : Cursor} (h : body? c closed = some body) :
    body ∈ c.childrenAfter closed.index := by
  unfold body? at h
  split at h
  · exact mem_of_thenBranch? h
  · exact List.mem_of_find?_eq_some h

theorem isStatement_of_body? {closed body : Cursor} (h : body? c closed = some body) :
    body.kind.isStatement = true := by
  unfold body? at h
  split at h
  · simpa using List.find?_some h
  · simpa using List.find?_some h

/-- What is put into braces is the gap in front of the body and the body, as they are. -/
theorem succeeds_braceBody_mends {d : Document} (htree : Node.IsTreeOf d.text tree)
    (h : Below (root tree) c) :
    Succeeds (braceBody d c) fun actions => Mends tree d.text (edits actions) := by
  unfold braceBody
  split
  · split
    · exact .ok .nothing
    · next closed hclosed =>
      split
      · exact .ok .nothing
      · next body hbody =>
        have hmem := mem_of_body? hbody
        split
        · exact .ok .nothing
        · obtain ⟨before, gap, after, htext, hgap, hwhole⟩ :=
            Within.exists_gap ⟨tree, htree, h⟩ (mem_of_child? hclosed) hmem
          have hcut : d.text = before ++ gap ++ (body.node.text ++ after) := by simp [htext]
          rw [hgap, Document.slice_append hcut]
          split
          · exact .ok .nothing
          · have hpart := h.isPart_child (mem_childrenAfter hmem)
              (Kind.isTrivia_of_isStatement (isStatement_of_body? hbody))
            exact .ok (.braces (h.isPart_child? hclosed rfl) hpart htext hwhole)
  · exact .ok .nothing

theorem mends_addBranch (h : Below (root tree) c) : Mends tree text (edits (addBranch text c)) := by
  unfold addBranch
  split
  · split
    · exact .nothing
    · next closed hclosed =>
      split
      · exact mends_openBlock (h.isPart_child? hclosed rfl)
      · split
        · next keyword hkeyword =>
          split
          · exact mends_openBlock (h.isPart_child? hkeyword rfl)
          · exact .nothing
        · exact .nothing
  · exact .nothing

/-! ### Loops -/

theorem exists_openHeaderStop {opened : Cursor} (h : Below (root tree) c)
    (hopened : IsPart tree opened)
    (body : Option Cursor) :
    ∃ part, IsPart tree part ∧ part.stop = openHeaderStop c opened body := by
  unfold openHeaderStop
  dsimp only
  split
  · next part hpart =>
    have hmem := (List.takeWhile_sublist _).subset (List.mem_of_getLast? hpart)
    exact ⟨part, h.isPart_of_mem_parts (List.mem_filter.1 hmem).1, rfl⟩
  · exact ⟨opened, hopened, rfl⟩

theorem mends_finishHeader {opened : Cursor} {closer : Text} (h : Below (root tree) c)
    (hopened : IsPart tree opened) (body : Option Cursor) (hcloser : IsAddition closer) :
    Mends tree text (edits (finishHeader text c opened body closer)) := by
  obtain ⟨part, hpart, hstop⟩ := exists_openHeaderStop h hopened body
  unfold finishHeader
  rw [← hstop]
  dsimp only
  split
  · exact mends_insert hpart hcloser rfl
  · exact mends_insert hpart (hcloser.concat (.pair (by decide) (by decide))) rfl

theorem mends_addLoopBody {closed : Cursor} (c : Cursor) (h : IsPart tree closed) :
    Mends tree text (edits (addLoopBody text c closed)) := by
  unfold addLoopBody
  split
  · exact mends_openBlock h
  · exact .nothing

theorem mends_addWhileBody (h : Below (root tree) c) :
    Mends tree text (edits (addWhileBody text c)) := by
  unfold addWhileBody
  split
  · split
    · next closed hclosed => exact mends_addLoopBody c (h.isPart_child? hclosed rfl)
    · exact .nothing
  · exact .nothing

theorem mends_completeForeach (h : Below (root tree) c) :
    Mends tree text (edits (completeForeach text c)) := by
  unfold completeForeach
  split
  · split
    · next closed hclosed => exact mends_addLoopBody c (h.isPart_child? hclosed rfl)
    · next opened _ hopened =>
      exact mends_finishHeader h (h.isPart_child? hopened rfl) _ (.single (by decide))
    · exact .nothing
  · exact .nothing

theorem mends_completeFor (h : Below (root tree) c) :
    Mends tree text (edits (completeFor text c)) := by
  unfold completeFor
  split
  · split
    · exact .nothing
    · next closed _ hclosed => exact mends_addLoopBody c (h.isPart_child? hclosed rfl)
    · next opened hopened _ =>
      exact mends_finishHeader h (h.isPart_child? hopened rfl) _
        (.separators _ (.single (by decide)))
  · exact .nothing

/-! ### Blocks -/

theorem mends_addBlock (kind : Kind) (h : Below (root tree) c) :
    Mends tree text (edits (addBlock kind c)) := by
  unfold addBlock
  split
  · split
    · next closed hclosed =>
      exact mends_openBlock
        (h.isPart_child (mem_of_lastChild? hclosed) (kind_of_lastChild? hclosed ▸ rfl))
    · exact .nothing
  · exact .nothing

theorem mends_completeSynchronized (h : Below (root tree) c) :
    Mends tree text (edits (completeSynchronized text c)) := by
  unfold completeSynchronized
  split
  · split
    · exact .nothing
    · next opened hopened =>
      refine mends_recordBelow _ ?_
      split
      · exact mends_finishHeader h (h.isPart_child? hopened rfl) _ (.single (by decide))
      · exact mends_addBlock _ h
  · exact .nothing

theorem mends_addMethodBody (h : Below (root tree) c) :
    Mends tree text (edits (addMethodBody c)) := by
  unfold addMethodBody
  split
  · next hmethod =>
    obtain ⟨part, hpart, hstop⟩ := (h.isPart hmethod.1 rfl (by decide)).exists_partsStop
    rw [← hstop]
    exact mends_openBlock hpart
  · exact .nothing

/-! ### Values -/

theorem edits_recordReturnValue (c : Cursor) : edits (recordReturnValue c) = [] := by
  unfold recordReturnValue
  split
  · split <;> rfl
  · rfl

theorem edits_recordThrownValue (c : Cursor) : edits (recordThrownValue c) = [] := by
  unfold recordThrownValue
  split <;> rfl

end Repair

/-! ### All of them -/

namespace Remedy

open StatementCompletion.Action StatementCompletion.Repair

/-- **What a remedy writes.**  For a node in the tree of a text a remedy answers,
and its answer mends the text. -/
theorem succeeds_actions_mends {d : Document} {tree : Node} {c : Cursor}
    (htree : Node.IsTreeOf d.text tree) (h : Below (root tree) c) (remedy : Remedy) :
    Succeeds (remedy.actions d c) fun actions => Mends tree d.text (edits actions) := by
  cases remedy with
  | literal => exact .ok (mends_closeLiteral h)
  | call => exact .ok (mends_closeArguments h)
  | ifCondition => exact .ok (mends_completeHeader _ _ h rfl)
  | whileCondition => exact .ok (mends_completeHeader _ _ h rfl)
  | doWhileCondition => exact .ok (mends_completeDoWhile h)
  | switchSelector => exact .ok (mends_completeHeader _ _ h rfl)
  | catchParameter => exact .ok (mends_completeCatch h)
  | unbracedBody => exact succeeds_braceBody_mends htree h
  | ifBranches => exact .ok (mends_addBranch h)
  | whileBody => exact .ok (mends_addWhileBody h)
  | switchBlock => exact .ok (mends_addBlock _ h)
  | catchBlock => exact .ok (mends_addBlock _ h)
  | synchronizedBlock => exact .ok (mends_completeSynchronized h)
  | forLoop => exact .ok (mends_completeFor h)
  | foreachLoop => exact .ok (mends_completeForeach h)
  | methodBody => exact .ok (mends_addMethodBody h)
  | returnValue => exact .ok (edits_recordReturnValue c ▸ .nothing)
  | thrownValue => exact .ok (edits_recordThrownValue c ▸ .nothing)
  | parameters => exact .ok (mends_closeWith _ h rfl (by decide) (by decide))
  | parentheses => exact .ok (mends_closeParenthesized h)
  | semicolon => exact .ok (mends_addSemicolon h)
  | arrayElements => exact .ok (mends_closeWith _ h rfl (by decide) (by decide))
  | enumSeparator => exact .ok (mends_separateConstant h)

end Remedy

namespace Action

variable {actions rest : List Action} {text : Text} {tree : Node}

/-! ## Pieces around a part of the text -/

/-- The edit puts pieces, some ink among them, in front of a part of the text and behind it. -/
def Surrounds (text : Text) (edit : TextEdit) : Prop :=
  ∃ before inside after front back, text = before ++ inside ++ after ∧ IsWritten front
    ∧ IsWritten back
    ∧ Text.ink (front ++ back) ≠ []
    ∧ edit = { span := .behind before inside, text := front ++ inside ++ back }

/-- What is put behind a node is put around nothing. -/
theorem surrounds_insertion {part : Cursor} {new : Text} (htree : Node.IsTreeOf text tree)
    (hpart : IsPart tree part) (hnew : IsWritten new) (hink : Text.ink new ≠ []) :
    Surrounds text (.insertion part.stop new) := by
  have hboundary := Within.isBoundary_stop ⟨tree, htree, hpart.below⟩
  obtain ⟨before, after, htext, hstop⟩ := Text.isBoundary_iff.1 hboundary
  refine ⟨before, [], after, new, [], by simpa using htext, hnew,
    .nil, by rwa [List.append_nil], ?_⟩
  rw [← hstop, List.append_nil, List.append_nil]
  rfl

/-- A text is mended by one edit at most. -/
theorem Mends.surrounds {written : List TextEdit} (htree : Node.IsTreeOf text tree)
    (h : Mends tree text written) :
    written = [] ∨ ∃ edit, written = [edit] ∧ Surrounds text edit := by
  cases h with
  | nothing => exact .inl rfl
  | behind hpart hnew =>
    exact .inr ⟨_, rfl, surrounds_insertion htree hpart hnew.isWritten hnew.ink_ne_nil⟩
  | @literal part quote hpart hquote _ =>
    have hpiece : [quote] ∈ Repair.pieces ∧ Text.ink [quote] ≠ [] := by
      unfold closingQuote? at hquote
      split at hquote <;> cases hquote <;> decide
    exact .inr ⟨_, rfl, surrounds_insertion htree hpart (.piece hpiece.1) hpiece.2⟩
  | @parentheses part hpart =>
    obtain ⟨before, after, htext, hspan⟩ := Within.exists_parts ⟨tree, htree, hpart.below⟩
    refine .inr ⟨_, rfl, before, part.node.text, after, ['('], [')'], htext, .piece (by decide),
      .piece (by decide), by decide, ?_⟩
    rw [hspan]
    rfl
  | @braces closed body before gap after _ _ htext hspan =>
    refine .inr ⟨_, rfl, before, gap ++ body.node.text, after, ['\x7b'], ['\n', '\x7d'], htext,
      .piece (by decide), .pair (by decide) (by decide), by decide, ?_⟩
    rw [hspan]
    simp only [List.cons_append, List.nil_append]

/-- There is no edit, or one that puts pieces around a part of the text. -/
def Wraps (text : Text) (actions : List Action) : Prop :=
  edits actions = [] ∨ ∃ edit, edits actions = [edit] ∧ Surrounds text edit

/-! ## Harmless actions -/

/-- Each edit takes the place of a part of the text and leaves its ink. -/
inductive Harmless : Text → List Action → Prop where
  | nil {text : Text} : Harmless text []
  | caret {text : Text} {offset : Nat} {rest : List Action} :
      Harmless text rest → Harmless text (.caret offset :: rest)
  | hole {text : Text} {offset : Nat} {rest : List Action} :
      Harmless text rest → Harmless text (.hole offset :: rest)
  | replace {before inside after new : Text} {rest : List Action} :
      List.Sublist inside.ink new.ink → Harmless (before ++ new ++ after) rest →
        Harmless (before ++ inside ++ after)
          (.replace { span := .behind before inside, text := new } :: rest)

theorem harmless_of_edits_eq_nil (h : edits actions = []) (text : Text) :
    Harmless text actions := by
  induction actions with
  | nil => exact .nil
  | cons action rest ih =>
    cases action with
    | replace edit => cases h
    | caret offset => exact .caret (ih h)
    | hole offset => exact .hole (ih h)

/-- Pieces around a part leave its ink. -/
theorem Wraps.harmless (h : Wraps text actions) : Harmless text actions := by
  rcases h with hnone | ⟨_, hedits, before, inside, after, front, back, rfl, -, -, -, rfl⟩
  · exact harmless_of_edits_eq_nil hnone text
  · -- down to the edit, which is the first that is met
    induction actions with
    | nil => cases hedits
    | cons action rest ih =>
      cases action with
      | caret offset => exact .caret (ih hedits)
      | hole offset => exact .hole (ih hedits)
      | replace edit =>
        obtain ⟨rfl, hrest⟩ := List.cons.inj hedits
        refine .replace (Text.ink_sublist ?_) (harmless_of_edits_eq_nil hrest _)
        exact (List.sublist_append_right front inside).trans (List.sublist_append_left _ back)

end Action

/-- A remedy answers, and its answer is harmless. -/
theorem Remedy.succeeds_actions {d : Document} {c : Cursor} (h : c.Within d.text)
    (remedy : Remedy) : Succeeds (remedy.actions d c) (Action.Harmless d.text) := by
  obtain ⟨tree, htree, hbelow⟩ := h
  exact (remedy.succeeds_actions_mends htree hbelow).mono fun _ hmends =>
    Action.Wraps.harmless (hmends.surrounds htree)

/-! ## Carrying out -/

namespace Editor

variable {original : Text} {slots : List Nat} {e : Editor} {c : Cursor} {actions : List Action}

/-- Harmless actions are not refused. -/
theorem Keeps.applyAll (h : e.Keeps original slots) (hactions : Action.Harmless e.text actions)
    (holes : Holes) :
    Succeeds (Action.applyAll e holes actions) fun (e', _) => Follows original slots e e' := by
  -- along the actions, with the text as it is by then
  generalize htext : e.text = text at hactions
  induction hactions generalizing e holes with
  | nil => exact .ok h.follows_self
  | caret _ ih =>
    have hmove := h.moveCaret (e := e)
    exact (ih (hmove _).keeps holes htext).mono fun _ => (hmove _).trans
  | hole _ ih => exact ih h _ htext
  | replace hink _ ih =>
    obtain ⟨e₁, hrun, hfollows, htext₁⟩ := h.replace htext hink
    obtain ⟨⟨e', holes'⟩, hrest, hfollows'⟩ := ih hfollows.keeps holes htext₁
    refine ⟨(e', holes'), ?_, hfollows.trans hfollows'⟩
    rw [Action.applyAll, Action.apply, hrun]
    exact hrest

/-- A remedy for a node in the tree of the editor's text is not refused. -/
theorem Keeps.applyRemedy (h : e.Keeps original slots) (hc : c.Within e.text) (remedy : Remedy)
    (holes : Holes) :
    Succeeds (remedy.apply c e holes) fun (e', _) => Follows original slots e e' :=
  (remedy.succeeds_actions (d := e.document) hc).bind fun _ hactions =>
    h.applyAll hactions holes

end Editor

end StatementCompletion
