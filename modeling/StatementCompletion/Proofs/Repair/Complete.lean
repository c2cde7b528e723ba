import StatementCompletion.Proofs.Grammar.Lossless
import StatementCompletion.Proofs.Repair.Literal
import StatementCompletion.Proofs.Repair.Target
import StatementCompletion.Proofs.Tree.Parts
import StatementCompletion.Proofs.Tree.Places
import StatementCompletion.Repair.Remedy

/-!
# Nothing to mend

In a whole tree every remedy finds what it looks for: the delimiter, the header, the block or the
semicolon is there.  Two things are asked of the text besides, because they are not told from the
problems of the tree: that the literals are closed, and that the body of a header is a statement
that is in braces or starts on the line of the header.  Then a remedy records holes at most.
-/

namespace StatementCompletion

/-! ## Bodies -/

/-- The first child behind another one that is neither white space nor a comment. -/
def Cursor.partBehind? (c child : Cursor) : Option Cursor :=
  (c.childrenAfter child.index).find? (!·.kind.isTrivia)

namespace Repair

/-- What comes behind a header is a statement, in braces or on the line where the header ends, and a
statement is behind an `else`. -/
structure HasBody (text : Text) (c : Cursor) : Prop where
  body : ownsUnbracedBody c.kind = true → ∀ closed ∈ c.child? .rightParen,
    ∃ body ∈ c.partBehind? closed, body.kind.isStatement = true
      ∧ (body.kind = .blockStatement ∨ text.lineOf body.offset = text.lineOf closed.stop)
  branch : c.kind = .ifStatement → ∀ keyword ∈ c.child? .elseKeyword,
    ∃ branch ∈ c.partBehind? keyword, branch.kind.isStatement = true

instance (text : Text) (c : Cursor) : Decidable (HasBody text c) :=
  decidable_of_iff ((ownsUnbracedBody c.kind = true → ∀ closed ∈ c.child? .rightParen,
        ∃ body ∈ c.partBehind? closed, body.kind.isStatement = true
          ∧ (body.kind = .blockStatement ∨ text.lineOf body.offset = text.lineOf closed.stop))
      ∧ (c.kind = .ifStatement → ∀ keyword ∈ c.child? .elseKeyword,
        ∃ branch ∈ c.partBehind? keyword, branch.kind.isStatement = true))
    ⟨fun ⟨body, branch⟩ => ⟨body, branch⟩, fun ⟨body, branch⟩ => ⟨body, branch⟩⟩

/-! ## Answers without an edit -/

/-- No action changes the text or moves the caret. -/
def RecordsOnly (actions : List Action) : Prop :=
  ∀ action ∈ actions, ∃ offset, action = .hole offset

variable {actions more : List Action} {c : Cursor} {text : Text}

theorem recordsOnly_nil : RecordsOnly [] :=
  nofun

theorem recordsOnly_hole (offset : Nat) : RecordsOnly [.hole offset] :=
  List.forall_mem_singleton.2 ⟨offset, rfl⟩

theorem recordsOnly_recordBelow (c : Cursor) : RecordsOnly (Action.recordBelow c) := by
  intro action haction
  obtain ⟨offset, -, rfl⟩ := List.mem_map.1 haction
  exact ⟨offset, rfl⟩

theorem RecordsOnly.append (h : RecordsOnly actions) (hmore : RecordsOnly more) :
    RecordsOnly (actions ++ more) :=
  List.forall_mem_append.2 ⟨h, hmore⟩

/-! ## Delimiters -/

/-- Where the literals of a text are closed, no leaf of its tree is an open one. -/
theorem isOpenLiteral_of_below (kind : SourceKind) (text : Text)
    (hliterals : ∀ token ∈ Token.ofText text, isTerminated token = true)
    (hc : Cursor.Below (.root (Node.ofText kind text)) c) (hown : c.node.ownText ≠ []) :
    isOpenLiteral c.node = false := by
  obtain ⟨front, back, hleaves, -⟩ := hc.leaves_eq
  have hmem : c.node ∈ (Node.ofText kind text).leaves := by
    rw [hleaves, Node.leaves_eq_singleton hown]
    exact List.mem_append_left _ (List.mem_append_right _ List.mem_cons_self)
  obtain ⟨old, hold, -, hsame⟩ := (Node.ofText_softens kind text).exists_of_mem hmem
  obtain ⟨token, htoken, rfl⟩ := List.mem_map.1 hold
  rcases hsame with hsame | herror
  · have hkind : Node.kind token.node = token.kind := Token.kind_node token
    rw [hsame, ← isOpenLiteral_eq_false (hliterals token htoken), isOpenLiteral,
      isOpenLiteral, hkind, Token.ownText_node]
    rfl
  · rw [isOpenLiteral, herror]
    rfl

theorem closeWith_eq_nil {kind delimiter : Kind} (closer : Text)
    (h : c.kind = kind → delimiter ∈ Node.partKinds c.node.children) :
    closeWith kind delimiter closer c = [] := by
  unfold closeWith
  split
  · next hlacks =>
    exact absurd (Option.isNone_iff_eq_none.1 hlacks.2) (Cursor.child?_ne_none (h hlacks.1))
  · rfl

theorem recordsOnly_closeLiteral (h : isOpenLiteral c.node = false) :
    RecordsOnly (closeLiteral c) := by
  rw [closeLiteral_eq_nil h]
  exact recordsOnly_nil

theorem recordsOnly_closeWith {kind delimiter : Kind} (closer : Text)
    (h : c.kind = kind → delimiter ∈ Node.partKinds c.node.children) :
    RecordsOnly (closeWith kind delimiter closer c) := by
  rw [closeWith_eq_nil closer h]
  exact recordsOnly_nil

theorem recordsOnly_closeArguments (h : c.IsWhole) : RecordsOnly (closeArguments c) := by
  unfold closeArguments
  split
  · split
    · next list hlist =>
      have hlistWhole := h.child (Cursor.mem_of_child? hlist)
      refine (recordsOnly_recordBelow list).append (recordsOnly_closeWith _ fun hkind => ?_)
      exact hlistWhole.fits hkind rfl
    · exact recordsOnly_nil
  · exact recordsOnly_nil

theorem recordsOnly_closeParenthesized (h : c.IsWhole) :
    RecordsOnly (closeParenthesized c) := by
  unfold closeParenthesized
  split
  · refine (recordsOnly_recordBelow c).append (recordsOnly_closeWith _ fun hkind => ?_)
    exact h.fits hkind rfl
  · exact recordsOnly_nil

/-! ## Semicolons -/

/-- What needs a semicolon ends with one, unless it is in the header of a counting loop. -/
theorem getLast?_of_needsSemicolon (h : c.IsWhole) (hneeds : needsSemicolon c = true)
    (hparent : c.parentKind? ≠ some .forStatement) :
    (Node.partKinds c.node.children).getLast? = some .semicolon := by
  unfold needsSemicolon at hneeds
  split at hneeds
  · next hkind => exact h.ended hparent hkind
  · next hkind => exact h.fits hkind rfl
  · next hkind => exact h.fits hkind rfl
  · next hkind => exact h.fits hkind rfl
  · next hkind => exact h.fits hkind rfl
  · next hkind => exact h.fits hkind rfl
  · next hkind => exact (h.fits hkind rfl).2
  · next hkind => exact h.fits hkind rfl
  · next hkind =>
    obtain ⟨hnone, -⟩ := Bool.and_eq_true_iff.1 hneeds
    have hmethod : Kind.codeBlock ∈ Node.partKinds c.node.children
        ∨ (Node.partKinds c.node.children).getLast? = some .semicolon := h.fits hkind rfl
    refine hmethod.resolve_left fun hblock => ?_
    exact Cursor.child?_ne_none hblock (Option.isNone_iff_eq_none.1 hnone)
  · cases hneeds

theorem recordsOnly_addSemicolon (h : c.IsWhole) : RecordsOnly (addSemicolon c) := by
  unfold addSemicolon
  split
  · next hasks =>
    obtain ⟨hneeds, hparent, -⟩ := hasks
    have hlast := h.lastPart?_map.trans (getLast?_of_needsSemicolon h hneeds hparent)
    refine (recordsOnly_recordBelow c).append ?_
    split
    · exact recordsOnly_nil
    · split
      · next last hsome =>
        -- the last part is a semicolon
        rw [hsome, Option.map_some, Option.some.injEq] at hlast
        rw [refusesSemicolon, hlast]
        exact recordsOnly_nil
      · exact recordsOnly_nil
  · exact recordsOnly_nil

/-! ## Enum constants -/

theorem nearestReal?_eq {siblings : List Cursor} (h : ∀ sibling ∈ siblings, sibling.node.Whole) :
    nearestReal? siblings = siblings.head? := by
  cases siblings with
  | nil => rfl
  | cons first rest =>
    have hfirst := (h first List.mem_cons_self).isGap_eq_false
    exact List.find?_cons_of_pos (by simp [hfirst])

/-- In a whole tree enum constants are separated from each other and from what follows them. -/
theorem separates_of_parent? (h : c.IsWhole) (hkind : c.kind = .enumConstant) {p : Cursor}
    (hp : c.parent? = some p) : Kind.Separates (Cursor.kinds p.children) := by
  obtain ⟨hparent, hmem⟩ := h.parent p hp
  have hconstant : Kind.enumConstant ∈ Node.partKinds p.node.children := by
    rw [← Cursor.kinds_children, ← hkind]
    exact List.mem_map_of_mem (List.mem_filter.2 ⟨hmem, by rw [hkind]; rfl⟩)
  obtain ⟨hconstruct, -⟩ := hparent.of_mem_children (Cursor.node_mem_of_mem_children hmem)
  have hadmits := hparent.admits hconstruct
  have hclass : p.node.kind = .classDeclaration := by
    by_contra hother
    exact hadmits.constants hother hconstant
  have hfits := hadmits.fits
  rw [hclass] at hfits
  rwa [Cursor.kinds_children]

theorem recordsOnly_separateConstant (h : c.IsWhole) : RecordsOnly (separateConstant c) := by
  unfold separateConstant
  split
  case isFalse => exact recordsOnly_nil
  case isTrue hkind =>
  cases hp : c.parent? with
  | none =>
    rw [Cursor.before, Cursor.after, hp]
    exact recordsOnly_nil
  | some p =>
    obtain ⟨front, back, hchildren, hfront, hback⟩ := h.exists_siblings hp
    have hparent := (h.parent p hp).1
    have hwhole {row : List Cursor} (hrow : ∀ sibling ∈ row, sibling ∈ p.children) :
        ∀ sibling ∈ row.filter (!·.kind.isTrivia), sibling.node.Whole := fun sibling hmem => by
      have hchild := hrow sibling (List.mem_filter.1 hmem).1
      exact (hparent.of_mem_children (Cursor.node_mem_of_mem_children hchild)).2
    have hseparates := separates_of_parent? h hkind hp
    rw [hchildren, Cursor.kinds_append, Cursor.kinds_cons (by rw [hkind]; rfl), hkind] at hseparates
    -- where the members are separated, no constant is in front and no member behind
    have hbefore : (front.reverse.filter (!·.kind.isTrivia)).head?.filter (·.kind = .enumConstant)
        = none := by
      rw [List.filter_reverse, List.head?_reverse, Option.filter_eq_none_iff]
      intro previous hprevious hconstant
      obtain ⟨others, hothers⟩ := List.getLast?_eq_some_iff.1 hprevious
      rw [Cursor.kinds, hothers, List.map_append, List.append_assoc, List.map_singleton,
        of_decide_eq_true hconstant] at hseparates
      cases hseparates.isMember_eq_false
    have hafter (next : Cursor) (hnext : (back.filter (!·.kind.isTrivia)).head? = some next) :
        next.kind.isMember = false := by
      obtain ⟨others, hothers⟩ := List.head?_eq_some_iff.1 hnext
      rw [Cursor.kinds.eq_def back, hothers, List.map_cons] at hseparates
      exact hseparates.isMember_eq_false
    simp only [Cursor.before, Cursor.after, hp, hfront, hback]
    rw [nearestReal?_eq (hwhole fun sibling hmem => by simp_all),
      nearestReal?_eq (hwhole fun sibling hmem => by simp_all), hbefore]
    dsimp only
    split
    · next next hnext =>
      have hmember := hafter next hnext
      rw [if_neg (by rintro hconstant; rw [hconstant] at hmember; cases hmember), hmember]
      exact recordsOnly_nil
    · exact recordsOnly_nil

/-! ## Headers -/

theorem isTrivia_of_endsHeader {kind : Kind} (h : kind.isTrivia = true) :
    endsHeader kind = false := by
  cases kind <;> first | rfl | cases h

theorem endsHeader_of_isOperand {kind : Kind} (h : kind.isOperand = true) :
    endsHeader kind = false := by
  cases kind <;> first | rfl | cases h

/-- Where there is a header behind a keyword, it is what is found behind the keyword. -/
theorem kinds_headerParts {kind : Kind} {keyword : Cursor}
    (hkeyword : c.child? kind = some keyword)
    (h : Kind.HasHeader kind (Node.partKinds c.node.children)) :
    ∃ condition back, (headerParts c keyword).map Cursor.kind
      = .leftParen :: condition :: .rightParen :: back := by
  obtain ⟨front, condition, back, hfront, hcondition, hparts⟩ := h
  obtain ⟨before, hchildren, hkind, hbefore⟩ := Cursor.exists_of_child? hkeyword
  have htoken : keyword.kind.isTrivia = false := by
    have hmem : kind ∈ Node.partKinds c.node.children := by rw [hparts]; simp
    obtain ⟨node, hnode, hsame⟩ := List.mem_map.1 hmem
    have htrivia := (List.mem_filter.1 hnode).2
    rw [hsame, ← hkind] at htrivia
    simpa using htrivia
  rw [← Cursor.kinds_children, hchildren, Cursor.kinds_append, Cursor.kinds_cons htoken, hkind]
    at hparts
  -- the keyword is the first of its kind on both sides
  have hbehind : Cursor.kinds (c.childrenAfter keyword.index)
      = .leftParen :: condition :: .rightParen :: back := by
    rcases Cursor.split_cases hparts with ⟨-, -, hbehind⟩ | ⟨middle, hmiddle, -⟩
      | ⟨middle, hmiddle, -⟩
    · exact hbehind
    · exact absurd (hmiddle ▸ List.mem_append_right _ List.mem_cons_self) hbefore
    · exact absurd (hmiddle ▸ List.mem_append_right _ List.mem_cons_self) hfront
  have htakes : (fun child : Cursor => !(!child.kind.isTrivia) || !endsHeader child.kind)
      = fun child => !endsHeader child.kind := by
    funext child
    cases htrivia : child.kind.isTrivia with
    | false => rfl
    | true => rw [isTrivia_of_endsHeader htrivia]; rfl
  refine ⟨condition, back.takeWhile (!endsHeader ·), ?_⟩
  rw [headerParts, ← htakes, ← List.takeWhile_filter,
    show (fun child : Cursor => !endsHeader child.kind) = (!endsHeader ·) ∘ Cursor.kind from rfl,
    ← List.takeWhile_map]
  show (Cursor.kinds (c.childrenAfter keyword.index)).takeWhile (!endsHeader ·) = _
  have hopening : endsHeader .leftParen = false := rfl
  have hclosing : endsHeader .rightParen = false := rfl
  simp [hbehind, hopening, endsHeader_of_isOperand hcondition, hclosing]

/-- A header that is closed gets no more than holes. -/
theorem recordsOnly_closeParentheses (opened : Cursor) (held : Option Cursor) :
    RecordsOnly (closeParentheses opened held true) := by
  unfold closeParentheses
  refine RecordsOnly.append ?_ recordsOnly_nil
  cases held with
  | none => exact recordsOnly_hole _
  | some part => exact recordsOnly_recordBelow part

theorem recordsOnly_completeHeader {statement keyword : Kind}
    (h : c.kind = statement → Kind.HasHeader keyword (Node.partKinds c.node.children)) :
    RecordsOnly (completeHeader statement keyword c) := by
  unfold completeHeader
  split
  case isFalse => exact recordsOnly_nil
  case isTrue hkind =>
  split
  · exact recordsOnly_nil
  · next keyword hkeyword =>
    obtain ⟨condition, back, hparts⟩ := kinds_headerParts hkeyword (h hkind)
    have hfound {kind : Kind} (hkind : kind ∈ (headerParts c keyword).map Cursor.kind) :
        ∃ part ∈ headerParts c keyword, decide (part.kind = kind) = true := by
      obtain ⟨part, hpart, rfl⟩ := List.mem_map.1 hkind
      exact ⟨part, hpart, decide_eq_true rfl⟩
    have hopened : ((headerParts c keyword).find? (·.kind = .leftParen)).isSome :=
      List.find?_isSome.2 (hfound (by simp [hparts]))
    have hclosed : (headerParts c keyword).any (·.kind = .rightParen) = true :=
      List.any_eq_true.2 (hfound (by simp [hparts]))
    dsimp only
    split
    · rw [hclosed]
      exact recordsOnly_closeParentheses _ _
    · next hnone _ =>
      rw [hnone] at hopened
      cases hopened
    · next hnone _ =>
      rw [hnone] at hopened
      cases hopened

theorem recordsOnly_completeDoWhile (h : c.IsWhole) : RecordsOnly (completeDoWhile c) := by
  unfold completeDoWhile
  split
  case isFalse => exact recordsOnly_nil
  case isTrue hkind =>
  have hheader := (h.fits hkind rfl).1
  split
  · exact recordsOnly_completeHeader fun _ => hheader
  · next hnone =>
    obtain ⟨front, condition, back, -, -, hparts⟩ := hheader
    exact absurd (Cursor.child?_isSome (by rw [hparts]; simp)) hnone

theorem recordsOnly_completeCatch (h : c.IsWhole) : RecordsOnly (completeCatch c) := by
  unfold completeCatch
  split
  case isFalse => exact recordsOnly_nil
  case isTrue hkind =>
  obtain ⟨hopened, hclosed, -⟩ := h.fits hkind rfl
  split
  · rw [Cursor.child?_isSome hclosed]
    exact recordsOnly_closeParentheses _ _
  · next hnone => exact absurd hnone (Cursor.child?_ne_none hopened)
  · exact recordsOnly_nil

/-! ## Bodies that are there -/

theorem exists_of_partBehind? {child part : Cursor} (h : c.partBehind? child = some part) :
    ∃ front back, c.childrenAfter child.index = front ++ part :: back
      ∧ ∀ trivia ∈ front, trivia.kind.isTrivia = true := by
  obtain ⟨-, front, back, hchildren, hfront⟩ := List.find?_eq_some_iff_append.1 h
  exact ⟨front, back, hchildren, fun trivia htrivia => by simpa using hfront trivia htrivia⟩

/-- Among nodes in a row a statement behind white space and comments is found. -/
theorem find?_isStatement {front back : List Cursor} {part : Cursor}
    (hfront : ∀ trivia ∈ front, trivia.kind.isTrivia = true)
    (hpart : part.kind.isStatement = true) :
    (front ++ part :: back).find? (·.kind.isStatement) = some part := by
  rw [List.find?_eq_some_iff_append]
  refine ⟨hpart, front, back, rfl, fun trivia htrivia => ?_⟩
  rw [Kind.isStatement_of_isTrivia (hfront trivia htrivia)]
  rfl

theorem statementBehind?_eq {child part : Cursor} (h : c.partBehind? child = some part)
    (hpart : part.kind.isStatement = true) : c.statementBehind? child = some part := by
  obtain ⟨front, back, hchildren, hfront⟩ := exists_of_partBehind? h
  rw [Cursor.statementBehind?, hchildren]
  exact find?_isStatement hfront hpart

theorem thenBranch?_eq {closed part : Cursor} (h : c.partBehind? closed = some part)
    (hpart : part.kind.isStatement = true) : thenBranch? c closed = some part := by
  obtain ⟨front, back, hchildren, hfront⟩ := exists_of_partBehind? h
  have hfront' : ∀ trivia ∈ front, decide (trivia.kind ≠ .elseKeyword) = true :=
    fun trivia htrivia => by
    have hkind := hfront trivia htrivia
    rw [decide_eq_true_eq]
    intro helse
    rw [helse] at hkind
    cases hkind
  have hpart' : decide (part.kind ≠ .elseKeyword) = true := by
    rw [decide_eq_true_eq]
    intro helse
    rw [helse] at hpart
    cases hpart
  rw [thenBranch?, hchildren, List.takeWhile_append_of_pos hfront', List.takeWhile_cons,
    if_pos hpart']
  exact find?_isStatement hfront hpart

theorem body?_eq {closed part : Cursor} (h : c.partBehind? closed = some part)
    (hpart : part.kind.isStatement = true) : body? c closed = some part := by
  unfold body?
  split
  · exact thenBranch?_eq h hpart
  · exact statementBehind?_eq h hpart

/-- A body in braces or on the line where the header ends does not read as the next statement. -/
theorem readsAsNext_eq_false {body closed : Cursor}
    (h : body.kind = .blockStatement ∨ text.lineOf body.offset = text.lineOf closed.stop) :
    readsAsNext text closed.stop body = false := by
  unfold readsAsNext isOnLaterLine
  rcases h with hblock | hline
  · simp [hblock]
  · simp [hline]

/-- A statement that needs a body and has it. -/
theorem HasBody.exists_body (h : HasBody text c) (hkind : ownsUnbracedBody c.kind = true)
    {closed : Cursor} (hclosed : c.child? .rightParen = some closed) :
    ∃ body, c.partBehind? closed = some body ∧ body.kind.isStatement = true
      ∧ (body.kind = .blockStatement ∨ text.lineOf body.offset = text.lineOf closed.stop) :=
  h.body hkind closed hclosed

theorem recordsOnly_braceBody {d : Document} (h : HasBody d.text c) :
    Succeeds (braceBody d c) RecordsOnly := by
  unfold braceBody
  split
  case isFalse => exact .ok recordsOnly_nil
  case isTrue hkind =>
  split
  · exact .ok recordsOnly_nil
  · next closed hclosed =>
    obtain ⟨body, hbody, hstatement, hplace⟩ := h.exists_body hkind hclosed
    rw [body?_eq hbody hstatement]
    dsimp only
    rw [if_pos (hplace.imp_right .inl)]
    exact .ok recordsOnly_nil

theorem recordsOnly_addBranch (h : HasBody text c) : RecordsOnly (addBranch text c) := by
  unfold addBranch
  split
  case isFalse => exact recordsOnly_nil
  case isTrue hkind =>
  split
  · exact recordsOnly_nil
  · next closed hclosed =>
    obtain ⟨body, hbody, hstatement, hplace⟩ := h.exists_body (by rw [hkind]; rfl) hclosed
    have hthere : lacksBody text closed.stop (thenBranch? c closed) = false := by
      rw [thenBranch?_eq hbody hstatement]
      exact readsAsNext_eq_false hplace
    rw [hthere, if_neg Bool.false_ne_true]
    split
    · next keyword hkeyword =>
      obtain ⟨branch, hbranch, hstatement⟩ := h.branch hkind keyword hkeyword
      rw [statementBehind?_eq hbranch hstatement]
      exact recordsOnly_nil
    · exact recordsOnly_nil

theorem recordsOnly_addLoopBody (h : HasBody text c) (hkind : ownsUnbracedBody c.kind = true)
    {closed : Cursor} (hclosed : c.child? .rightParen = some closed) :
    RecordsOnly (addLoopBody text c closed) := by
  obtain ⟨body, hbody, hstatement, hplace⟩ := h.exists_body hkind hclosed
  have hthere : lacksBody text closed.stop (c.statementBehind? closed) = false := by
    rw [statementBehind?_eq hbody hstatement]
    exact readsAsNext_eq_false hplace
  rw [addLoopBody, hthere]
  exact recordsOnly_nil

theorem recordsOnly_addWhileBody (h : HasBody text c) : RecordsOnly (addWhileBody text c) := by
  unfold addWhileBody
  split
  case isFalse => exact recordsOnly_nil
  case isTrue hkind =>
  split
  · next closed hclosed => exact recordsOnly_addLoopBody h (by rw [hkind]; rfl) hclosed
  · exact recordsOnly_nil

theorem recordsOnly_completeForeach (hc : c.IsWhole) (h : HasBody text c) :
    RecordsOnly (completeForeach text c) := by
  unfold completeForeach
  split
  case isFalse => exact recordsOnly_nil
  case isTrue hkind =>
  split
  · next closed hclosed => exact recordsOnly_addLoopBody h (by rw [hkind]; rfl) hclosed
  · next hnone _ => exact absurd hnone (Cursor.child?_ne_none (hc.fits hkind rfl))
  · exact recordsOnly_nil

theorem recordsOnly_completeFor (hc : c.IsWhole) (h : HasBody text c) :
    RecordsOnly (completeFor text c) := by
  unfold completeFor
  split
  case isFalse => exact recordsOnly_nil
  case isTrue hkind =>
  split
  · exact recordsOnly_nil
  · next closed _ hclosed => exact recordsOnly_addLoopBody h (by rw [hkind]; rfl) hclosed
  · next hnone => exact absurd hnone (Cursor.child?_ne_none (hc.fits hkind rfl))

/-! ## Blocks -/

theorem recordsOnly_addBlock {kind : Kind}
    (h : c.kind = kind → .codeBlock ∈ Node.partKinds c.node.children) :
    RecordsOnly (addBlock kind c) := by
  unfold addBlock
  split
  · next hlacks =>
    exact absurd (Option.isNone_iff_eq_none.1 hlacks.2) (Cursor.child?_ne_none (h hlacks.1))
  · exact recordsOnly_nil

theorem recordsOnly_completeSynchronized (h : c.IsWhole) :
    RecordsOnly (completeSynchronized text c) := by
  unfold completeSynchronized
  split
  case isFalse => exact recordsOnly_nil
  case isTrue hkind =>
  obtain ⟨hclosed, hblock⟩ := h.fits hkind rfl
  split
  · exact recordsOnly_nil
  · refine (recordsOnly_recordBelow c).append ?_
    rw [if_neg]
    · exact recordsOnly_addBlock fun _ => hblock
    · rw [Option.isNone_iff_eq_none]
      exact Cursor.child?_ne_none hclosed

theorem recordsOnly_addMethodBody (h : c.IsWhole) : RecordsOnly (addMethodBody c) := by
  unfold addMethodBody
  split
  · next hlacks =>
    obtain ⟨hkind, hblock, hsemicolon, -⟩ := hlacks
    have hmem : .codeBlock ∈ Node.partKinds c.node.children
        ∨ (Node.partKinds c.node.children).getLast? = some .semicolon := h.fits hkind rfl
    rcases hmem with hmem | hlast
    · exact absurd (Option.isNone_iff_eq_none.1 hblock) (Cursor.child?_ne_none hmem)
    · exact absurd (Option.isNone_iff_eq_none.1 hsemicolon)
        (Cursor.child?_ne_none (List.mem_of_getLast? hlast))
  · exact recordsOnly_nil

/-! ## Values -/

theorem recordsOnly_recordReturnValue (c : Cursor) : RecordsOnly (recordReturnValue c) := by
  unfold recordReturnValue
  split
  · split
    · exact recordsOnly_nil
    · exact recordsOnly_hole _
  · exact recordsOnly_nil

theorem recordsOnly_recordThrownValue (c : Cursor) : RecordsOnly (recordThrownValue c) := by
  unfold recordThrownValue
  split
  · exact recordsOnly_hole _
  · exact recordsOnly_nil

end Repair

/-! ## All of them -/

open Repair

/-- **Where nothing is missing a remedy records holes at most.** -/
theorem Remedy.recordsOnly_actions {d : Document} {c : Cursor} (h : c.IsWhole)
    (hliteral : isOpenLiteral c.node = false) (hbody : HasBody d.text c) (remedy : Remedy) :
    Succeeds (remedy.actions d c) RecordsOnly := by
  have hheader {statement keyword : Kind} (hconstruct : statement.isConstruct = true)
      (hfits : ∀ parts, statement.Fits parts → Kind.HasHeader keyword parts) :
      RecordsOnly (completeHeader statement keyword c) :=
    recordsOnly_completeHeader fun hkind => hfits _ (h.fits hkind hconstruct)
  cases remedy with
  | literal => exact .ok (recordsOnly_closeLiteral hliteral)
  | call => exact .ok (recordsOnly_closeArguments h)
  | ifCondition => exact .ok (hheader rfl fun _ => id)
  | whileCondition => exact .ok (hheader rfl fun _ => id)
  | doWhileCondition => exact .ok (recordsOnly_completeDoWhile h)
  | switchSelector => exact .ok (hheader rfl fun _ => And.left)
  | catchParameter => exact .ok (recordsOnly_completeCatch h)
  | unbracedBody => exact recordsOnly_braceBody hbody
  | ifBranches => exact .ok (recordsOnly_addBranch hbody)
  | whileBody => exact .ok (recordsOnly_addWhileBody hbody)
  | switchBlock => exact .ok (recordsOnly_addBlock fun hkind => (h.fits hkind rfl).2)
  | catchBlock => exact .ok (recordsOnly_addBlock fun hkind => (h.fits hkind rfl).2.2)
  | synchronizedBlock => exact .ok (recordsOnly_completeSynchronized h)
  | forLoop => exact .ok (recordsOnly_completeFor h hbody)
  | foreachLoop => exact .ok (recordsOnly_completeForeach h hbody)
  | methodBody => exact .ok (recordsOnly_addMethodBody h)
  | returnValue => exact .ok (recordsOnly_recordReturnValue c)
  | thrownValue => exact .ok (recordsOnly_recordThrownValue c)
  | parameters => exact .ok (recordsOnly_closeWith _ fun hkind => h.fits hkind rfl)
  | parentheses => exact .ok (recordsOnly_closeParenthesized h)
  | semicolon => exact .ok (recordsOnly_addSemicolon h)
  | arrayElements => exact .ok (recordsOnly_closeWith _ fun hkind => h.fits hkind rfl)
  | enumSeparator => exact .ok (recordsOnly_separateConstant h)

/-- Actions that record holes only leave the editor as it is. -/
theorem Action.applyAll_of_recordsOnly {actions : List Action}
    (h : RecordsOnly actions) (e : Editor)
    (holes : Holes) : Succeeds (applyAll e holes actions) fun (e', _) => e' = e := by
  induction actions generalizing holes with
  | nil => exact .ok rfl
  | cons action rest ih =>
    obtain ⟨⟨offset, rfl⟩, hrest⟩ := List.forall_mem_cons.1 h
    exact ih hrest _

theorem Remedy.apply_of_isWhole {e : Editor} {c : Cursor} (h : c.IsWhole)
    (hliteral : isOpenLiteral c.node = false) (hbody : HasBody e.text c) (remedy : Remedy)
    (holes : Holes) : Succeeds (remedy.apply c e holes) fun (e', _) => e' = e :=
  (remedy.recordsOnly_actions (d := e.document) h hliteral hbody).bind fun _ hactions =>
    Action.applyAll_of_recordsOnly hactions e holes

end StatementCompletion
