import StatementCompletion.Proofs.Grammar.Evolution
import StatementCompletion.Proofs.Token.Respacing

/-!
# States that differ in white space only

`Alike s s'` compares a state with one that reads the same tokens behind other white space: the
current token is the same, the tokens behind it are the same but for the white space, and what is
built so far has one core.  There need not be as many nodes of white space in both rows, so the
markers of the two are different numbers; `Level` says of two of them that they mark the same place.

What a grammar asks of a state has one answer in both, but for one thing: in front of a closing
brace there may be a line feed in only one of them.
-/

namespace StatementCompletion

namespace Token

/-- Whether there is a line feed in the white space of a token. -/
theorem hasNewline_cons_of_ne {token : Token} (h : token.kind ≠ .whitespace) (rest : List Token) :
    Grammar.State.hasNewline (token :: rest) = Grammar.State.hasNewline rest := by
  simp [Grammar.State.hasNewline, h]

theorem hasNewline_blank_append (gap : Text) (rest : List Token) :
    Grammar.State.hasNewline (blank gap ++ rest)
      = (gap.contains '\n' || Grammar.State.hasNewline rest) := by
  unfold blank
  split
  · next h => simp [h]
  · simp [Grammar.State.hasNewline]

theorem isTrivia_of_mem_blank {gap : Text} {token : Token} (h : token ∈ blank gap) :
    token.isTrivia = true := by
  rw [isTrivia, kind_of_mem_blank h]
  rfl

/-- What follows the first white space and comments is the same token with the same tokens behind
it, and there is a line feed in front of it or not in both rows, unless it is a closing brace. -/
structure SameAhead (tokens tokens' : List Token) : Prop where
  head : (tokens'.dropWhile isTrivia).head? = (tokens.dropWhile isTrivia).head?
  tail : Respaced (tokens.dropWhile isTrivia).tail (tokens'.dropWhile isTrivia).tail
  newline : (∀ token, (tokens.dropWhile isTrivia).head? = some token → token.kind ≠ .rightBrace) →
    Grammar.State.hasNewline (tokens'.takeWhile isTrivia)
      = Grammar.State.hasNewline (tokens.takeWhile isTrivia)

theorem Respaced.sameAhead {tokens tokens' : List Token} (h : Respaced tokens tokens') :
    SameAhead tokens tokens' := by
  induction h with
  | @stop gap hgap =>
    have hempty : (blank gap).dropWhile isTrivia = [] :=
      List.dropWhile_eq_nil_iff.2 fun token => isTrivia_of_mem_blank
    refine ⟨rfl, ?_, fun _ => rfl⟩
    rw [hempty]
    exact @Respaced.stop [] (by simp)
  | @gap token tokens tokens' old new hkind _ hnew hrest ih =>
    have htake (gap : Text) (rest : List Token) : (blank gap ++ rest).takeWhile isTrivia
        = blank gap ++ rest.takeWhile isTrivia :=
      List.takeWhile_append_of_pos fun _ => isTrivia_of_mem_blank
    have hdrop (gap : Text) (rest : List Token) : (blank gap ++ rest).dropWhile isTrivia
        = rest.dropWhile isTrivia :=
      List.dropWhile_append_of_pos fun _ => isTrivia_of_mem_blank
    cases htrivia : token.isTrivia with
    | true =>
      -- a comment, behind which it goes on
      have hbrace : token.kind ≠ .rightBrace := by
        intro hbrace
        rw [isTrivia, hbrace] at htrivia
        cases htrivia
      constructor <;> simp only [htake, hdrop, List.dropWhile_cons_of_pos htrivia,
        List.takeWhile_cons_of_pos htrivia, hasNewline_blank_append, hasNewline_cons_of_ne hkind]
      · exact ih.head
      · exact ih.tail
      · intro hahead
        rw [ih.newline hahead, hnew.newline hbrace]
    | false =>
      have hstop : ¬ token.isTrivia = true := by rw [htrivia]; exact Bool.false_ne_true
      constructor <;> simp only [htake, hdrop, List.dropWhile_cons_of_neg hstop,
        List.takeWhile_cons_of_neg hstop, hasNewline_blank_append, List.head?_cons, List.tail_cons]
      · exact hrest
      · intro hahead
        rw [hnew.newline (hahead token rfl)]

end Token

namespace Grammar

open Token (Respaced)

/-! ## One state and another -/

/-- A state and one that reads the same tokens behind other white space. -/
structure Alike (s s' : State) : Prop where
  sane : s.Sane
  sane' : s'.Sane
  token : s'.token? = s.token?
  unread : Respaced s.unread s'.unread
  onNewLine : s.current ≠ .rightBrace → s'.onNewLine = s.onNewLine
  afterError : s'.isAfterError = s.isAfterError
  core : Node.coreAll s'.firm = Node.coreAll s.firm

/-- Two markers that are set at the same place. -/
structure Level (f f' : Nat) (s s' : State) : Prop where
  left : f ≤ s.marker
  right : f' ≤ s'.marker
  core : Node.coreAll (s'.firm.take f') = Node.coreAll (s.firm.take f)

theorem State.isAfterError_eq (s : State) :
    s.isAfterError = s.firm.getLast?.any (·.kind.isError) := by
  rw [isAfterError, firm, List.getLast?_reverse]

namespace Alike

variable {s s' t t' : State} {f f' m m' : Nat}

theorem current_eq (h : Alike s s') : s'.current = s.current := by
  rw [State.current, State.current, h.token]

theorem read {built built' : List Node} {tokens tokens' : List Token}
    (hsane : (State.read built tokens).Sane) (hsane' : (State.read built' tokens').Sane)
    (h : Respaced tokens tokens')
    (herror : built'.head?.any (·.kind.isError) = built.head?.any (·.kind.isError))
    (hcore : Node.coreAll built'.reverse = Node.coreAll built.reverse) :
    Alike (State.read built tokens) (State.read built' tokens') := by
  have hahead := h.sameAhead
  refine ⟨hsane, hsane', hahead.head, hahead.tail, fun hbrace => ?_, ?_, ?_⟩
  · refine hahead.newline fun token htoken hkind => hbrace ?_
    rw [State.current, show (State.read built tokens).token? = some token from htoken]
    exact hkind
  · rwa [State.isAfterError_eq, State.isAfterError_eq, State.firm_read, State.firm_read,
      List.getLast?_reverse, List.getLast?_reverse]
  · rwa [State.firm_read, State.firm_read]

/-- What is found when the token behind the current one is read. -/
theorem next (h : Alike s s') : Alike s.next s'.next :=
  read (State.sane_read [] h.sane.unread) (State.sane_read [] h.sane'.unread) h.unread rfl rfl

theorem take (h : Alike s s') (node : Token → Node) :
    Alike (s.take node) (s'.take node) := by
  have htoken' := h.token
  have hsane := h.sane.take node
  have hsane' := h.sane'.take node
  cases htoken : s.token? with
  | none =>
    rw [htoken] at htoken'
    rwa [State.take_of_none htoken, State.take_of_none htoken']
  | some token =>
    rw [htoken] at htoken'
    have hcore {s : State} (hs : s.Sane) : Node.coreAll (node token :: s.built).reverse
        = Node.coreAll s.firm ++ (node token).core := by
      rw [List.reverse_cons, ← State.firm_append_loose, Node.coreAll_append, Node.coreAll_append,
        hs.coreAll_loose, List.append_nil, Node.coreAll_singleton]
    rw [State.take_of_some htoken] at hsane ⊢
    rw [State.take_of_some htoken'] at hsane' ⊢
    refine read hsane hsane' h.unread rfl ?_
    rw [hcore h.sane, hcore h.sane', h.core]

theorem markMissing (h : Alike s s') (wanted : Wanted) :
    Alike (s.markMissing wanted) (s'.markMissing wanted) := by
  have herror := h.afterError
  cases hafter : s.isAfterError with
  | true =>
    rw [hafter] at herror
    rwa [State.markMissing, State.markMissing, hafter, herror]
  | false =>
    rw [hafter] at herror
    have heq : s.markMissing wanted = s.insertSolid 0 (.error (.expected wanted) []) := by
      rw [State.markMissing, hafter, if_neg Bool.false_ne_true]
    have heq' : s'.markMissing wanted = s'.insertSolid 0 (.error (.expected wanted) []) := by
      rw [State.markMissing, herror, if_neg Bool.false_ne_true]
    have hfirm {s : State} (hs : s.Sane) : (s.insertSolid 0 (.error (.expected wanted) [])).firm
        = s.firm ++ [.error (.expected wanted) []] := by
      rw [hs.firm_insertSolid, Nat.sub_zero, List.take_length]
    rw [heq, heq']
    refine ⟨h.sane.insertSolid _ _, h.sane'.insertSolid _ _, h.token, h.unread, h.onNewLine, ?_, ?_⟩
    · rw [State.isAfterError_eq, State.isAfterError_eq, hfirm h.sane, hfirm h.sane',
        List.getLast?_concat, List.getLast?_concat]
    · rw [hfirm h.sane, hfirm h.sane', Node.coreAll_append, Node.coreAll_append, h.core]

/-- A mark that is made is made in both rows. -/
theorem marker_markMissing_iff (h : Alike s s') (wanted : Wanted) :
    (s.markMissing wanted).marker = s.marker ↔ (s'.markMissing wanted).marker = s'.marker := by
  have hmarker (s : State) :
      (s.markMissing wanted).marker = s.marker ↔ s.isAfterError = true := by
    unfold State.markMissing
    split
    · next hafter => exact iff_of_true rfl hafter
    · next hafter =>
      refine iff_of_false ?_ hafter
      simp only [State.marker, State.insertSolid, List.length_append, List.length_take,
        List.length_cons, List.length_drop]
      omega
  rw [hmarker, hmarker, h.afterError]

/-- Above markers on one level there is one core. -/
theorem coreAll_drop (h : Alike s s') (hlevel : Level m m' s s') :
    Node.coreAll (s'.firm.drop m') = Node.coreAll (s.firm.drop m) := by
  have hcore := h.core
  rw [← List.take_append_drop m s.firm, ← List.take_append_drop m' s'.firm, Node.coreAll_append,
    Node.coreAll_append, hlevel.core] at hcore
  exact List.append_cancel_left hcore

theorem wrap (h : Alike s s') (hlevel : Level m m' s s') (kind : Kind) :
    Alike (s.wrap m kind) (s'.wrap m' kind) := by
  refine ⟨h.sane.wrap m kind, h.sane'.wrap m' kind, h.token, h.unread, h.onNewLine, ?_, ?_⟩
  · rw [State.isAfterError_eq, State.isAfterError_eq, h.sane.firm_wrap, h.sane'.firm_wrap,
      List.getLast?_concat, List.getLast?_concat]
    rfl
  · rw [h.sane.firm_wrap, h.sane'.firm_wrap, Node.coreAll_append, Node.coreAll_append,
      Node.coreAll_singleton, Node.coreAll_singleton, hlevel.core,
      Node.core_branch_congr (h.coreAll_drop hlevel)]

/-- The ends of the two rows are on one level. -/
theorem level (h : Alike s s') : Level s.marker s'.marker s s' := by
  have hle {s : State} (hs : s.Sane) : s.firm.length ≤ s.marker := by
    rw [hs.marker_eq]
    exact Nat.le_add_right _ _
  refine ⟨Nat.le_refl _, Nat.le_refl _, ?_⟩
  rw [List.take_of_length_le (hle h.sane), List.take_of_length_le (hle h.sane'), h.core]

/-- As many tokens are ahead, white space not counted. -/
theorem weight_eq (h : Alike s s') : s'.weight = s.weight := by
  simp only [State.weight, State.ahead, h.token, List.filter_append, h.unread.filter_eq]

end Alike

/-- Markers stay level. -/
theorem Level.evolves {s s' t t' : State} {f f' : Nat} (h : Level f f' s s') (halike : Alike s s')
    (ht : Evolves f s t) (ht' : Evolves f' s' t') : Level f f' t t' := by
  refine ⟨ht.floor_le_marker halike.sane h.left, ht'.floor_le_marker halike.sane' h.right, ?_⟩
  rw [ht.coreAll_take halike.sane h.left, ht'.coreAll_take halike.sane' h.right, h.core]

end Grammar

end StatementCompletion
