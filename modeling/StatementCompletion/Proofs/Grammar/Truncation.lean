import StatementCompletion.Grammar.Expression
import StatementCompletion.Proofs.Grammar.Forming
import StatementCompletion.Proofs.Tree.Torn

/-!
# Parsers on a truncated text

A rule of an expression is run on the tokens of a text and on the same tokens without what stands at
their end: a number of closing parentheses and a tail.  Up to the seam, where the shorter row of
tokens ends, the two runs go through the same states.  Behind the seam only one kind of step
differs: where the first run takes a closing parenthesis in, the second one marks it as missing.

`Truncated σ s s'` is what the two states have in common, and `Truncates` says that two parsers give
the same answer and keep it, as long as the first run leaves the tail alone.  The current token at
the seam is a closing parenthesis or a semicolon in the first run and the end in the second, and
hardly any rule tells these from each other.
-/

namespace StatementCompletion

/-- What the current token can be at the seam. -/
def Kind.isClosing : Kind → Bool
  | .rightParen | .semicolon | .endOfFile => true
  | _ => false

/-- What may be read in front of the seam. -/
def Kind.isInner (kind : Kind) : Bool :=
  !(kind.isClosing || kind.opensHeader)

theorem Kind.isInner_spec {kind : Kind} (h : kind.isInner = true) :
    kind.isClosing = false ∧ kind.opensHeader = false := by
  rwa [isInner, Bool.not_eq_true', Bool.or_eq_false_iff] at h

/-- Of the tokens only the keywords of headers are of a kind that an expression cannot hold. -/
theorem Kind.isSimple_of_not_isConstruct {kind : Kind} (h : kind.isConstruct = false)
    (hheader : kind.opensHeader = false) : kind.isSimple = true := by
  revert h hheader
  cases kind <;> decide

namespace Grammar

open Node (Torn sizeAll)

/-! ## The seam -/

/-- The token of a closing parenthesis. -/
def closer : Token :=
  { kind := .rightParen, text := [')'] }

/-- Where an expression begins in the row, and what its text is truncated of behind its closing
parentheses.  If this begins with a parenthesis of its own, no operand stands behind that one. -/
structure Seam where
  base : Nat
  tail : List Token
  closes : ∀ token ∈ tail.head?, token.kind = .rightParen ∨ token.kind = .semicolon
  outside : startsCastOperand (State.read [] tail.tail).current = false

namespace Seam

variable (σ : Seam)

/-- The tokens behind the seam while `n` parentheses are still to be closed. -/
def behind (n : Nat) : List Token :=
  List.replicate n closer ++ σ.tail

theorem behind_succ (n : Nat) : σ.behind (n + 1) = closer :: σ.behind n :=
  rfl

theorem kind_head_behind {n : Nat} {token : Token} (h : (σ.behind n).head? = some token) :
    token.kind = .rightParen ∨ token.kind = .semicolon := by
  cases n with
  | zero => exact σ.closes token h
  | succ n =>
    obtain rfl := Option.some.inj h
    exact .inl rfl

/-- There is no white space in front of the first token behind the seam. -/
theorem takeWhile_behind (n : Nat) : (σ.behind n).takeWhile Token.isTrivia = [] := by
  cases hhead : σ.behind n with
  | nil => rfl
  | cons token rest =>
    have htoken : (σ.behind n).head? = some token := by rw [hhead]; rfl
    refine List.takeWhile_cons_of_neg ?_
    rw [Token.isTrivia]
    rcases σ.kind_head_behind htoken with hkind | hkind <;> rw [hkind] <;> decide

theorem dropWhile_behind (n : Nat) : (σ.behind n).dropWhile Token.isTrivia = σ.behind n := by
  have hsplit := @List.takeWhile_append_dropWhile _ Token.isTrivia (σ.behind n)
  rwa [takeWhile_behind, List.nil_append] at hsplit

/-- The first token behind the seam is the next to read. -/
theorem read_behind (built : List Node) (n : Nat) : State.read built (σ.behind n)
    = { built, token? := (σ.behind n).head?, pending := 0, onNewLine := false,
        unread := (σ.behind n).tail } := by
  rw [State.read, takeWhile_behind, dropWhile_behind]
  rfl

end Seam

/-! ## States -/

/-- Two states in front of the seam, where they are the same but for the tokens behind it, or at the
seam, where a node of the row may be torn and nothing with text stands behind it. -/
inductive AtSeam (σ : Seam) (s s' : State) : Prop where
  | before (n : Nat) : s'.token?.isSome = true →
      s = { s' with unread := s'.unread ++ σ.behind n } → AtSeam σ s s'
  | behind (n : Nat) {front back : List Node} {x y : Node} : s'.token? = none →
      s.token? = (σ.behind n).head? → s.unread = (σ.behind n).tail → s.pending = 0 →
        s'.pending = 0 → s.firm = front ++ x :: back → s'.firm = front ++ y :: back →
          sizeAll back = 0 → Torn x y → AtSeam σ s s'

namespace State

/-- What holds of a row from a marker on and of what joins it. -/
theorem forall_mem_drop_append {a b : List Node} {m : Nat} {P : Node → Prop}
    (ha : ∀ node ∈ a.drop m, P node) (hb : ∀ node ∈ b, P node) :
    ∀ node ∈ (a ++ b).drop m, P node := by
  rw [List.drop_append]
  intro node hnode
  rcases List.mem_append.1 hnode with hnode | hnode
  · exact ha node hnode
  · exact hb node (List.mem_of_mem_drop hnode)

/-- From a marker on, no node in the row is of a kind. -/
def Lacks (s : State) (kind : Kind) (marker : Nat) : Prop :=
  ∀ node ∈ s.firm.drop marker, node.kind ≠ kind

/-- A state with more marks at the end of its row, if any. -/
structure Marked (s v : State) : Prop where
  fair : v.Fair
  token? : v.token? = s.token?
  pending : v.pending = s.pending
  firm : ∃ gaps, v.firm = s.firm ++ gaps ∧ ∀ gap ∈ gaps, ∃ problem, gap = .error problem []

/-- Two states of an expression, the second of which has no more tokens behind the seam. -/
structure Truncated (σ : Seam) (s s' : State) : Prop where
  fair : s.Fair
  fair' : s'.Fair
  braceless : ∀ token ∈ s'.ahead, token.kind ≠ .leftBrace
  ends : ∀ token ∈ s'.unread.getLast?, token.isTrivia = false
  simple : ∀ node ∈ s.firm.drop σ.base, node.Simple
  seam : AtSeam σ s s'

/-! ### Reading -/

/-- Up to the seam the same tokens are read. -/
theorem read_append_behind {tokens : List Token} (σ : Seam) (built : List Node) (n : Nat)
    (h : tokens ≠ []) (hlast : ∀ token ∈ tokens.getLast?, token.isTrivia = false) :
    (read built tokens).token?.isSome = true
      ∧ read built (tokens ++ σ.behind n)
        = { read built tokens with unread := (read built tokens).unread ++ σ.behind n } := by
  have hdrop : tokens.dropWhile Token.isTrivia ≠ [] := by
    intro hnil
    have hmem := List.getLast_mem h
    have htrivia := List.dropWhile_eq_nil_iff.1 hnil _ hmem
    rw [hlast _ (List.getLast?_eq_some_getLast h)] at htrivia
    cases htrivia
  have hdrops : (tokens ++ σ.behind n).dropWhile Token.isTrivia
      = tokens.dropWhile Token.isTrivia ++ σ.behind n := by
    rw [List.dropWhile_append, if_neg (by simpa using hdrop)]
  have htakes : (tokens ++ σ.behind n).takeWhile Token.isTrivia
      = tokens.takeWhile Token.isTrivia := by
    have hall := @List.takeWhile_append_dropWhile _ Token.isTrivia (tokens ++ σ.behind n)
    rw [hdrops, ← List.append_assoc] at hall
    have htokens := List.append_cancel_right hall
    exact List.append_cancel_right (htokens.trans List.takeWhile_append_dropWhile.symm)
  obtain ⟨token, rest, hcons⟩ := List.exists_cons_of_ne_nil hdrop
  constructor
  · simp [read, hcons]
  · simp [read, hdrops, htakes, hcons]

/-- The last token stays the last one. -/
theorem getLast?_unread_read {tokens : List Token} {built : List Node} {last : Token}
    (h : last ∈ (read built tokens).unread.getLast?) : last ∈ tokens.getLast? := by
  obtain ⟨front, hfront⟩ : (read built tokens).unread <:+ tokens :=
    (List.tail_suffix _).trans (List.dropWhile_suffix _)
  rw [← hfront, List.getLast?_append, show (read built tokens).unread.getLast? = some last from h]
  rfl

/-! ### Marks -/

theorem Marked.refl {s : State} (hs : s.Fair) : s.Marked s :=
  ⟨hs, rfl, rfl, [], (List.append_nil _).symm, fun _ => nofun⟩

theorem Marked.markMissing {s v : State} (h : s.Marked v) (missed : Wanted) :
    s.Marked (v.markMissing missed) := by
  obtain ⟨gaps, hfirm, hgaps⟩ := h.firm
  refine ⟨h.fair.markMissing missed, ?_, ?_, ?_⟩
  · rcases v.markMissing_eq missed with heq | heq <;> rw [heq] <;> exact h.token?
  · rcases v.markMissing_eq missed with heq | heq <;> rw [heq] <;> exact h.pending
  · rcases h.fair.sane.firm_markMissing missed with heq | heq <;> rw [heq]
    · exact ⟨gaps, hfirm, hgaps⟩
    · refine ⟨gaps ++ [.error (.expected missed) []], by rw [hfirm, List.append_assoc], ?_⟩
      simp only [List.forall_mem_append, List.forall_mem_singleton]
      exact ⟨hgaps, _, rfl⟩

/-- Something is marked as missing, now or before. -/
theorem Sane.isAfterError_markMissing {s : State} (hs : s.Sane) (missed : Wanted) :
    (s.markMissing missed).isAfterError = true := by
  cases hafter : s.isAfterError with
  | true => rwa [State.markMissing, hafter, if_pos rfl]
  | false =>
    rw [State.markMissing, hafter, if_neg Bool.false_ne_true, isAfterError_eq, hs.firm_insertSolid,
      List.getLast?_concat]
    rfl

namespace Truncated

variable {σ : Seam} {s s' : State}

/-- In front of the seam the current tokens are the same, and at the seam they are not told apart by
what knows no closing tokens. -/
theorem current_cases (h : Truncated σ s s') :
    s'.token?.isSome = true ∧ s.current = s'.current
      ∨ s'.token? = none ∧ s'.current = .endOfFile ∧ s.current.isClosing = true := by
  rcases h.seam with ⟨n, hsome, rfl⟩ | @⟨n, -, -, -, -, hnone, htoken, -⟩
  · exact .inl ⟨hsome, rfl⟩
  · right
    rw [current, current, hnone, htoken]
    refine ⟨rfl, rfl, ?_⟩
    cases hhead : (σ.behind n).head? with
    | none => rfl
    | some token =>
      show token.kind.isClosing = true
      rcases σ.kind_head_behind hhead with hkind | hkind <;> rw [hkind] <;> rfl

/-- A question that knows no closing tokens has one answer. -/
theorem ask_eq (h : Truncated σ s s') {is : Kind → Bool}
    (his : ∀ kind, kind.isClosing = true → is kind = false) : is s.current = is s'.current := by
  rcases h.current_cases with ⟨-, heq⟩ | ⟨-, hend, hclosing⟩
  · rw [heq]
  · rw [hend, his _ hclosing, his _ rfl]

theorem marker_eq (h : Truncated σ s s') : s'.marker = s.marker := by
  rcases h.seam with ⟨n, -, rfl⟩
    | @⟨n, front, back, x, y, -, -, -, hpending, hpending', hfirm, hfirm', -⟩
  · rfl
  · have hlength {s : State} (hs : s.Sane) (hzero : s.pending = 0) : s.marker = s.firm.length := by
      rw [hs.marker_eq, hs.length_loose, hzero, Nat.add_zero]
    rw [hlength h.fair.sane hpending, hlength h.fair'.sane hpending', hfirm, hfirm']
    simp

/-- Nor does the kind behind the current token tell the two apart. -/
theorem next_eq (h : Truncated σ s s') (hsome : s'.token?.isSome = true) {kind : Kind}
    (hkind : kind.isClosing = false) : s.next.current = kind ↔ s'.next.current = kind := by
  rcases h.seam with ⟨n, -, rfl⟩ | @⟨n, -, -, -, -, hnone, -⟩
  · by_cases hunread : s'.unread = []
    · rw [next, next, hunread, List.nil_append, σ.read_behind]
      have hend : (read [] []).current = .endOfFile := rfl
      rw [hend, current]
      refine iff_of_false ?_ ?_
      · rintro rfl
        cases hhead : (σ.behind n).head? with
        | none =>
          rw [hhead] at hkind
          cases hkind
        | some token =>
          rw [hhead] at hkind
          rcases σ.kind_head_behind hhead with hparen | hparen <;>
            · dsimp only at hkind
              rw [hparen] at hkind
              cases hkind
      · rintro rfl
        cases hkind
    · obtain ⟨-, hread⟩ := read_append_behind σ [] n hunread h.ends
      rw [next, next, hread]
      rfl
  · rw [hnone] at hsome
    cases hsome

/-! ### Steps -/

theorem simple_loose (hs : s.Sane) : ∀ node ∈ s.loose, node.Simple := by
  intro node hnode
  obtain ⟨hleaf, htrivia, -⟩ := hs.loose node hnode
  cases node with
  | leaf kind text =>
    have hkind : kind.isTrivia = true := htrivia
    exact .leaf (by cases kind <;> first | rfl | cases hkind)
  | error problem text => exact .error
  | branch kind children => cases hleaf

theorem simple_node {token : Token} (h : token.kind.isConstruct = false)
    (hheader : token.kind.opensHeader = false) : token.node.Simple := by
  unfold Token.node
  split
  · exact .error
  · exact .leaf (Kind.isSimple_of_not_isConstruct h hheader)

/-- Both take the current token in. -/
theorem take (h : Truncated σ s s') (hsome : s'.token?.isSome = true)
    (hheader : s'.current.opensHeader = false) :
    Truncated σ (s.take Token.node) (s'.take Token.node) := by
  obtain ⟨token, htoken'⟩ := Option.isSome_iff_exists.1 hsome
  rw [current, htoken'] at hheader
  rcases h.seam with ⟨n, -, hs⟩ | @⟨n, -, -, -, -, hnone, -⟩
  case behind =>
    rw [hnone] at htoken'
    cases htoken'
  have htoken : s.token? = some token := by rw [hs]; exact htoken'
  have hunread : s.unread = s'.unread ++ σ.behind n := by rw [hs]
  have hbuilt : s.built = s'.built := by rw [hs]
  refine ⟨h.fair.take (.inl rfl), h.fair'.take (.inl rfl), ?_, ?_, ?_, ?_⟩
  · intro other hother
    rw [take_of_some htoken', ahead_read] at hother
    refine h.braceless other ?_
    rw [ahead, htoken']
    exact List.mem_append_right _ ((List.dropWhile_sublist _).subset hother)
  · intro last hlast
    rw [take_of_some htoken'] at hlast
    exact h.ends last (getLast?_unread_read hlast)
  · rw [firm_take htoken, List.append_assoc]
    refine forall_mem_drop_append h.simple ?_
    simp only [List.forall_mem_append, List.forall_mem_singleton]
    exact ⟨simple_loose h.fair.sane, simple_node (h.fair.current htoken).1 hheader⟩
  · rw [take_of_some htoken, take_of_some htoken', hunread, hbuilt]
    by_cases hlast : s'.unread = []
    · -- the last token in front of the seam
      rw [hlast, List.nil_append, σ.read_behind]
      refine @AtSeam.behind _ _ _ n s'.built.reverse [] _ _ rfl rfl rfl rfl rfl ?_ ?_ rfl
        (.whole token.node)
      · exact List.reverse_cons
      · exact List.reverse_cons
    · obtain ⟨hsome, hread⟩ := read_append_behind σ (token.node :: s'.built) n hlast h.ends
      exact .before n hsome hread

theorem isAfterError_eq (h : Truncated σ s s') : s'.isAfterError = s.isAfterError := by
  rcases h.seam with ⟨n, -, rfl⟩ | @⟨n, front, back, x, y, -, -, -, -, -, hfirm, hfirm', -, htorn⟩
  · rfl
  · have hlast (nodes : List Node) : nodes.getLast?.any (·.kind.isError)
        = (nodes.map Node.kind).getLast?.any Kind.isError := by
      rw [List.getLast?_map, Option.any_map]
    rw [State.isAfterError_eq, State.isAfterError_eq, hfirm, hfirm', hlast, hlast, List.map_append,
      List.map_append, List.map_cons, List.map_cons, htorn.kind_eq]

/-- Both mark that something is missing. -/
theorem markMissing (h : Truncated σ s s') (wanted : Wanted) :
    Truncated σ (s.markMissing wanted) (s'.markMissing wanted) := by
  have hafter := h.isAfterError_eq
  -- behind an error nothing more is marked
  cases herror : s.isAfterError with
  | true =>
    rw [herror] at hafter
    rwa [State.markMissing, State.markMissing, herror, hafter]
  | false =>
    rw [herror] at hafter
    have hmark {s : State} (hs : s.isAfterError = false) :
        s.markMissing wanted = s.insertSolid 0 (.error (.expected wanted) []) := by
      rw [State.markMissing, hs, if_neg Bool.false_ne_true]
    have hfirm {s : State} (hs : s.Sane) (hnot : s.isAfterError = false) :
        (s.markMissing wanted).firm = s.firm ++ [.error (.expected wanted) []] := by
      rw [hmark hnot, hs.firm_insertSolid, Nat.sub_zero, List.take_length]
    refine ⟨h.fair.markMissing _, h.fair'.markMissing _, ?_, ?_, ?_, ?_⟩
    · rw [hmark hafter]
      exact h.braceless
    · rw [hmark hafter]
      exact h.ends
    · rw [hfirm h.fair.sane herror]
      exact forall_mem_drop_append h.simple (List.forall_mem_singleton.2 .error)
    · rcases h.seam with ⟨n, hsome, rfl⟩
        | @⟨n, front, back, x, y, hnone, htoken, hunread, hpending, hpending', hrow,
            hrow', hback, htorn⟩
      · rw [hmark herror, hmark hafter]
        exact .before n hsome rfl
      · have hrows := hfirm h.fair.sane herror
        have hrows' := hfirm h.fair'.sane hafter
        rw [hrow, List.append_assoc, List.cons_append] at hrows
        rw [hrow', List.append_assoc, List.cons_append] at hrows'
        rw [hmark herror] at hrows ⊢
        rw [hmark hafter] at hrows' ⊢
        refine .behind n hnone htoken hunread hpending hpending' hrows hrows' ?_ htorn
        rw [Node.sizeAll_append, hback]
        rfl

/-- Both make a branch of what stands from a marker on. -/
theorem wrap (h : Truncated σ s s') {m : Nat} {kind : Kind} (hkind : kind.isConstruct = true)
    (hsimple : (Node.branch kind (s.firm.drop m)).Simple) :
    Truncated σ (s.wrap m kind) (s'.wrap m kind) := by
  refine ⟨h.fair.wrap m hkind, h.fair'.wrap m hkind, h.braceless, h.ends, ?_, ?_⟩
  · rw [h.fair.sane.firm_wrap]
    refine forall_mem_drop_append (fun node hnode => ?_) (List.forall_mem_singleton.2 hsimple)
    rw [List.drop_take] at hnode
    exact h.simple node (List.mem_of_mem_take hnode)
  · rcases h.seam with ⟨n, hsome, rfl⟩
      | @⟨n, front, back, x, y, hnone, htoken, hunread, hpending, hpending', hrow,
          hrow', hback, htorn⟩
    · exact .before n hsome rfl
    · have hrows := h.fair.sane.firm_wrap m kind
      have hrows' := h.fair'.sane.firm_wrap m kind
      rw [hrow] at hrows
      rw [hrow'] at hrows'
      rcases Nat.lt_or_ge front.length m with hlt | hle
      · obtain ⟨k, rfl⟩ : ∃ k, m = front.length + (k + 1) := ⟨m - front.length - 1, by omega⟩
        rw [List.take_length_add_append, List.take_succ_cons, List.drop_length_add_append,
          List.drop_succ_cons, List.append_assoc, List.cons_append] at hrows hrows'
        refine .behind n hnone htoken hunread hpending hpending' hrows hrows' ?_ htorn
        have hsplit := congrArg sizeAll (List.take_append_drop k back)
        rw [Node.sizeAll_append, hback] at hsplit
        simp only [Node.sizeAll_append, sizeAll, Node.size]
        omega
      · -- the torn node is inside the new branch
        rw [List.take_append_of_le_length hle, List.drop_append_of_le_length hle] at hrows hrows'
        exact .behind n hnone htoken hunread hpending hpending' hrows hrows' rfl
          (htorn.inside hback)

/-- From a marker on there is nothing but what is simple. -/
theorem simple_drop (h : Truncated σ s s') {m : Nat} (hbase : σ.base ≤ m) :
    ∀ node ∈ s.firm.drop m, node.Simple := by
  obtain ⟨k, rfl⟩ : ∃ k, m = σ.base + k := ⟨m - σ.base, by omega⟩
  rw [← List.drop_drop]
  exact fun node hnode => h.simple node (List.mem_of_mem_drop hnode)

/-- What stands in parentheses is simple with or without the closing one. -/
theorem simple_parens {kind : Kind} {children last : List Node} (hkind : kind.isParens = true)
    (hchildren : ∀ child ∈ children, child.Simple)
    (hparen : ∀ child ∈ children, child.kind ≠ .rightParen)
    (hlist : ∀ child ∈ children, child.kind ≠ .argumentList)
    (hlast : last = [] ∨ ∃ node, last = [node] ∧ node.Simple ∧ node.kind = .rightParen) :
    (Node.branch kind (children ++ last)).Simple := by
  have hsimple : kind.isSimple = true := by
    cases kind <;> first | rfl | cases hkind
  rcases hlast with rfl | ⟨node, rfl, hnode, hclosing⟩
  · rw [List.append_nil]
    refine .branch hsimple hchildren ?_ (fun _ => hlist) fun _ => ?_
    · exact fun child hchild => hlist child ((List.dropLast_sublist _).subset hchild)
    · exact fun child hchild => hparen child ((List.dropLast_sublist _).subset hchild)
  · refine .branch hsimple ?_ ?_ ?_ ?_
    · simp only [List.forall_mem_append, List.forall_mem_singleton]
      exact ⟨hchildren, hnode⟩
    · rwa [List.dropLast_concat]
    · simp only [List.forall_mem_append, List.forall_mem_singleton]
      refine fun _ => ⟨hlist, ?_⟩
      rw [hclosing]
      decide
    · rw [List.dropLast_concat]
      exact fun _ => hparen

/-- A row that begins with a token does not begin behind the last node with text. -/
theorem marker_le_of_beginsWithToken {front back : List Node} {x : Node} {m : Nat}
    (hback : sizeAll back = 0)
    (hbegins : Node.BeginsWithToken ((front ++ x :: back).drop m)) : m ≤ front.length := by
  by_contra hlt
  obtain ⟨leaf, hleaf, -⟩ := hbegins
  obtain ⟨k, rfl⟩ : ∃ k, m = front.length + (k + 1) := ⟨m - front.length - 1, by omega⟩
  rw [List.drop_length_add_append, List.drop_succ_cons] at hleaf
  have hmem := List.mem_of_mem_head? hleaf
  have hsize : sizeAll (back.drop k) = 0 := by
    have hsplit := congrArg sizeAll (List.take_append_drop k back)
    rw [Node.sizeAll_append, hback] at hsplit
    omega
  have htext := Node.flatMap_leavesAll (back.drop k)
  rw [Node.textAll_eq_nil hsize, List.flatMap_eq_nil_iff] at htext
  exact Node.ownText_ne_nil_of_mem_leavesAll _ leaf hmem (htext leaf hmem)

/-- While the tail is left alone, the parenthesis that is taken in at the seam
is one in front of it. -/
theorem exists_take_closer {n : Nat} (hparen : s.current = .rightParen)
    (htoken : s.token? = (σ.behind n).head?)
    (hunread : s.unread = (σ.behind n).tail) (hpending : s.pending = 0)
    (hleft : σ.tail.length ≤ (s.take Token.node).ahead.length) :
    ∃ k, (s.take Token.node).token? = (σ.behind k).head?
      ∧ (s.take Token.node).unread = (σ.behind k).tail
      ∧ (s.take Token.node).pending = 0 ∧ (s.take Token.node).firm = s.firm ++ [Node.closer] := by
  obtain ⟨token, hsome⟩ : ∃ token, s.token? = some token :=
    Option.isSome_iff_exists.1 (State.isSome_of_current (by rw [hparen]; decide))
  obtain ⟨k, rfl⟩ : ∃ k, n = k + 1 := by
    cases n with
    | succ k => exact ⟨k, rfl⟩
    | zero =>
      have hbehind : σ.behind 0 = σ.tail := rfl
      rw [hbehind] at htoken hunread
      have hlength : (s.take Token.node).ahead.length ≤ σ.tail.tail.length := by
        rw [take_of_some hsome, ahead_read, hunread]
        exact (List.dropWhile_sublist _).length_le
      rw [htoken, List.head?_eq_some_iff] at hsome
      obtain ⟨rest, hrest⟩ := hsome
      rw [hrest, List.length_cons] at hleft
      rw [hrest, List.tail_cons] at hlength
      omega
  rw [σ.behind_succ, List.head?_cons] at htoken
  rw [σ.behind_succ, List.tail_cons] at hunread
  have htake : s.take Token.node = State.read (Node.closer :: s.built) (σ.behind k) := by
    rw [take_of_some htoken, hunread]
    rfl
  refine ⟨k, ?_, ?_, ?_, ?_⟩
  · rw [htake, σ.read_behind]
  · rw [htake, σ.read_behind]
  · rw [htake, σ.read_behind]
  · rw [firm_take htoken, loose_eq_nil hpending, List.append_nil]
    rfl

/-- Behind marks that show that something is missing, there is a node with a problem. -/
theorem exists_problem {v : State} (hv : v.Fair) (hafter : v.isAfterError = true)
    {front back : List Node}
    (hfirm : v.firm = front ++ back) (hback : back ≠ []) : ∃ node ∈ back, node.problems ≠ [] := by
  rw [State.isAfterError_eq, hfirm, List.getLast?_append_of_ne_nil _ hback,
    Option.any_eq_true] at hafter
  obtain ⟨node, hnode, herror⟩ := hafter
  have hmem : node ∈ back := List.mem_of_mem_getLast? hnode
  have hbuilt : node ∈ v.built := by
    rw [← List.mem_reverse, ← State.firm_append_loose, hfirm]
    exact List.mem_append_left _ (List.mem_append_right _ hmem)
  refine ⟨node, hmem, hv.errors node hbuilt ?_⟩
  cases hkind : node.kind <;> first | rfl | (rw [hkind] at herror; cases herror)

/-- At the seam one takes a closing parenthesis in and the other has marks in its place. -/
theorem close (h : Truncated σ s s') {v' : State} {m : Nat} {kind : Kind}
    (hkind : kind.isParens = true) (hbase : σ.base ≤ m) (hparen : s.current = .rightParen)
    (hnone : s'.token? = none)
    (hleft : σ.tail.length ≤ (s.take Token.node).ahead.length)
    (hbegins : Node.BeginsWithToken (s.firm.drop m)) (hparens : s.Lacks .rightParen m)
    (hlists : s.Lacks .argumentList m) (hmarked : s'.Marked v') (hafter : v'.isAfterError = true) :
    Truncated σ ((s.take Token.node).wrap m kind) (v'.wrap m kind) := by
  obtain ⟨hv, htoken', hpendings', gaps, hfirm', hgaps⟩ := hmarked
  rw [hnone] at htoken'
  have hconstruct : kind.isConstruct = true := by
    cases kind <;> first | rfl | cases hkind
  rcases h.seam with ⟨n, hsome, -⟩
    | @⟨n, front, back, x, y, -, htoken, hunread, hpending, hpending', hrow, hrow', hback, htorn⟩
  case before =>
    rw [hnone] at hsome
    cases hsome
  rw [← hpendings'] at hpending'
  -- the first run takes the parenthesis in, and nothing is left for the second one
  have hfair := h.fair.take (.inl rfl)
  obtain ⟨n, htoken, hunread, hpending, hfirm⟩ :=
    exists_take_closer hparen htoken hunread hpending hleft
  have hle : m ≤ front.length := marker_le_of_beginsWithToken hback (hrow ▸ hbegins)
  have hlength : m ≤ s.firm.length := by
    rw [hrow, List.length_append]
    omega
  have hdrop : (s.firm ++ [Node.closer]).drop m = s.firm.drop m ++ [Node.closer] :=
    List.drop_append_of_le_length hlength
  -- the mark in the place of the parenthesis is among the nodes that are wrapped
  have hproblem : ∃ node ∈ front.drop m ++ y :: back ++ gaps, node.problems ≠ [] := by
    rw [hrow', List.append_assoc, List.cons_append] at hfirm'
    obtain ⟨node, hnode, hproblem⟩ := exists_problem hv hafter hfirm' (List.cons_ne_nil _ _)
    refine ⟨node, ?_, hproblem⟩
    rw [List.append_assoc, List.cons_append]
    exact List.mem_append_right _ hnode
  have hended : v'.unread = [] := hv.sane.ended htoken'
  refine ⟨hfair.wrap m hconstruct, hv.wrap m hconstruct, ?_, ?_, ?_, ?_⟩
  · intro token hother
    rw [show (v'.wrap m kind).ahead = v'.token?.toList ++ v'.unread from rfl, htoken',
      hended] at hother
    cases hother
  · intro token hlast
    rw [show (v'.wrap m kind).unread = v'.unread from rfl, hended] at hlast
    cases hlast
  · rw [hfair.sane.firm_wrap, hfirm, hdrop, List.take_append_of_le_length hlength]
    refine forall_mem_drop_append (fun node hnode => ?_) (List.forall_mem_singleton.2 ?_)
    · rw [List.drop_take] at hnode
      exact h.simple node (List.mem_of_mem_take hnode)
    refine simple_parens hkind (fun child hchild => ?_) hparens hlists (.inr ?_)
    · exact h.simple_drop hbase child hchild
    · exact ⟨_, rfl, .leaf rfl, rfl⟩
  · have hrows := hfair.sane.firm_wrap m kind
    have hrows' := hv.sane.firm_wrap m kind
    rw [hfirm, hdrop, List.take_append_of_le_length hlength, hrow,
      List.take_append_of_le_length hle, List.drop_append_of_le_length hle] at hrows
    rw [hfirm', hrow', List.append_assoc, List.take_append_of_le_length hle,
      List.drop_append_of_le_length hle, ← List.append_assoc] at hrows'
    exact .behind n htoken' htoken hunread hpending hpending' hrows hrows' rfl
      (htorn.opened hback hkind hgaps hproblem)

end Truncated

end State

end Grammar

end StatementCompletion
