import StatementCompletion.Proofs.Grammar.Forming.Sources
import StatementCompletion.Proofs.Grammar.Tracking.Sources

/-!
# Trees whose texts are masked

A mask hides what a text says: all that is left to see is whether there is a line feed in it.  A
grammar asks no token for more than its kind and a line feed, so two texts whose tokens look the
same behind a mask have trees that look the same behind one.
-/

namespace StatementCompletion

/-! ## Masks -/

/-- A text of which only a line feed is seen. -/
def Text.mask (text : Text) : Text :=
  if text.isEmpty then [] else if text.contains '\n' then ['\n'] else [' ']

@[simp] theorem Text.mask_eq_nil {text : Text} : text.mask = [] ↔ text = [] := by
  cases text with
  | nil => simp [mask]
  | cons c text =>
    rw [mask, if_neg (by simp)]
    split <;> simp

@[simp] theorem Text.contains_mask (text : Text) :
    text.mask.contains '\n' = text.contains '\n' := by
  unfold mask
  split
  · next hempty => rw [List.isEmpty_iff.1 hempty]
  · split
    · next hnewline => rw [hnewline]; rfl
    · next hplain => rw [Bool.eq_false_iff.2 hplain]; rfl

/-- A quote at its end is not seen. -/
theorem Text.mask_concat {text : Text} {c : Char} (hne : text ≠ []) (hc : c ≠ '\n') :
    Text.mask (text ++ [c]) = text.mask := by
  have hcontains : List.contains (text ++ [c]) '\n' = text.contains '\n' := by simp [hc.symm]
  rw [mask, mask, hcontains, if_neg (by simp), if_neg (mt List.isEmpty_iff.1 hne)]

/-- A token of which only the kind and a line feed are seen. -/
def Token.mask (token : Token) : Token :=
  { token with text := Text.mask token.text }

/-- A problem of which the character is not seen. -/
def Problem.mask : Problem → Problem
  | .invalidCharacter text => .invalidCharacter (Text.mask text)
  | problem => problem

namespace Node

mutual

/-- A tree of which only kinds and line feeds are seen. -/
def mask : Node → Node
  | .leaf kind text => .leaf kind (Text.mask text)
  | .error problem text => .error problem.mask (Text.mask text)
  | .branch kind children => .branch kind (maskAll children)

/-- Trees in a row of which only kinds and line feeds are seen. -/
def maskAll : List Node → List Node
  | [] => []
  | node :: rest => node.mask :: maskAll rest

end

theorem maskAll_eq_map (nodes : List Node) : maskAll nodes = nodes.map mask := by
  induction nodes with
  | nil => rfl
  | cons node rest ih => rw [maskAll, ih, List.map_cons]

@[simp] theorem kind_mask (node : Node) : node.mask.kind = node.kind := by
  cases node <;> rfl

theorem mask_branch (kind : Kind) (children : List Node) :
    (branch kind children).mask = .branch kind (children.map mask) := by
  rw [mask, maskAll_eq_map]

@[simp] theorem ownText_mask (node : Node) : node.mask.ownText = Text.mask node.ownText := by
  cases node <;> rfl

end Node

namespace Token

@[simp] theorem node_mask (token : Token) : token.mask.node = token.node.mask := by
  obtain ⟨kind, text⟩ := token
  cases kind <;> rfl

@[simp] theorem isTrivia_comp_mask : isTrivia ∘ mask = isTrivia :=
  rfl

end Token

namespace Grammar

@[simp] theorem State.unexpectedNode_mask (token : Token) :
    unexpectedNode token.mask = (unexpectedNode token).mask := by
  obtain ⟨kind, text⟩ := token
  cases kind <;> rfl

theorem IsTaking.mask {node : Token → Node} (h : IsTaking node) (token : Token) :
    node token.mask = (node token).mask := by
  rcases h with rfl | rfl
  · exact token.node_mask
  · exact State.unexpectedNode_mask token

namespace State

/-- A state of which only kinds and line feeds are seen. -/
def mask (s : State) : State :=
  { s with
    built := s.built.map Node.mask
    token? := s.token?.map Token.mask
    unread := s.unread.map Token.mask }

/-! ## Steps behind a mask -/

theorem hasNewline_map_mask (tokens : List Token) :
    hasNewline (tokens.map Token.mask) = hasNewline tokens := by
  rw [hasNewline, List.any_map, hasNewline]
  congr 1
  funext token
  show (decide (token.kind = .whitespace) && (Text.mask token.text).contains '\n') = _
  rw [Text.contains_mask]

theorem mask_read (built : List Node) (tokens : List Token) :
    (read built tokens).mask = read (built.map Node.mask) (tokens.map Token.mask) := by
  have htake : (tokens.map Token.mask).takeWhile Token.isTrivia
      = (tokens.takeWhile Token.isTrivia).map Token.mask := by
    rw [List.takeWhile_map, Token.isTrivia_comp_mask]
  have hdrop : (tokens.map Token.mask).dropWhile Token.isTrivia
      = (tokens.dropWhile Token.isTrivia).map Token.mask := by
    rw [List.dropWhile_map, Token.isTrivia_comp_mask]
  simp [read, mask, htake, hdrop, hasNewline_map_mask, Function.comp_def]

theorem mask_take (s : State) {node : Token → Node} (h : IsTaking node) :
    (s.take node).mask = s.mask.take node := by
  cases htoken : s.token? with
  | none =>
    have hmask : s.mask.token? = none := congrArg (Option.map Token.mask) htoken
    rw [take_of_none htoken, take_of_none hmask]
  | some token =>
    have hmask : s.mask.token? = some token.mask := congrArg (Option.map Token.mask) htoken
    rw [take_of_some htoken, take_of_some hmask, mask_read, List.map_cons, h.mask]
    rfl

theorem mask_insertSolid (s : State) (count : Nat) (node : Node) :
    (s.insertSolid count node).mask = s.mask.insertSolid count node.mask := by
  simp [insertSolid, mask]

theorem isAfterError_mask (s : State) : s.mask.isAfterError = s.isAfterError := by
  show ((s.built.map Node.mask).drop s.pending).head?.any _ = (s.built.drop s.pending).head?.any _
  rw [← List.map_drop, List.head?_map, Option.any_map]
  congr 1
  funext node
  exact congrArg Kind.isError node.kind_mask

theorem mask_markMissing (s : State) (wanted : Wanted) :
    (s.markMissing wanted).mask = s.mask.markMissing wanted := by
  unfold markMissing
  rw [isAfterError_mask]
  split
  · rfl
  · exact s.mask_insertSolid 0 _

theorem mask_wrap (s : State) (marker : Nat) (kind : Kind) :
    (s.wrap marker kind).mask = s.mask.wrap marker kind := by
  have hsolid : s.mask.solid = s.solid := by
    rw [solid, mask, List.length_map, solid]
  rw [wrap, mask_insertSolid, Node.mask_branch, wrap, hsolid, List.map_reverse, List.map_take,
    List.map_drop]
  rfl

theorem current_mask (s : State) : s.mask.current = s.current := by
  rw [current, current, mask]
  cases s.token? <;> rfl

theorem mask_next (s : State) : s.next.mask = s.mask.next :=
  mask_read [] s.unread

theorem onNewLine_mask (s : State) : s.mask.onNewLine = s.onNewLine :=
  rfl

theorem marker_mask (s : State) : s.mask.marker = s.marker :=
  List.length_map _

theorem length_unread_mask (s : State) : s.mask.unread.length = s.unread.length :=
  List.length_map _

end State

/-! ## Trees behind a mask -/

/-- The two sides look the same behind a mask. -/
structure SameMask (s s' : State) : Prop where
  fair : s.Fair
  fair' : s'.Fair
  mask : s'.mask = s.mask

namespace SameMask

variable {s s' : State}

theorem take (h : SameMask s s') {node : Token → Node} (hnode : IsTaking node) :
    SameMask (s.take node) (s'.take node) :=
  ⟨h.fair.take hnode, h.fair'.take hnode,
    by rw [State.mask_take _ hnode, h.mask, State.mask_take _ hnode]⟩

theorem markMissing (h : SameMask s s') (wanted : Wanted) :
    SameMask (s.markMissing wanted) (s'.markMissing wanted) :=
  ⟨h.fair.markMissing wanted, h.fair'.markMissing wanted,
    by rw [State.mask_markMissing, h.mask, State.mask_markMissing]⟩

theorem wrap (h : SameMask s s') (m : Nat) {kind : Kind} (hkind : kind.isConstruct = true) :
    SameMask (s.wrap m kind) (s'.wrap m kind) :=
  ⟨h.fair.wrap m hkind, h.fair'.wrap m hkind, by rw [State.mask_wrap, h.mask, State.mask_wrap]⟩

theorem token (h : SameMask s s') : s'.token?.map (·.kind) = s.token?.map (·.kind) := by
  have hmask : s'.token?.map Token.mask = s.token?.map Token.mask := congrArg State.token? h.mask
  have hkind (token? : Option Token) :
      token?.map (·.kind) = (token?.map Token.mask).map (·.kind) := by
    rw [Option.map_map]
    rfl
  rw [hkind, hmask, ← hkind]

theorem next (h : SameMask s s') :
    s'.next.current = s.next.current ∧ s'.next.onNewLine = s.next.onNewLine := by
  have hnext : s'.next.mask = s.next.mask := by rw [State.mask_next, h.mask, State.mask_next]
  constructor
  · rw [← State.current_mask, hnext, State.current_mask]
  · rw [← State.onNewLine_mask, hnext, State.onNewLine_mask]

theorem onNewLine (h : SameMask s s') : s'.onNewLine = s.onNewLine := by
  rw [← State.onNewLine_mask, h.mask, State.onNewLine_mask]

theorem marker (h : SameMask s s') : s'.marker = s.marker := by
  rw [← State.marker_mask, h.mask, State.marker_mask]

theorem length_unread (h : SameMask s s') : s'.unread.length = s.unread.length := by
  rw [← State.length_unread_mask, h.mask, State.length_unread_mask]

end SameMask

/-- The two sides go on to look the same behind a mask. -/
def Pairing.masked : Pairing where
  base := 0
  base' := 0
  Rel := SameMask
  fair h := ⟨h.fair, h.fair'⟩
  solid _ := Nat.zero_le _
  marker h := h.marker.symm
  token h := h.token
  onNewLine h := h.onNewLine
  next h := h.next
  unread h := h.length_unread
  take h hnode := h.take hnode
  missing wanted h := h.markMissing wanted
  wrap {s s' m m' kind} h _ hlevel hkind := by
    obtain rfl : m = m' := hlevel
    exact h.wrap m hkind

end Grammar

open Grammar in
/-- **What a tree is like depends on the kinds of the tokens and the line feeds in
them, not on what they say.** -/
theorem Node.mask_ofText (kind : SourceKind) {text text' : Text}
    (h : (Token.ofText text').map Token.mask = (Token.ofText text).map Token.mask) :
    (ofText kind text').mask = (ofText kind text).mask := by
  obtain ⟨t, hrun, -, htree⟩ := exists_run_ofText kind text
  obtain ⟨t', hrun', -, htree'⟩ := exists_run_ofText kind text'
  have hmask : (State.start (Token.ofText text')).mask =
      (State.start (Token.ofText text)).mask := by
    rw [State.start, State.mask_read, h, State.start, State.mask_read]
  have hstart : SameMask (State.start (Token.ofText text)) (State.start (Token.ofText text')) :=
    ⟨State.fair_start text, State.fair_start text', hmask⟩
  have hmade : SameMask t t' := Pairing.masked.rel_of_run kind hstart hrun hrun'
  have hbuilt : t'.built.map mask = t.built.map mask := congrArg State.built hmade.mask
  rw [htree, htree', mask_branch, mask_branch, List.map_reverse, hbuilt, List.map_reverse]

end StatementCompletion
