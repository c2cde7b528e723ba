import StatementCompletion.Proofs.Grammar.Tracking

/-!
# What has been read between two states

Where a run takes tokens in, the last of them is known by what lies behind it: only white space and
comments stand between it and the token that is next, and they make up the loose end of the row.  So
what has been read is told by its text, for no token is empty.
-/

namespace StatementCompletion

/-- The first of a row that has a property tells the row in front of it. -/
theorem first_eq {α : Type} {holds : α → Prop} {front front' rest rest' : List α} {first first' : α}
    (h : front ++ first :: rest = front' ++ first' :: rest') (hfront : ∀ x ∈ front, ¬ holds x)
    (hfront' : ∀ x ∈ front', ¬ holds x) (hfirst : holds first) (hfirst' : holds first') :
    front = front' ∧ first = first' ∧ rest = rest' := by
  induction front generalizing front' with
  | nil =>
    cases front' with
    | nil => exact ⟨rfl, List.cons.inj h⟩
    | cons x front' =>
      obtain ⟨rfl, -⟩ := List.cons.inj h
      exact absurd hfirst (hfront' _ List.mem_cons_self)
  | cons x front ih =>
    cases front' with
    | nil =>
      obtain ⟨rfl, -⟩ := List.cons.inj h
      exact absurd hfirst' (hfront _ List.mem_cons_self)
    | cons x' front' =>
      obtain ⟨rfl, hrest⟩ := List.cons.inj h
      obtain ⟨rfl, hsame⟩ := ih hrest (fun y hy => hfront y (List.mem_cons_of_mem _ hy))
        fun y hy => hfront' y (List.mem_cons_of_mem _ hy)
      exact ⟨rfl, hsame⟩

namespace Token

/-- Two fronts of a row of tokens that have the same text are the same, for no token is empty. -/
theorem fronts_eq {tokens front front' rest rest' : List Token} (htokens : tokens = front ++ rest)
    (htokens' : tokens = front' ++ rest') (hnonempty : ∀ token ∈ tokens, token.text ≠ [])
    (htext : front.flatMap (·.text) = front'.flatMap (·.text)) : front = front' ∧ rest = rest' := by
  induction front generalizing tokens front' with
  | nil =>
    cases front' with
    | nil => exact ⟨rfl, htokens.symm.trans htokens'⟩
    | cons token front' =>
      have hempty := (List.append_eq_nil_iff.1 htext.symm).1
      exact absurd hempty (hnonempty token (htokens' ▸ List.mem_cons_self))
  | cons token front ih =>
    cases front' with
    | nil =>
      have hempty := (List.append_eq_nil_iff.1 htext).1
      exact absurd hempty (hnonempty token (htokens ▸ List.mem_cons_self))
    | cons token' front' =>
      obtain ⟨rfl, hrest⟩ := List.cons.inj (htokens.symm.trans htokens')
      have hmore : ∀ other ∈ front ++ rest, other.text ≠ [] := fun other hother =>
        hnonempty other (htokens ▸ List.mem_cons_of_mem _ hother)
      obtain ⟨rfl, hsame⟩ := ih rfl hrest hmore (List.append_cancel_left htext)
      exact ⟨rfl, hsame⟩

/-- The last token of a row that is neither white space nor a comment. -/
theorem last_solid_eq {front front' blanks blanks' : List Token} {last last' : Token}
    (h : front ++ last :: blanks = front' ++ last' :: blanks') (hsolid : last.isTrivia = false)
    (hsolid' : last'.isTrivia = false) (hblanks : ∀ token ∈ blanks, token.isTrivia = true)
    (hblanks' : ∀ token ∈ blanks', token.isTrivia = true) :
    front = front' ∧ last = last' ∧ blanks = blanks' := by
  have hreverse {front blanks : List Token} {last : Token} :
      (front ++ last :: blanks).reverse = blanks.reverse ++ last :: front.reverse := by simp
  have hnone {blanks : List Token} (hblanks : ∀ token ∈ blanks, token.isTrivia = true) :
      ∀ token ∈ blanks.reverse, ¬ token.isTrivia = false := fun token htoken => by
    rw [hblanks token (List.mem_reverse.1 htoken)]
    exact Bool.noConfusion
  obtain ⟨hgap, hlast, hfront⟩ := first_eq (hreverse.symm.trans ((congrArg _ h).trans hreverse))
    (hnone hblanks) (hnone hblanks') hsolid hsolid'
  exact ⟨List.reverse_injective hfront, hlast, List.reverse_injective hgap⟩

end Token

namespace Grammar

namespace State

/-- Nothing has been taken in. -/
structure Idle (s t : State) : Prop where
  token : t.token? = s.token?
  unread : t.unread = s.unread
  onNewLine : t.onNewLine = s.onNewLine
  loose : t.loose = s.loose
  text : Node.textAll t.firm = Node.textAll s.firm

/-- Tokens have been taken in, up to a last one with white space and comments behind it. -/
structure Advance (s t : State) (front : List Token) (last : Token)
    (blanks : List Token) : Prop where
  ahead : s.ahead = front ++ last :: (blanks ++ t.ahead)
  solid : last.isTrivia = false
  trivia : ∀ token ∈ blanks, token.isTrivia = true
  onNewLine : t.onNewLine = hasNewline blanks
  loose : t.loose = blanks.map Token.node
  text : Node.textAll t.firm = Node.textAll s.built.reverse ++ (front ++ [last]).flatMap (·.text)

end State

open State (Idle Advance)

variable {floor marker : Nat} {kind : Kind} {s t : State}

/-- What is told of two states stays if only the row changes and its text does not. -/
theorem idle_or_advance_of_text {u : State}
    (h : Idle s t ∨ ∃ front last blanks, Advance s t front last blanks)
    (htoken : u.token? = t.token?) (hunread : u.unread = t.unread)
    (honNewLine : u.onNewLine = t.onNewLine)
    (hloose : u.loose = t.loose) (htext : Node.textAll u.firm = Node.textAll t.firm) :
    Idle s u ∨ ∃ front last blanks, Advance s u front last blanks := by
  have hahead : u.ahead = t.ahead := by rw [State.ahead, State.ahead, htoken, hunread]
  rcases h with hidle | ⟨front, last, blanks, hadvance⟩
  · exact .inl ⟨htoken.trans hidle.token, hunread.trans hidle.unread,
      honNewLine.trans hidle.onNewLine, hloose.trans hidle.loose, htext.trans hidle.text⟩
  · exact .inr ⟨front, last, blanks, hahead ▸ hadvance.ahead, hadvance.solid, hadvance.trivia,
      honNewLine.trans hadvance.onNewLine, hloose.trans hadvance.loose, htext.trans hadvance.text⟩

theorem State.Sane.textAll_firm_wrap (hs : s.Sane) (marker : Nat) (kind : Kind) :
    Node.textAll (s.wrap marker kind).firm = Node.textAll s.firm := by
  have hbranch (nodes : List Node) : Node.textAll [.branch kind nodes] = Node.textAll nodes := by
    simp [Node.textAll, Node.text]
  rw [hs.firm_wrap, Node.textAll_append, hbranch, ← Node.textAll_append, List.take_append_drop]

theorem State.Sane.textAll_firm_markMissing (hs : s.Sane) (wanted : Wanted) :
    Node.textAll (s.markMissing wanted).firm = Node.textAll s.firm := by
  rcases hs.firm_markMissing wanted with heq | heq
  · rw [heq]
  · rw [heq, Node.textAll_append]
    simp [Node.textAll, Node.text]

theorem IsTaking.text {node : Token → Node} (h : IsTaking node) (token : Token) :
    (node token).text = token.text := by
  have hown := h.ownText token
  have hleaf := h.isLeaf token
  cases hnode : node token with
  | leaf | error => rwa [hnode] at hown
  | branch => rw [hnode] at hleaf; cases hleaf

namespace State

variable {u : State} {front front' blanks blanks' : List Token} {last last' : Token}

theorem Idle.advance (h : Idle s t) (hadvance : Advance t u front last blanks) :
    Advance s u front last blanks := by
  have hbuilt : Node.textAll t.built.reverse = Node.textAll s.built.reverse := by
    rw [← State.firm_append_loose, ← State.firm_append_loose, Node.textAll_append,
      Node.textAll_append, h.text, h.loose]
  have hahead : t.ahead = s.ahead := by rw [State.ahead, State.ahead, h.token, h.unread]
  exact { hadvance with ahead := hahead ▸ hadvance.ahead, text := hbuilt ▸ hadvance.text }

theorem Advance.trans (h : Advance s t front last blanks) (h' : Advance t u front' last' blanks') :
    Advance s u (front ++ last :: (blanks ++ front')) last' blanks' := by
  refine { h' with ahead := ?_, text := ?_ }
  · rw [h.ahead, h'.ahead]
    simp
  · rw [h'.text, ← State.firm_append_loose, Node.textAll_append, h.text, h.loose,
      Node.textAll_map_node]
    simp

/-- A token that is taken in is the last one, with what it is followed by up to the next token. -/
theorem Sane.advance_take (ht : t.Sane) {token : Token} (htoken : t.token? = some token)
    {node : Token → Node} (hnode : IsTaking node) :
    Advance t (t.take node) [] token (t.unread.takeWhile Token.isTrivia) where
  ahead := by
    rw [State.take_of_some htoken, State.ahead_read, List.takeWhile_append_dropWhile,
      State.ahead, htoken]
    rfl
  solid := (ht.token token htoken).1
  trivia := fun _ => List.mem_takeWhile_imp
  onNewLine := by
    rw [State.take_of_some htoken]
    rfl
  loose := by rw [State.take_of_some htoken, State.loose_read]
  text := by
    rw [State.firm_take htoken, State.firm_append_loose, Node.textAll_append]
    simp [Node.textAll, hnode.text]

end State

/-- Behind every step of a run nothing has been taken in, or a last token is known. -/
theorem Grows.idle_or_advance (h : Grows floor s t) (hs : s.Sane) :
    Idle s t ∨ ∃ front last blanks, Advance s t front last blanks := by
  induction h with
  | refl => exact .inl ⟨rfl, rfl, rfl, rfl, rfl⟩
  | @missing t wanted ht _ ih =>
    have htsane := ht.sane hs
    refine idle_or_advance_of_text ih ?_ ?_ ?_ (htsane.loose_markMissing wanted)
      (htsane.textAll_firm_markMissing wanted)
    all_goals
      rcases t.markMissing_eq wanted with heq | heq
      · rw [heq]
      · rw [heq]; rfl
  | @wrap t marker kind ht _ _ ih =>
    have htsane := ht.sane hs
    exact idle_or_advance_of_text ih rfl rfl rfl (htsane.loose_wrap marker kind)
      (htsane.textAll_firm_wrap marker kind)
  | @take t node ht hnode ih =>
    cases htoken : t.token? with
    | none => rwa [State.take_of_none htoken]
    | some token =>
      have htaken := (ht.sane hs).advance_take htoken hnode
      rcases ih with hidle | ⟨front, last, blanks, hadvance⟩
      · exact .inr ⟨_, _, _, hidle.advance htaken⟩
      · exact .inr ⟨_, _, _, hadvance.trans htaken⟩

end Grammar

end StatementCompletion
