import StatementCompletion.Proofs.Grammar.Bracing.Anatomy
import StatementCompletion.Proofs.Grammar.Tracking.Headers

/-!
# Where braces are put

The tokens of a statement with a header up to the last one of its body, and those behind it.  Braces
are put directly behind the closing parenthesis and, on a line of its own, behind the last token.

The statement that is cut has the text of the tokens, so its parts are read from them.
-/

namespace StatementCompletion.Grammar

/-- A statement that is cut and the tokens that it is read from. -/
structure Site where
  cut : Unbraced
  keyword : Token
  header : List Token
  closed : Token
  between : List Token
  last : Token
  rest : List Token
  isCut : cut.IsCut
  guard : isGuardKeyword keyword.kind = true
  closer : closed.kind = .rightParen
  begins : ∃ nodes, cut.front = keyword.node :: nodes
  front_text : Node.textAll cut.front = (keyword :: header).flatMap (·.text)
  body_text : Node.textAll (cut.gap ++ [cut.body]) = (between ++ [last]).flatMap (·.text)
  nonempty : ∀ token ∈ keyword :: (header ++ closed :: (between ++ last :: rest)), token.text ≠ []

namespace Site

variable (P : Site)

/-- What follows the closing parenthesis. -/
def inside : List Token :=
  P.between ++ P.last :: P.rest

/-- The same with the braces. -/
def inside' : List Token :=
  opensBlock :: (P.between ++ P.last :: breaksLine :: closesBlock :: P.rest)

/-- What follows the keyword. -/
def tail : List Token :=
  P.header ++ P.closed :: P.inside

/-- The same with the braces. -/
def tail' : List Token :=
  P.header ++ P.closed :: P.inside'

theorem isGate : IsGate P.closed P.inside' :=
  ⟨by rw [P.closer]; rfl, fun _ => rfl⟩

end Site

variable {floor : Nat} {inner inner' : Inner} {header : Header} {s t u v w x : State} {P : Site}

/-- A run that has taken something in has a last token. -/
theorem Grows.exists_advance (h : Grows floor s t) (hs : s.Sane)
    (hlt : t.ahead.length < s.ahead.length) :
    ∃ front last blanks, s.Advance t front last blanks := by
  rcases h.idle_or_advance hs with hidle | hadvance
  · rw [State.ahead, State.ahead, hidle.token, hidle.unread] at hlt
    exact absurd hlt (lt_irrefl _)
  · exact hadvance

/-- The states in which the parts of the statement are read from the tokens. -/
structure Site.Reads (P : Site) (u w : State) : Prop where
  fair : u.Fair
  token : u.token? = some P.closed
  unread : u.unread = P.inside
  advance : ∃ front blanks, (u.take Token.node).Advance w front P.last blanks
    ∧ P.between = P.inside.takeWhile Token.isTrivia ++ front ∧ P.rest = blanks ++ w.ahead

section

variable (h : inner.Tracks (.alike [] []) (Coupling.Doomed (.alike [] [])) inner')

include h

/-- The state behind a header has come from the state at the keyword. -/
theorem Header.Reads.grows (hs : s.Fair) (hguard : isGuardKeyword s.current = true)
    (hreads : header.Reads inner s u) : u.Fair ∧ Grows 0 s u ∧ u.ahead.length < s.ahead.length := by
  have hfair : s.opened.Fair := (hs.take (.inl rfl)).take (.inl rfl)
  have hopened : Grows 0 s s.opened := (Grows.refl.take (.inl rfl)).take (.inl rfl)
  have hinside : Mirrors (.alike [] []) anywhere (header.inside inner) (header.inside inner') :=
    inside_mirrors h (fun _ => id) header
  obtain ⟨hu, hsu⟩ := hinside.grows hfair (Nat.zero_le _) trivial hreads.inside
  refine ⟨hu, hopened.trans hsu, hsu.length_ahead_le.trans_lt ?_⟩
  refine ((s.take Token.node).ahead_take_suffix Token.node).length_le.trans_lt ?_
  exact State.ahead_take_lt (State.isSome_of_isGuardKeyword hguard) Token.node

/-- The parts of the statement are read from its tokens. -/
theorem Site.exists_reads (hs : s.Fair) (htoken : s.token? = some P.keyword)
    (hunread : s.unread = P.tail)
    (hanatomy : Anatomy inner P.cut s t header u w x) : P.Reads u w := by
  have hguard : isGuardKeyword s.current = true := by rw [State.current, htoken]; exact P.guard
  have hahead : s.ahead = (P.keyword :: P.header) ++ P.closed :: P.inside := by
    rw [State.ahead, htoken, hunread]
    rfl
  have hnonempty : ∀ token ∈ s.ahead, token.text ≠ [] := by
    rw [hahead]
    exact P.nonempty
  obtain ⟨hu, hsu, hlt⟩ := hanatomy.reads.grows h hs hguard
  -- what stands in front of the parenthesis has the text of the keyword and the header
  obtain ⟨front, last, blanks, hadvance⟩ := hsu.exists_advance hs.sane hlt
  have hfront : (front ++ last :: blanks).flatMap (·.text) =
      (P.keyword :: P.header).flatMap (·.text) := by
    have htext : Node.textAll u.built.reverse
        = Node.textAll s.built.reverse ++ (front ++ last :: blanks).flatMap (·.text) := by
      rw [← State.firm_append_loose, Node.textAll_append, hadvance.text, hadvance.loose,
        Node.textAll_map_node]
      simp
    rw [hanatomy.front, Node.textAll_append] at htext
    rw [← P.front_text]
    exact (List.append_cancel_left htext).symm
  have hread : s.ahead = (front ++ last :: blanks) ++ u.ahead := by rw [hadvance.ahead]; simp
  obtain ⟨-, hrest⟩ := Token.fronts_eq hread hahead hnonempty hfront
  obtain ⟨htoken', hunread'⟩ := hu.sane.of_ahead_eq_cons hrest
  have hv : (u.take Token.node).Fair := hu.take (.inl rfl)
  obtain ⟨there, hbody⟩ := hanatomy.body
  obtain ⟨hw, hvw⟩ := h.statement.grows hv (Nat.zero_le _) trivial hbody
  refine ⟨hu, htoken', hunread', ?_⟩
  have hgap : P.cut.gap = (P.inside.takeWhile Token.isTrivia).map Token.node := by
    rw [← hanatomy.gap, State.take_of_some htoken', State.loose_read, hunread']
  have hbodyText : (P.inside.takeWhile Token.isTrivia).flatMap (·.text) ++ P.cut.body.text
      = (P.between ++ [P.last]).flatMap (·.text) := by
    rw [← P.body_text, Node.textAll_append, hgap, Node.textAll_map_node]
    simp [Node.textAll]
  have hrow : Node.textAll w.firm
      = Node.textAll (u.take Token.node).built.reverse ++ P.cut.body.text := by
    rw [hanatomy.row, Node.textAll_append]
    simp [Node.textAll]
  have hinside : ∀ token ∈ P.inside, token.text ≠ [] := fun token htoken =>
    P.nonempty token
      (List.mem_cons_of_mem _ (List.mem_append_right _ (List.mem_cons_of_mem _ htoken)))
  rcases hvw.idle_or_advance hv.sane with hidle | ⟨front', last', blanks', hadvance'⟩
  · -- a body without text is none
    have hsame := hidle.text
    rw [hrow, ← State.firm_append_loose, Node.textAll_append, List.append_assoc,
      List.append_right_eq_self, hanatomy.gap, hgap, Node.textAll_map_node, hbodyText] at hsame
    refine absurd ?_ (hinside P.last (List.mem_append_right _ List.mem_cons_self))
    rw [List.flatMap_append, List.append_eq_nil_iff] at hsame
    simpa using hsame.2
  · have hbehind : P.inside
        = (P.inside.takeWhile Token.isTrivia ++ front' ++ [last']) ++ (blanks' ++ w.ahead) := by
      have hdrop : (u.take Token.node).ahead = P.inside.dropWhile Token.isTrivia := by
        rw [State.take_of_some htoken', State.ahead_read, hunread']
      conv =>
        lhs; rw [← List.takeWhile_append_dropWhile (p := Token.isTrivia) (l := P.inside), ← hdrop,
          hadvance'.ahead]
      simp
    have htext : P.cut.body.text = (front' ++ [last']).flatMap (·.text) :=
      List.append_cancel_left (hrow.symm.trans hadvance'.text)
    have hsplit : P.inside = (P.between ++ [P.last]) ++ P.rest := by simp [Site.inside]
    obtain ⟨hfront', hrest'⟩ := Token.fronts_eq hbehind hsplit hinside (by
      rw [← hbodyText, htext, List.append_assoc, List.flatMap_append])
    obtain ⟨hbetween, hlast⟩ := List.append_inj' hfront' rfl
    obtain rfl := List.singleton_inj.1 hlast
    exact ⟨front', blanks', hadvance', hbetween.symm, hrest'.symm⟩

end

end StatementCompletion.Grammar
