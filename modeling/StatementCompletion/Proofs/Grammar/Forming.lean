import StatementCompletion.Proofs.Grammar.Agreement.Combinators
import StatementCompletion.Proofs.Tree.Whole

/-!
# What a parser makes of a row without problems

Where the row has no problems after a run, it had none before, and what the run has added to it is
known from the rule alone.  `State.Adds` says which kinds of parts have joined the row, and `Forms`
that a parser adds one of the rows of kinds of a language, which may depend on its answer.

A rule that makes a branch from a marker of its caller takes what stands behind that marker for the
parts of the branch.  So `Turns` speaks of everything behind a marker, before and after the run.

Both are promises about what comes of a run; that there is a result is shown elsewhere.
-/

namespace StatementCompletion

namespace Grammar

variable {α β : Type}

/-! ## States -/

namespace State

/-- What is promised of every state that a grammar comes to from the tokens of a text. -/
structure Fair (s : State) : Prop where
  sane : s.Sane
  unread : Token.Respaced s.unread s.unread
  tokens : ∀ token ∈ s.ahead, token.kind.isConstruct = false
  errors : ∀ node ∈ s.built, node.kind = .error → node.problems ≠ []

/-- No node of the row has a problem. -/
def IsClean (s : State) : Prop :=
  ∀ node ∈ s.built, node.problems = []

namespace Fair

variable {s : State}

/-- A state is alike itself. -/
theorem alike (h : s.Fair) : Alike s s :=
  ⟨h.sane, h.sane, rfl, h.unread, fun _ => rfl, rfl, rfl⟩

theorem problems_node {token : Token} (h : token.node.kind = .error) :
    token.node.problems ≠ [] := by
  unfold Token.node at h ⊢
  split at h
  · exact nofun
  · next hkind => exact absurd h hkind

theorem take (h : s.Fair) {node : Token → Node} (hnode : IsTaking node) : (s.take node).Fair := by
  cases hcurrent : s.token? with
  | none => rwa [take_of_none hcurrent]
  | some current =>
    refine ⟨h.sane.take node, (h.alike.take node).unread, fun token htoken => h.tokens token ?_, ?_⟩
    · rw [take_of_some hcurrent, ahead_read] at htoken
      exact List.mem_append_right _ ((List.dropWhile_sublist _).subset htoken)
    · rw [take_of_some hcurrent]
      intro n hn herror
      rcases List.mem_append.1 hn with htrivia | hn
      · obtain ⟨token, -, rfl⟩ := List.mem_map.1 (List.mem_reverse.1 htrivia)
        exact problems_node herror
      · rcases List.mem_cons.1 hn with rfl | hn
        · rcases hnode with rfl | rfl
          · exact problems_node herror
          · unfold unexpectedNode at herror ⊢
            split at herror
            · exact problems_node herror
            · exact nofun
        · exact h.errors n hn herror

theorem insertSolid (h : s.Fair) (count : Nat) {node : Node}
    (hnode : node.kind = .error → node.problems ≠ []) : (s.insertSolid count node).Fair := by
  refine ⟨h.sane.insertSolid _ _, h.unread, h.tokens, fun n hn => ?_⟩
  rcases List.mem_append.1 hn with hn | hn
  · exact h.errors n (List.mem_of_mem_take hn)
  · rcases List.mem_cons.1 hn with rfl | hn
    · exact hnode
    · exact h.errors n (List.mem_of_mem_drop hn)

theorem markMissing (h : s.Fair) (wanted : Wanted) : (s.markMissing wanted).Fair := by
  rcases s.markMissing_eq wanted with heq | heq <;> rw [heq]
  · exact h
  · exact h.insertSolid 0 fun _ => nofun

theorem wrap (h : s.Fair) (marker : Nat) {kind : Kind} (hkind : kind.isConstruct = true) :
    (s.wrap marker kind).Fair :=
  h.insertSolid _ fun herror => absurd herror (Kind.not_isTrivia_of_isConstruct hkind).2

/-- The current token is no construct, no white space and no comment. -/
theorem current (h : s.Fair) {token : Token} (htoken : s.token? = some token) :
    token.kind.isConstruct = false ∧ token.kind.isTrivia = false := by
  have hmem : token ∈ s.ahead := by
    rw [ahead, htoken]
    exact List.mem_cons_self
  exact ⟨h.tokens token hmem, (h.sane.token token htoken).1⟩

end Fair

/-! ## Problems stay -/

theorem IsClean.of_take {s : State} {node : Token → Node} {token : Token}
    (h : (s.take node).IsClean) (htoken : s.token? = some token) :
    s.IsClean ∧ (node token).problems = [] := by
  rw [take_of_some htoken] at h
  have hbuilt (n : Node) (hn : n ∈ node token :: s.built) : n.problems = [] :=
    h n (List.mem_append_right _ hn)
  exact ⟨fun n hn => hbuilt n (List.mem_cons_of_mem _ hn), hbuilt _ List.mem_cons_self⟩

/-- What is missing is a problem, now or from before. -/
theorem Fair.not_isClean_markMissing {s : State} (hs : s.Fair) (wanted : Wanted) :
    ¬ (s.markMissing wanted).IsClean := by
  intro h
  unfold State.markMissing at h
  split at h
  · next hafter =>
    rw [isAfterError, Option.any_eq_true] at hafter
    obtain ⟨node, hnode, herror⟩ := hafter
    have hmem : node ∈ s.built := List.mem_of_mem_drop (List.mem_of_mem_head? hnode)
    have hkind : node.kind = .error := by
      cases hkind : node.kind <;> first | rfl | (rw [hkind] at herror; cases herror)
    exact hs.errors node hmem hkind (h node hmem)
  · have hmem : Node.error (.expected wanted) []
        ∈ (s.insertSolid 0 (.error (.expected wanted) [])).built :=
      List.mem_append_right _ List.mem_cons_self
    cases h _ hmem

theorem IsClean.of_wrap {s : State} {marker : Nat} {kind : Kind}
    (h : (s.wrap marker kind).IsClean) :
    s.IsClean := by
  intro node hnode
  unfold State.wrap State.insertSolid at h
  set count := s.solid - min marker s.solid
  rw [← List.take_append_drop s.pending s.built,
    ← List.take_append_drop count (s.built.drop s.pending), List.drop_drop] at hnode
  rcases List.mem_append.1 hnode with hnode | hnode
  · exact h node (List.mem_append_left _ hnode)
  · rcases List.mem_append.1 hnode with hnode | hnode
    · have hbranch := h _ (List.mem_append_right _ List.mem_cons_self)
      rw [Node.problems, Node.problemsAll_eq_nil] at hbranch
      exact hbranch node (List.mem_reverse.2 hnode)
    · exact h node (List.mem_append_right _ (List.mem_cons_of_mem _ hnode))

/-! ## What joins the row -/

/-- Nodes of the given kinds, white space and comments not counted, have joined the row. -/
def Adds (strict : Bool) (s t : State) (parts : List Kind) : Prop :=
  (parts = [] ∧ t = s)
    ∨ parts ≠ [] ∧ ∃ nodes, t.firm = s.built.reverse ++ nodes ∧ Node.partKinds nodes = parts
      ∧ ∀ node ∈ nodes, node.IsSound strict

variable {strict : Bool} {s t u : State} {parts more : List Kind}

theorem Adds.refl : s.Adds strict s [] :=
  .inl ⟨rfl, rfl⟩

theorem Adds.relax {strict' : Bool} (h : s.Adds strict t parts)
    (hstrict : strict' = true → strict = true) : s.Adds strict' t parts := by
  rcases h with h | ⟨hparts, nodes, hfirm, hkinds, hsound⟩
  · exact .inl h
  · exact .inr ⟨hparts, nodes, hfirm, hkinds, fun node hnode => (hsound node hnode).relax hstrict⟩

theorem Adds.marker_lt (h : s.Adds strict t parts) (ht : t.Sane) (hparts : parts ≠ []) :
    s.marker < t.marker := by
  rcases h with ⟨rfl, -⟩ | ⟨-, nodes, hfirm, rfl, -⟩
  · exact absurd rfl hparts
  have hnodes : 0 < nodes.length := List.length_pos_iff.2 (by rintro rfl; exact hparts rfl)
  rw [ht.marker_eq, hfirm, List.length_append, List.length_reverse, marker]
  omega

/-- White space and comments are leaves. -/
theorem Sane.isSound_of_mem_loose (hs : s.Sane) {node : Node} (h : node ∈ s.loose) :
    node.IsSound strict := by
  obtain ⟨hleaf, htrivia, htext⟩ := hs.loose node h
  cases node with
  | leaf kind text =>
    have hkind : kind.isTrivia = true := htrivia
    exact .leaf (by cases kind <;> first | rfl | cases hkind) (by rintro rfl; cases hkind) htext
  | error problem text => cases htrivia
  | branch kind children => cases hleaf

theorem Sane.partKinds_loose (hs : s.Sane) : Node.partKinds s.loose = [] :=
  Node.partKinds_eq_nil fun node hnode => (hs.loose node hnode).2.1

/-- Nodes join the row behind those that have joined it before, with the white space and comments
between them. -/
theorem Adds.trans (h : s.Adds strict t parts) (ht : t.Sane) (htu : t.Adds strict u more) :
    s.Adds strict u (parts ++ more) := by
  rcases h with ⟨rfl, rfl⟩ | ⟨hparts, nodes, hfirm, hkinds, hsound⟩
  · exact htu
  rcases htu with ⟨rfl, rfl⟩ | ⟨-, nodes', hfirm', hkinds', hsound'⟩
  · rw [List.append_nil]
    exact .inr ⟨hparts, nodes, hfirm, hkinds, hsound⟩
  · refine .inr ⟨by simp [hparts], nodes ++ t.loose ++ nodes', ?_, ?_, ?_⟩
    · rw [hfirm', ← firm_append_loose, hfirm]
      simp only [List.append_assoc]
    · rw [Node.partKinds_append, Node.partKinds_append, hkinds, ht.partKinds_loose, hkinds',
        List.append_nil]
    · simp only [List.forall_mem_append]
      exact ⟨⟨hsound, fun node hnode => ht.isSound_of_mem_loose hnode⟩, hsound'⟩

theorem Adds.take {token : Token} (hs : s.Fair) (htoken : s.token? = some token)
    (hclean : token.node.problems = []) : s.Adds strict (s.take Token.node) [token.kind] := by
  obtain ⟨hconstruct, htrivia⟩ := hs.current htoken
  obtain ⟨hnode, herror⟩ : token.node = .leaf token.kind token.text ∧ token.kind ≠ .error := by
    unfold Token.node at hclean ⊢
    split at hclean
    · cases hclean
    · next hkind => exact ⟨rfl, hkind⟩
  refine .inr ⟨List.cons_ne_nil _ _, [token.node], ?_, ?_, ?_⟩
  · rw [firm_take htoken, firm_append_loose]
  · rw [Node.partKinds_singleton (by rwa [Token.kind_node]), Token.kind_node]
  · rw [List.forall_mem_singleton, hnode]
    exact .leaf hconstruct herror (hs.sane.token token htoken).2

/-- What has joined the row becomes the children of one branch. -/
theorem Adds.wrap {strict' : Bool} {kind : Kind} (h : s.Adds strict t parts) (ht : t.Sane)
    (hparts : parts ≠ []) (hkind : kind.isConstruct = true) (hadmits : kind.Admits parts)
    (hstrict : kind = .forStatement ∨ strict = true)
    (hended : strict' = true → kind = .expressionStatement → parts.getLast? = some .semicolon) :
    s.Adds strict' (t.wrap s.marker kind) [kind] := by
  rcases h with ⟨rfl, -⟩ | ⟨-, nodes, hfirm, rfl, hsound⟩
  · exact absurd rfl hparts
  have hmarker : s.marker = s.built.reverse.length := List.length_reverse.symm
  refine .inr ⟨List.cons_ne_nil _ _, [.branch kind nodes], ?_, ?_, ?_⟩
  · rw [ht.firm_wrap, hfirm, hmarker, List.take_left, List.drop_left]
  · exact Node.partKinds_singleton (Kind.not_isTrivia_of_isConstruct hkind).1
  · rw [List.forall_mem_singleton]
    refine ⟨.branch hkind (fun node hnode => (hsound node hnode).whole) hadmits ?_, hended⟩
    intro hnot node hnode
    exact (hsound node hnode).ended (hstrict.resolve_left hnot)

end Grammar.State

namespace Grammar

open State (Adds)

variable {α β : Type}

/-! ## Languages -/

/-- A row without enum constants. -/
def IsPlain (parts : List Kind) : Prop :=
  .enumConstant ∉ parts

/-- Which rows of kinds may join the row, by the answer of a parser. -/
abbrev Language (α : Type) := α → List Kind → Prop

namespace Language

/-- No row at all: what comes of it has a problem. -/
def none : Language α :=
  fun _ _ => False

/-- One row. -/
def word (kinds : List Kind) : Language α :=
  fun _ parts => parts = kinds

/-- Any row without enum constants. -/
def plain : Language α :=
  fun _ => IsPlain

/-- One part of a group of kinds. -/
def one (is : Kind → Bool) : Language α :=
  fun _ parts => ∃ kind, is kind = true ∧ parts = [kind]

/-- What a parser adds that finds something, and nothing if it finds nothing. -/
def found (language : Language Unit) : Language Bool :=
  fun answer parts => if answer then language () parts else parts = []

/-- A row or nothing. -/
def option (language : Language α) : Language α :=
  fun answer parts => parts = [] ∨ language answer parts

/-- One row behind another. -/
def seq (first : Language α) (second : α → Language β) : Language β :=
  fun answer parts => ∃ a front back, first a front ∧ second a answer back ∧ parts = front ++ back

end Language

/-! ## The promises -/

/-- Where the row is clean after a run from a state whose current token is of a wanted kind, it was
clean before, and a row of the language has joined it. -/
def Forms (strict : Bool) (wanted : Kind → Prop) (language : Language α) (p : Parser α) : Prop :=
  ∀ s, s.Fair → wanted s.current → ∀ a t, p.run s = some (a, t) →
    t.Fair ∧ (t.IsClean → s.IsClean ∧ ∃ parts, language a parts ∧ s.Adds strict t parts)

/-- The same of everything behind a marker, where a row of another language stands already. -/
def Turns (strict strict' : Bool) (wanted : Kind → Prop) (opening : Nat) (before : List Kind → Prop)
    (after : Language α) (p : Parser α) : Prop :=
  ∀ s₀ s : State, s₀.marker = opening → s.Fair → wanted s.current →
    (s.IsClean → ∃ parts, before parts ∧ s₀.Adds strict s parts) →
      ∀ a t, p.run s = some (a, t) → t.Fair
        ∧ (t.IsClean → s.IsClean ∧ ∃ parts, after a parts ∧ s₀.Adds strict' t parts)

/-- Any current token. -/
abbrev anywhere : Kind → Prop :=
  fun _ => True

section

variable {strict strict' : Bool} {wanted wanted' : Kind → Prop} {opening : Nat}
  {before : List Kind → Prop} {language language' : Language α} {more after after' : Language β}
  {p : Parser α} {g : α → Parser β}

theorem Forms.mono (h : Forms strict wanted language p)
    (hlanguage : ∀ a parts, language a parts → language' a parts) :
    Forms strict wanted language' p := by
  intro s hs hwanted a t hrun
  obtain ⟨ht, hadds⟩ := h s hs hwanted a t hrun
  refine ⟨ht, fun hclean => ?_⟩
  obtain ⟨hclean', parts, hparts, hst⟩ := hadds hclean
  exact ⟨hclean', parts, hlanguage a parts hparts, hst⟩

theorem Forms.at (h : Forms strict anywhere language p) : Forms strict wanted language p :=
  fun s hs _ => h s hs trivial

theorem Forms.narrow (h : Forms strict wanted language p)
    (hwanted : ∀ kind, wanted' kind → wanted kind) : Forms strict wanted' language p :=
  fun s hs hkind => h s hs (hwanted _ hkind)

theorem Forms.pure {a : α} (h : language a []) : Forms strict wanted language (pure a) := by
  intro s hs _ b t hrun
  obtain ⟨rfl, rfl⟩ := run_pure_eq_some.1 hrun
  exact ⟨hs, fun hclean => ⟨hclean, [], h, .refl⟩⟩

theorem Forms.pure_nil {a : α} : Forms strict wanted (Language.word []) (Pure.pure a) :=
  .pure rfl

theorem Forms.pure_eq {a : α} :
    Forms strict wanted (fun answer parts => answer = a ∧ parts = []) (Pure.pure a) :=
  .pure ⟨rfl, rfl⟩

theorem Forms.bind {more : α → Language β} (hp : Forms strict wanted language p)
    (hg : ∀ a, Forms strict anywhere (more a) (g a)) :
    Forms strict wanted (.seq language more) (p >>= g) := by
  intro s hs hwanted b u hrun
  obtain ⟨a, t, hpt, hgu⟩ := run_bind_eq_some.1 hrun
  obtain ⟨ht, hst⟩ := hp s hs hwanted a t hpt
  obtain ⟨hu, htu⟩ := hg a t ht trivial b u hgu
  refine ⟨hu, fun hclean => ?_⟩
  obtain ⟨hclean, back, hback, htu⟩ := htu hclean
  obtain ⟨hclean, front, hfront, hst⟩ := hst hclean
  exact ⟨hclean, front ++ back, ⟨a, front, back, hfront, hback, rfl⟩, hst.trans ht.sane htu⟩

theorem Forms.discard (hp : Forms strict wanted language p) :
    Forms strict wanted (fun _ parts => ∃ a, language a parts) (discard p) := by
  intro s hs hwanted b t hrun
  obtain ⟨a, hpt⟩ := run_discard_eq_some.1 hrun
  obtain ⟨ht, hst⟩ := hp s hs hwanted a t hpt
  refine ⟨ht, fun hclean => ?_⟩
  obtain ⟨hclean, parts, hparts, hst⟩ := hst hclean
  exact ⟨hclean, parts, ⟨a, hparts⟩, hst⟩

/-- What is added behind a marker stands behind what is there. -/
theorem Forms.turns (hp : Forms strict wanted language p) :
    Turns strict strict wanted opening before
      (fun a parts => ∃ front back, before front ∧ language a back ∧ parts = front ++ back) p := by
  intro s₀ s _ hs hwanted hbefore a t hrun
  obtain ⟨ht, hst⟩ := hp s hs hwanted a t hrun
  refine ⟨ht, fun hclean => ?_⟩
  obtain ⟨hclean, back, hback, hst⟩ := hst hclean
  obtain ⟨front, hfront, hs₀⟩ := hbefore hclean
  exact ⟨hclean, front ++ back, ⟨front, back, hfront, hback, rfl⟩, hs₀.trans hs.sane hst⟩

/-- Behind a marker that is set here, nothing stands yet. -/
theorem Forms.marker_bind {f : Nat → Parser α}
    (hf : ∀ opening, Turns true strict wanted opening (· = []) language (f opening)) :
    Forms strict wanted language (marker >>= f) :=
  fun s hs hwanted => hf s.marker s s rfl hs hwanted fun _ => ⟨[], rfl, .refl⟩

theorem Turns.mono {after' : Language α} (h : Turns strict strict' wanted opening before language p)
    (hafter : ∀ a parts, language a parts → after' a parts) :
    Turns strict strict' wanted opening before after' p := by
  intro s₀ s hopening hs hwanted hbefore a t hrun
  obtain ⟨ht, hturned⟩ := h s₀ s hopening hs hwanted hbefore a t hrun
  refine ⟨ht, fun hclean => ?_⟩
  obtain ⟨hclean', parts, hparts, hst⟩ := hturned hclean
  exact ⟨hclean', parts, hafter a parts hparts, hst⟩

theorem Turns.at (h : Turns strict strict' anywhere opening before language p) :
    Turns strict strict' wanted opening before language p :=
  fun s₀ s hopening hs _ => h s₀ s hopening hs trivial

theorem Turns.narrow {b : List Kind → Prop}
    (h : Turns strict strict' wanted opening b language p)
    (hbefore : ∀ parts, before parts → b parts) :
    Turns strict strict' wanted opening before language p := by
  intro s₀ s hopening hs hwanted hparts
  refine h s₀ s hopening hs hwanted fun hclean => ?_
  obtain ⟨parts, hbefore', hadds⟩ := hparts hclean
  exact ⟨parts, hbefore parts hbefore', hadds⟩

/-- Nothing comes of what cannot be. -/
theorem Turns.vacuous {after' : Language α}
    (h : Turns strict strict' wanted opening before language p)
    (hbefore : ∀ parts, ¬ before parts) :
    Turns strict strict' wanted opening before after' p := by
  intro s₀ s hopening hs hwanted hparts a t hrun
  obtain ⟨ht, hturned⟩ := h s₀ s hopening hs hwanted hparts a t hrun
  refine ⟨ht, fun hclean => ?_⟩
  obtain ⟨parts, hmem, -⟩ := hparts (hturned hclean).1
  exact absurd hmem (hbefore parts)

/-- What is strict need not be. -/
theorem Turns.relax (h : Turns strict strict wanted opening before language p)
    (hstrict : strict' = true → strict = true) :
    Turns strict strict' wanted opening before language p := by
  intro s₀ s hopening hs hwanted hbefore a t hrun
  obtain ⟨ht, hturned⟩ := h s₀ s hopening hs hwanted hbefore a t hrun
  refine ⟨ht, fun hclean => ?_⟩
  obtain ⟨hclean, parts, hparts, hadds⟩ := hturned hclean
  exact ⟨hclean, parts, hparts, hadds.relax hstrict⟩

theorem Turns.strengthen (h : Turns strict strict' wanted opening before language p) :
    Turns true strict' wanted opening before language p := by
  intro s₀ s hopening hs hwanted hbefore
  refine h s₀ s hopening hs hwanted fun hclean => ?_
  obtain ⟨parts, hparts, hadds⟩ := hbefore hclean
  exact ⟨parts, hparts, hadds.relax fun _ => rfl⟩

theorem Turns.bind {strict'' : Bool}
    (hp : Turns strict strict' wanted opening before language p)
    (hg : ∀ a, Turns strict' strict'' anywhere opening (language a) after (g a)) :
    Turns strict strict'' wanted opening before after (p >>= g) := by
  intro s₀ s hopening hs hwanted hbefore b u hrun
  obtain ⟨a, t, hpt, hgu⟩ := run_bind_eq_some.1 hrun
  obtain ⟨ht, hst⟩ := hp s₀ s hopening hs hwanted hbefore a t hpt
  obtain ⟨hu, htu⟩ := hg a s₀ t hopening ht trivial (fun hclean => (hst hclean).2) b u hgu
  refine ⟨hu, fun hclean => ?_⟩
  obtain ⟨hclean, hafter⟩ := htu hclean
  exact ⟨(hst hclean).1, hafter⟩

theorem Turns.bind_strict {strict'' : Bool}
    (hp : Turns strict true wanted opening before language p)
    (hg : ∀ a, Turns true strict'' anywhere opening (language a) after (g a)) :
    Turns strict strict'' wanted opening before after (p >>= g) :=
  hp.bind hg

/-- Where nothing stands behind the marker, nothing is asked of it. -/
theorem Turns.pure_nil {a : α} (h : language a []) :
    Turns strict strict' wanted opening (· = []) language (Pure.pure a) := by
  intro s₀ s _ hs _ hbefore b t hrun
  obtain ⟨rfl, rfl⟩ := run_pure_eq_some.1 hrun
  refine ⟨hs, fun hclean => ⟨hclean, [], h, ?_⟩⟩
  obtain ⟨_, rfl, ⟨-, rfl⟩ | ⟨hnil, -⟩⟩ := hbefore hclean
  · exact .refl
  · exact absurd rfl hnil

theorem Turns.pure {a : α} :
    Turns strict strict wanted opening before (fun _ => before) (pure a) := by
  intro s₀ s _ hs _ hbefore b t hrun
  obtain ⟨rfl, rfl⟩ := run_pure_eq_some.1 hrun
  exact ⟨hs, fun hclean => ⟨hclean, hbefore hclean⟩⟩

end

end Grammar

end StatementCompletion
