import StatementCompletion.Proofs.Grammar.Tracking
import StatementCompletion.Proofs.Tree.Operations
import StatementCompletion.Repair.Body

/-!
# Parsers that build trees whose operations bind tight

A state is `Sound` if every tree in its row is well made: its operations bind tight, and its
statements with a header begin with their keywords.  A parser that `Keeps` this leads from sound
states to sound ones.  Only a wrap can make an operation or a statement, so for every other one
nothing has to be shown about what it takes in; those that do are those of the operators and of the
statements with a header, and what stands behind their marker has to be known.

For that a parser that answers yes `Yields` one node, which joins the row behind everything that was
there.  A rule that begins with a token and ends by wrapping from where it began
yields the branch that it makes.
-/

namespace StatementCompletion

/-! ## Well-made trees -/

/-- The branches of which something is asked: operations, and statements with a header. -/
def Kind.isRuled (kind : Kind) : Bool :=
  kind.isOperation || Repair.ownsUnbracedBody kind

namespace Node

/-- A statement with a header begins with its keyword. -/
def IsHeaded (node : Node) : Prop :=
  Repair.ownsUnbracedBody node.kind = true →
    ∃ kind text nodes, node.children = .leaf kind text :: nodes ∧ Grammar.isGuardKeyword kind = true

/-- What is asked of every node. -/
structure WellMade (node : Node) : Prop where
  binds : node.BindsTight
  headed : node.IsHeaded
  construct : node.isLeaf = false → node.kind.isConstruct = true

theorem wellMade_of_not_isRuled {node : Node} (h : node.kind.isRuled = false)
    (hconstruct : node.isLeaf = false → node.kind.isConstruct = true) : node.WellMade := by
  obtain ⟨hoperation, hstatement⟩ := Bool.or_eq_false_iff.1 h
  exact ⟨bindsTight_of_not_isOperation hoperation,
    fun howns => absurd (hstatement.symm.trans howns) Bool.false_ne_true, hconstruct⟩

/-- A leaf that is no construct has nothing below it. -/
theorem every_wellMade_of_isLeaf {node : Node} (h : node.kind.isRuled = false)
    (hleaf : node.isLeaf = true) :
    node.Every WellMade := by
  refine .intro (wellMade_of_not_isRuled h (nofun ∘ hleaf.symm.trans)) fun child hchild => ?_
  cases node with
  | leaf | error => cases hchild
  | branch => cases hleaf

theorem Every.mono {holds holds' : Node → Prop} {node : Node} (h : node.Every holds)
    (himp : ∀ node, holds node → holds' node) : node.Every holds' := by
  induction h with
  | intro hnode _ ih => exact .intro (himp _ hnode) ih

end Node

namespace Grammar

variable {α β : Type} {wanted wanted' : Kind → Prop} {kind : Kind} {m : Nat} {s t u : State}

/-! ## Sound states -/

namespace State

/-- The trees in the row are well made. -/
structure Sound (s : State) : Prop where
  fair : s.Fair
  built : ∀ node ∈ s.built, node.Every Node.WellMade

/-- Of what is taken in nothing is asked. -/
theorem Fair.isRuled_of_isTaking (h : s.Fair) {token : Token} (htoken : s.token? = some token)
    {node : Token → Node} (hnode : IsTaking node) : (node token).kind.isRuled = false := by
  have hconstruct := (h.current htoken).1
  have hown : token.node.kind.isRuled = false := by
    rw [Token.kind_node]
    cases hkind : token.kind <;> first | rfl | (rw [hkind] at hconstruct; cases hconstruct)
  rcases hnode with rfl | rfl
  · exact hown
  · unfold unexpectedNode
    split
    · exact hown
    · rfl

theorem isRuled_of_isTrivia {node : Node} (h : node.kind.isTrivia = true) :
    node.kind.isRuled = false := by
  cases hkind : node.kind <;> first | rfl | (rw [hkind] at h; cases h)

namespace Sound

theorem alike (h : s.Sound) : Alike s s :=
  h.fair.alike

theorem take (h : s.Sound) {node : Token → Node} (hnode : IsTaking node) : (s.take node).Sound := by
  have hfair := h.fair.take hnode
  cases htoken : s.token? with
  | none => rwa [take_of_none htoken]
  | some token =>
    refine ⟨hfair, fun n hn => ?_⟩
    have hsplit : n ∈ (s.take node).firm ∨ n ∈ (s.take node).loose := by
      rw [← List.mem_append, firm_append_loose]
      exact List.mem_reverse.2 hn
    rcases hsplit with hfirm | hloose
    · rw [firm_take htoken, firm_append_loose] at hfirm
      rcases List.mem_append.1 hfirm with hbuilt | hnew
      · exact h.built n (List.mem_reverse.1 hbuilt)
      · rw [List.mem_singleton.1 hnew]
        exact Node.every_wellMade_of_isLeaf (h.fair.isRuled_of_isTaking htoken hnode)
          (hnode.isLeaf token)
    · obtain ⟨hleaf, htrivia, -⟩ := hfair.sane.loose n hloose
      exact Node.every_wellMade_of_isLeaf (isRuled_of_isTrivia htrivia) hleaf

theorem insertSolid (h : s.Sound) {count : Nat} {node : Node}
    (hfair : (s.insertSolid count node).Fair)
    (hnode : node.Every Node.WellMade) : (s.insertSolid count node).Sound := by
  refine ⟨hfair, fun n hn => ?_⟩
  rcases List.mem_append.1 hn with hn | hn
  · exact h.built n (List.mem_of_mem_take hn)
  · rcases List.mem_cons.1 hn with rfl | hn
    · exact hnode
    · exact h.built n (List.mem_of_mem_drop hn)

theorem markMissing (h : s.Sound) (missed : Wanted) : (s.markMissing missed).Sound := by
  have hfair := h.fair.markMissing missed
  rcases s.markMissing_eq missed with heq | heq
  · rwa [heq]
  · rw [heq] at hfair ⊢
    exact h.insertSolid hfair (Node.every_wellMade_of_isLeaf rfl rfl)

/-- The children of a branch are what stood behind the marker. -/
theorem wrap (h : s.Sound) (hconstruct : kind.isConstruct = true)
    (hmade : (Node.branch kind (s.firm.drop m)).WellMade) : (s.wrap m kind).Sound := by
  have hfair := h.fair.wrap m hconstruct
  have hfirm : ∀ node ∈ s.firm, node.Every Node.WellMade :=
    fun node hnode => h.built node (List.mem_of_mem_drop (List.mem_reverse.1 hnode))
  refine ⟨hfair, fun n hn => ?_⟩
  have hsplit : n ∈ (s.wrap m kind).firm ∨ n ∈ (s.wrap m kind).loose := by
    rw [← List.mem_append, firm_append_loose]
    exact List.mem_reverse.2 hn
  rw [h.fair.sane.firm_wrap, h.fair.sane.loose_wrap] at hsplit
  rcases hsplit with hnew | hloose
  · rcases List.mem_append.1 hnew with hbelow | hbranch
    · exact hfirm n (List.mem_of_mem_take hbelow)
    · rw [List.mem_singleton.1 hbranch]
      exact .intro hmade fun child hchild => hfirm child (List.mem_of_mem_drop hchild)
  · exact h.built n (List.mem_of_mem_take (List.mem_reverse.1 hloose))

end Sound

end State

/-! ## Keeping -/

/-- Sound states lead to sound ones where the current token is of a wanted kind. -/
def Keeps (wanted : Kind → Prop) (p : Parser α) : Prop :=
  ∀ s, s.Sound → wanted s.current → ∀ a t, p.run s = some (a, t) → t.Sound

theorem Keeps.at {p : Parser α} (h : Keeps anywhere p) : Keeps wanted p :=
  fun s hs _ => h s hs trivial

theorem Keeps.sound {p : Parser α} {a : α} (h : Keeps anywhere p) (hs : s.Sound)
    (hrun : p.run s = some (a, t)) : t.Sound :=
  h s hs trivial a t hrun

namespace Keeps

variable {p q : Parser α} {g : α → Parser β}

theorem pure (a : α) : Keeps wanted (pure a) := by
  intro s hs _ b t hrun
  rwa [(run_pure_eq_some.1 hrun).2]

theorem bind (hp : Keeps wanted p) (hg : ∀ a, Keeps anywhere (g a)) : Keeps wanted (p >>= g) := by
  intro s hs hwanted b u hrun
  obtain ⟨a, t, hpt, hgu⟩ := run_bind_eq_some.1 hrun
  exact hg a t (hp s hs hwanted a t hpt) trivial b u hgu

theorem discard (hp : Keeps wanted p) : Keeps wanted (discard p) := by
  intro s hs hwanted b t hrun
  obtain ⟨a, hpt⟩ := run_discard_eq_some.1 hrun
  exact hp s hs hwanted a t hpt

theorem ite {p : Parser Bool} {q r : Parser β} (hp : Keeps wanted p) (hq : Keeps anywhere q)
    (hr : Keeps anywhere r) : Keeps wanted (do if ← p then q else r) := by
  refine hp.bind fun a => ?_
  cases a with
  | true => exact hq
  | false => exact hr

/-! ### Looking -/

theorem reads_bind (hp : ReadsAt wanted p p) (hg : ∀ a, Keeps wanted (g a)) :
    Keeps wanted (p >>= g) := by
  intro s hs hwanted b u hrun
  obtain ⟨a, t, hpt, hgu⟩ := run_bind_eq_some.1 hrun
  obtain ⟨-, rfl, -⟩ := hp s s hs.alike hwanted trivial a t a t hpt hpt
  exact hg a t hs hwanted b u hgu

theorem reads_ite {p : Parser Bool} {q r : Parser β} (hp : ReadsAt wanted p p)
    (hq : Keeps wanted q) (hr : Keeps wanted r) : Keeps wanted (do if ← p then q else r) := by
  refine reads_bind hp fun a => ?_
  cases a with
  | true => exact hq
  | false => exact hr

theorem marker_bind {f : Nat → Parser α} (hf : ∀ m, Keeps wanted (f m)) :
    Keeps wanted (marker >>= f) :=
  fun s => hf s.marker s

theorem isOnNewLine_bind {f : Bool → Parser α} (hf : ∀ onNewLine, Keeps wanted (f onNewLine)) :
    Keeps wanted (isOnNewLine >>= f) :=
  fun s => hf s.onNewLine s

theorem isAtAny_bind {is : Kind → Bool} {f : Bool → Parser α}
    (hf : ∀ there, Keeps wanted (f there)) :
    Keeps wanted (isAtAny is >>= f) :=
  fun s => hf (is s.current) s

theorem peek_bind {f : Kind → Parser α} (hf : ∀ next, Keeps wanted (f next)) :
    Keeps wanted (peek >>= f) :=
  fun s => hf s.next.current s

theorem current_bind {f : Kind → Parser α}
    (hf : ∀ kind, wanted kind → Keeps (· = kind) (f kind)) : Keeps wanted (current >>= f) :=
  fun s hs hwanted => hf s.current hwanted s hs rfl

theorem isAt_bind {f : Bool → Parser α} (hf : ∀ there, Keeps wanted (f there)) :
    Keeps wanted (isAt kind >>= f) :=
  fun s => hf (decide (s.current = kind)) s

theorem isAt_ite (hp : Keeps (· = kind) p) (hq : Keeps wanted q) :
    Keeps wanted (do if ← isAt kind then p else q) := by
  intro s hs hwanted a t hrun
  have hrun : (if decide (s.current = kind) then p else q).run s = some (a, t) := hrun
  split at hrun
  · next hkind => exact hp s hs (of_decide_eq_true hkind) a t hrun
  · exact hq s hs hwanted a t hrun

end Keeps

/-! ## Primitives and combinators -/

section

variable {p : Parser α}

theorem take_keeps : Keeps wanted take := by
  intro s hs _ a t hrun
  obtain ⟨-, rfl⟩ := Prod.mk.inj (Option.some.inj hrun)
  exact hs.take (.inl rfl)

theorem takeUnexpected_keeps : Keeps wanted takeUnexpected := by
  intro s hs _ a t hrun
  obtain ⟨-, rfl⟩ := Prod.mk.inj (Option.some.inj hrun)
  exact hs.take (.inr rfl)

theorem missing_keeps (missed : Wanted) : Keeps wanted (missing missed) := by
  intro s hs _ a t hrun
  obtain ⟨-, rfl⟩ := Prod.mk.inj (Option.some.inj hrun)
  exact hs.markMissing missed

/-- Nothing has to be known of what becomes a branch of which nothing is asked. -/
theorem wrap_keeps (hconstruct : kind.isConstruct = true) (hkind : kind.isRuled = false) :
    Keeps wanted (wrap m kind) := by
  intro s hs _ a t hrun
  obtain ⟨-, rfl⟩ := Prod.mk.inj (Option.some.inj hrun)
  exact hs.wrap hconstruct (Node.wellMade_of_not_isRuled hkind fun _ => hconstruct)

theorem takeIf_keeps : Keeps wanted (takeIf kind) :=
  .isAt_ite (take_keeps.bind fun _ => .pure true) (.pure false)

theorem expect_keeps : Keeps wanted (expect kind) :=
  .isAt_ite (take_keeps.bind fun _ => .pure true) ((missing_keeps _).bind fun _ => .pure false)

theorem whenAt_keeps {p : Parser Unit} (hp : Keeps (· = kind) p) : Keeps wanted (whenAt kind p) :=
  .isAt_ite hp (.pure ())

theorem unlessAt_keeps {p : Parser Unit} (hp : Keeps anywhere p) :
    Keeps wanted (unlessAt kind p) := by
  refine .isAt_bind fun there => ?_
  cases there with
  | true => exact .pure ()
  | false => exact hp.at

theorem whenAtAny_keeps {is : Kind → Bool} {p : Parser Unit} (hp : Keeps anywhere p) :
    Keeps wanted (whenAtAny is p) := by
  refine .isAtAny_bind fun there => ?_
  cases there with
  | true => exact hp.at
  | false => exact .pure ()

theorem whenTaken_keeps {p : Parser Unit} (hp : Keeps anywhere p) :
    Keeps wanted (whenTaken kind p) :=
  takeIf_keeps.ite hp (.pure ())

theorem orMissing_keeps {p : Parser Bool} {missed : Wanted} (hp : Keeps wanted p) :
    Keeps wanted (orMissing p missed) := by
  refine hp.bind fun there => ?_
  cases there with
  | true => exact .pure ()
  | false => exact missing_keeps missed

theorem loopWithin_keeps {step : Parser Bool} (hstep : Keeps anywhere step) (n : Nat) :
    Keeps wanted (loopWithin n step) := by
  induction n generalizing wanted with
  | zero =>
    intro s _ _ a t hrun
    cases hrun
  | succ n ih => exact hstep.at.ite ih (.pure ())

theorem loop_keeps {step : Parser Bool} (hstep : Keeps anywhere step) : Keeps wanted (loop step) :=
  fun s => loopWithin_keeps hstep _ s

theorem separatedWithin_keeps {item : Parser Bool} (hitem : Keeps anywhere item) (n : Nat) :
    Keeps wanted (separatedWithin n kind item) := by
  induction n generalizing wanted with
  | zero =>
    intro s _ _ a t hrun
    cases hrun
  | succ n ih => exact hitem.at.ite (takeIf_keeps.ite ih (.pure true)) (.pure false)

theorem separated_keeps {item : Parser Bool} (hitem : Keeps anywhere item) :
    Keeps wanted (separated kind item) :=
  fun s => separatedWithin_keeps hitem _ s

/-- What is taken back leaves the state as it was. -/
theorem attempt_keeps {p : Parser Bool} (hretracts : RetractsAt wanted p p) (hp : Keeps wanted p) :
    Keeps wanted (attempt p) := by
  intro s hs hwanted b t hrun
  obtain ⟨a, u, hpu, rfl⟩ := run_attempt_eq_some hrun
  cases a with
  | true => exact hp s hs hwanted true u hpu
  | false =>
    have hback : u.rollBack s = s := by
      obtain ⟨-, ⟨rfl, -⟩ | hopened⟩ :=
        hretracts s s hs.alike hwanted trivial false u false u hpu hpu
      · exact State.rollBack_self _
      · exact hopened.opens.rollBack_eq hs.fair.sane
    simpa only [Bool.false_eq_true, if_false, hback] using hs

theorem progress_keeps {p : Parser Unit} (hp : Keeps wanted p) : Keeps wanted (progress p) := by
  intro s hs hwanted a u hrun
  have hrun : (p >>= fun _ => do
      if (← get).unread.length = s.unread.length then takeUnexpected).run s = some (a, u) := hrun
  obtain ⟨_, t, hpt, htu⟩ := run_bind_eq_some.1 hrun
  have ht := hp s hs hwanted () t hpt
  have htu : (if t.unread.length = s.unread.length then takeUnexpected else Pure.pure ()).run t
      = some (a, u) := htu
  split at htu
  · exact takeUnexpected_keeps.sound ht htu
  · rwa [(run_pure_eq_some.1 htu).2]

theorem bracedItem_keeps {item : Parser Unit} (hitem : Keeps anywhere item) :
    Keeps wanted (bracedItem item) := by
  refine .isAt_bind fun atEnd => .isAt_bind fun atBrace => ?_
  split
  · exact .pure false
  · exact (progress_keeps hitem.at).bind fun _ => .pure true

theorem itemsUpToBrace_keeps {item : Parser Unit} (hitem : Keeps anywhere item) :
    Keeps wanted (itemsUpToBrace item) :=
  (loop_keeps (bracedItem_keeps hitem)).bind fun _ => expect_keeps.discard

end

/-- What the steps of a loop keep, and what comes of the last one. -/
theorem loopWithin_ends {step : Parser Bool} {holds ends : State → Prop}
    (hgo : ∀ {u v}, holds u → step.run u = some (true, v) → holds v)
    (hstop : ∀ {u v}, holds u → step.run u = some (false, v) → ends v) (n : Nat) (hs : holds s)
    (hrun : (loopWithin n step).run s = some ((), t)) : ends t := by
  induction n generalizing s with
  | zero => cases hrun
  | succ n ih =>
    obtain ⟨again, u, hstep, hrest⟩ := run_bind_eq_some.1 hrun
    cases again with
    | true => exact ih (hgo hs hstep) hrest
    | false =>
      obtain ⟨-, rfl⟩ := run_pure_eq_some.1 hrest
      exact hstop hs hstep

theorem loop_ends {step : Parser Bool} {holds ends : State → Prop}
    (hgo : ∀ {u v}, holds u → step.run u = some (true, v) → holds v)
    (hstop : ∀ {u v}, holds u → step.run u = some (false, v) → ends v) (hs : holds s)
    (hrun : (loop step).run s = some ((), t)) : ends t :=
  loopWithin_ends hgo hstop _ hs hrun

/-! ## What joins the row -/

/-- One node that has a property has joined the row. -/
def State.Joined (s t : State) (holds : Node → Prop) : Prop :=
  ∃ node, holds node ∧ t.firm = s.built.reverse ++ [node]

/-- What agrees leads from states that are sane to states that are. -/
theorem Agrees.alike {p : Parser α} {a : α} {m : Nat} (h : Agrees .any m m p p) (hs : Alike s s)
    (hm : m ≤ s.marker) (hrun : p.run s = some (a, t)) : Alike t t :=
  (h s s hs trivial ⟨⟨hm, hm, rfl⟩, trivial⟩ a t a t hrun hrun).2.alike

/-- A branch of one of some kinds takes the place of what stands behind a marker. -/
def Closes (m : Nat) (is : Kind → Bool) (p : Parser α) : Prop :=
  ∀ s, Alike s s → m ≤ s.firm.length → ∀ a t, p.run s = some (a, t) →
    ∃ kind children, is kind = true ∧ t.firm = s.firm.take m ++ [.branch kind children]

namespace Closes

variable {is : Kind → Bool} {p : Parser α} {g : α → Parser β}

theorem wrap (his : is kind = true) : Closes m is (wrap m kind) := by
  intro s hs _ a t hrun
  obtain ⟨-, rfl⟩ := Prod.mk.inj (Option.some.inj hrun)
  exact ⟨kind, _, his, hs.sane.firm_wrap m kind⟩

/-- What is built above the marker does not matter. -/
theorem bind (hp : Agrees .any m m p p) (hg : ∀ a, Closes m is (g a)) : Closes m is (p >>= g) := by
  intro s hs hm b u hrun
  obtain ⟨a, t, hpt, hgu⟩ := run_bind_eq_some.1 hrun
  have hmarker : m ≤ s.marker := by
    rw [State.length_firm] at hm
    exact hm.trans s.solid_le_marker
  obtain ⟨-, ht⟩ := hp s s hs trivial ⟨⟨hmarker, hmarker, rfl⟩, trivial⟩ a t a t hpt hpt
  obtain ⟨hle, hsame⟩ := ht.evolves.take_firm hs.sane hm
  obtain ⟨kind, children, his, hu⟩ := hg a t ht.alike hle b u hgu
  exact ⟨kind, children, his, by rw [hu, hsame]⟩

theorem answer {a : β} (hp : Closes m is p) : Closes m is (p >>= fun _ => Pure.pure a) := by
  intro s hs hm b u hrun
  obtain ⟨_, t, hpt, htu⟩ := run_bind_eq_some.1 hrun
  rw [(run_pure_eq_some.1 htu).2]
  exact hp s hs hm _ t hpt

end Closes

/-- What begins with a token and ends by wrapping from there on adds the branch that it makes. -/
theorem joined_of_closes (wanted : Kind → Prop) {is : Kind → Bool} {p : Parser α} {g : α → Parser β}
    {b : β} (hs : Alike s s)
    (hwanted : wanted s.current) (hp : OpensAt wanted p p) (hg : ∀ a, Closes s.marker is (g a))
    (hrun : (p >>= g).run s = some (b, t)) :
    s.Joined t fun node => is node.kind = true ∧ node.isLeaf = false := by
  obtain ⟨a, u, hpu, hgt⟩ := run_bind_eq_some.1 hrun
  obtain ⟨-, hu⟩ := hp s s hs hwanted trivial a u a u hpu hpu
  have hlt := hu.opens.marker_lt hs.sane
  obtain ⟨kind, children, his, ht⟩ := hg a u hu.alike (Nat.le_of_lt hlt) b t hgt
  refine ⟨.branch kind children, ⟨his, rfl⟩, ?_⟩
  rw [ht, hu.opens.take_firm hs.sane]

end Grammar

end StatementCompletion
