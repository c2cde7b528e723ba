import StatementCompletion.Proofs.Grammar.Forming

/-!
# What the combinators add

One lemma for every primitive and combinator that the rules of the grammar are written with.  A rule
for a branch is put together in turns: each part adds its language to what stands behind the marker
already, and at the end the parts of the branch have to fit its kind.
-/

namespace StatementCompletion.Grammar

open Grammar.Language

variable {α β : Type} {strict strict' : Bool} {wanted : Kind → Prop} {kind : Kind} {opening : Nat}
  {before : List Kind → Prop} {language : Language α} {after : Language β} {p : Parser α}

/-! ## Languages -/

/-- A row of one language and one of another behind it. -/
def Follows (first second : List Kind → Prop) (parts : List Kind) : Prop :=
  ∃ front back, first front ∧ second back ∧ parts = front ++ back

theorem forall_follows {first second P : List Kind → Prop} :
    (∀ parts, Follows first second parts → P parts)
      ↔ ∀ front, first front → ∀ back, second back → P (front ++ back) := by
  constructor
  · exact fun h front hfront back hback => h _ ⟨front, back, hfront, hback, rfl⟩
  · rintro h _ ⟨front, back, hfront, hback, rfl⟩
    exact h front hfront back hback

theorem forall_word {kinds : List Kind} {a : α} {P : List Kind → Prop} :
    (∀ parts, word kinds a parts → P parts) ↔ P kinds :=
  forall_eq

theorem forall_one {is : Kind → Bool} {a : α} {P : List Kind → Prop} :
    (∀ parts, one is a parts → P parts) ↔ ∀ kind, is kind = true → P [kind] := by
  constructor
  · exact fun h kind hkind => h _ ⟨kind, hkind, rfl⟩
  · rintro h _ ⟨kind, hkind, rfl⟩
    exact h kind hkind

theorem forall_option {a : α} {P : List Kind → Prop} :
    (∀ parts, option language a parts → P parts)
      ↔ P [] ∧ ∀ parts, language a parts → P parts := by
  constructor
  · exact fun h => ⟨h [] (.inl rfl), fun parts hparts => h parts (.inr hparts)⟩
  · rintro ⟨hnil, h⟩ parts (rfl | hparts)
    · exact hnil
    · exact h parts hparts

@[simp] theorem plain_iff {a : α} {parts : List Kind} : plain a parts ↔ IsPlain parts :=
  Iff.rfl

@[simp] theorem isPlain_nil : IsPlain [] :=
  List.not_mem_nil

@[simp] theorem isPlain_append {front back : List Kind} :
    IsPlain (front ++ back) ↔ IsPlain front ∧ IsPlain back := by
  simp only [IsPlain, List.mem_append, not_or]

@[simp] theorem isPlain_cons {rest : List Kind} :
    IsPlain (kind :: rest) ↔ kind ≠ .enumConstant ∧ IsPlain rest := by
  simp only [IsPlain, List.mem_cons, not_or, ne_comm, ne_eq]

@[simp] theorem getLast?_cons_concat {first last : Kind} {between : List Kind} :
    (first :: (between ++ [last])).getLast? = some last := by
  rw [← List.cons_append, List.getLast?_concat]

/-! ## One part after another -/

/-- A parser that adds something, and what is made behind the marker with that in it. -/
theorem Forms.then {g : α → Parser β} (hp : Forms strict wanted language p)
    (hg : ∀ a, Turns strict strict' anywhere opening (Follows before (language a)) after (g a)) :
    Turns strict strict' wanted opening before after (p >>= g) :=
  Turns.bind hp.turns hg

/-- What is added where nothing stands behind the marker. -/
theorem Forms.fresh (hp : Forms true wanted language p) :
    Turns true strict wanted opening (· = []) language p := by
  refine (hp.turns.mono fun _ => ?_).relax fun _ => rfl
  rintro _ ⟨_, back, rfl, hback, rfl⟩
  exact hback

/-- At the end of a row without a marker. -/
theorem Forms.last {m : α → Language β} {g : α → Parser β} {last : Language β}
    (hp : Forms strict wanted language p) (hg : ∀ a, Forms strict anywhere (m a) (g a))
    (h : ∀ a front, language a front → ∀ b back, m a b back → last b (front ++ back)) :
    Forms strict wanted last (p >>= g) := by
  refine (hp.bind hg).mono ?_
  rintro b _ ⟨a, front, back, hfront, hback, rfl⟩
  exact h a front hfront b back hback

theorem Forms.ite {p : Parser Bool} {language : Language Bool} {q r : Parser β}
    {more more' last : Language β} (hp : Forms strict wanted language p)
    (hq : Forms strict anywhere more q) (hr : Forms strict anywhere more' r)
    (htrue : ∀ front, language true front → ∀ b back, more b back → last b (front ++ back))
    (hfalse : ∀ front, language false front → ∀ b back, more' b back → last b (front ++ back)) :
    Forms strict wanted last (do if ← p then q else r) := by
  refine hp.last (m := fun a => if a then more else more') (fun a => ?_) fun a => ?_
  · cases a with
    | true => exact hq
    | false => exact hr
  · cases a with
    | true => exact htrue
    | false => exact hfalse

/-- An answer after all parts. -/
theorem Forms.answer {b : β} {last : Language β} (hp : Forms strict wanted language p)
    (h : ∀ a parts, language a parts → last b parts) :
    Forms strict wanted last (p >>= fun _ => Pure.pure b) := by
  refine hp.last (fun _ => .pure_eq) ?_
  rintro a front hfront _ _ ⟨rfl, rfl⟩
  rw [List.append_nil]
  exact h a front hfront

theorem Turns.answer {b : β} {last : Language β}
    (hp : Turns strict strict' wanted opening before language p)
    (h : ∀ a parts, language a parts → last b parts) :
    Turns strict strict' wanted opening before last (p >>= fun _ => Pure.pure b) := by
  intro s₀ s hopening hs hwanted hbefore c u hrun
  obtain ⟨a, t, hpt, htu⟩ := run_bind_eq_some.1 hrun
  obtain ⟨rfl, rfl⟩ := run_pure_eq_some.1 htu
  obtain ⟨ht, hturned⟩ := hp s₀ s hopening hs hwanted hbefore a u hpt
  refine ⟨ht, fun hclean => ?_⟩
  obtain ⟨hclean, parts, hparts, hadds⟩ := hturned hclean
  exact ⟨hclean, parts, h a parts hparts, hadds⟩

/-! ## Looking -/

theorem Forms.reads_bind {g : α → Parser β} (hp : ReadsAt wanted p p)
    (hg : ∀ a, Forms strict wanted after (g a)) : Forms strict wanted after (p >>= g) := by
  intro s hs hwanted b u hrun
  obtain ⟨a, t, hpt, hgu⟩ := run_bind_eq_some.1 hrun
  obtain ⟨-, rfl, -⟩ := hp s s hs.alike hwanted trivial a t a t hpt hpt
  exact hg a t hs hwanted b u hgu

theorem Turns.reads_bind {g : α → Parser β} (hp : ReadsAt wanted p p)
    (hg : ∀ a, Turns strict strict' wanted opening before after (g a)) :
    Turns strict strict' wanted opening before after (p >>= g) := by
  intro s₀ s hopening hs hwanted hbefore b u hrun
  obtain ⟨a, t, hpt, hgu⟩ := run_bind_eq_some.1 hrun
  obtain ⟨-, rfl, -⟩ := hp s s hs.alike hwanted trivial a t a t hpt hpt
  exact hg a s₀ t hopening hs hwanted hbefore b u hgu

theorem Forms.current_bind {f : Kind → Parser α}
    (hf : ∀ kind, wanted kind → Forms strict (· = kind) language (f kind)) :
    Forms strict wanted language (current >>= f) :=
  fun s hs hwanted => hf s.current hwanted s hs rfl

theorem Turns.current_bind {f : Kind → Parser β}
    (hf : ∀ kind, wanted kind → Turns strict strict' (· = kind) opening before after (f kind)) :
    Turns strict strict' wanted opening before after (current >>= f) :=
  fun s₀ s hopening hs hwanted => hf s.current hwanted s₀ s hopening hs rfl

theorem Forms.isAt_bind {f : Bool → Parser α} (htrue : Forms strict (· = kind) language (f true))
    (hfalse : Forms strict (fun current => wanted current ∧ current ≠ kind) language (f false)) :
    Forms strict wanted language (isAt kind >>= f) := by
  intro s hs hwanted a t hrun
  have hrun : (f (decide (s.current = kind))).run s = some (a, t) := hrun
  by_cases hkind : s.current = kind
  · rw [decide_eq_true hkind] at hrun
    exact htrue s hs hkind a t hrun
  · rw [decide_eq_false hkind] at hrun
    exact hfalse s hs ⟨hwanted, hkind⟩ a t hrun

theorem Turns.isAt_bind {f : Bool → Parser β}
    (htrue : Turns strict strict' (· = kind) opening before after (f true))
    (hfalse : Turns strict strict' wanted opening before after (f false)) :
    Turns strict strict' wanted opening before after (isAt kind >>= f) := by
  intro s₀ s hopening hs hwanted hbefore a t hrun
  have hrun : (f (decide (s.current = kind))).run s = some (a, t) := hrun
  by_cases hkind : s.current = kind
  · rw [decide_eq_true hkind] at hrun
    exact htrue s₀ s hopening hs hkind hbefore a t hrun
  · rw [decide_eq_false hkind] at hrun
    exact hfalse s₀ s hopening hs hwanted hbefore a t hrun

theorem Forms.isAt_ite {p q : Parser α} (hp : Forms strict (· = kind) language p)
    (hq : Forms strict wanted language q) :
    Forms strict wanted language (do if ← isAt kind then p else q) :=
  .isAt_bind hp (hq.narrow fun _ => And.left)

theorem Turns.isAt_ite {p q : Parser β}
    (hp : Turns strict strict' (· = kind) opening before after p)
    (hq : Turns strict strict' wanted opening before after q) :
    Turns strict strict' wanted opening before after (do if ← isAt kind then p else q) :=
  .isAt_bind hp hq

theorem Forms.any_marker_bind {f : Nat → Parser α}
    (hf : ∀ position, Forms strict wanted language (f position)) :
    Forms strict wanted language (marker >>= f) :=
  fun s => hf s.marker s

theorem Forms.any_isOnNewLine_bind {f : Bool → Parser α}
    (hf : ∀ onNewLine, Forms strict wanted language (f onNewLine)) :
    Forms strict wanted language (isOnNewLine >>= f) :=
  fun s => hf s.onNewLine s

theorem Forms.any_isAtAny_bind {is : Kind → Bool} {f : Bool → Parser α}
    (hf : ∀ there, Forms strict wanted language (f there)) :
    Forms strict wanted language (isAtAny is >>= f) :=
  fun s => hf (is s.current) s

/-- Something stands behind the marker where it is not the end of the row. -/
theorem Turns.built_ite {q r : Parser β}
    (hq : Turns strict strict' wanted opening (fun parts => before parts ∧ parts ≠ []) after q)
    (hr : Turns strict strict' wanted opening (fun parts => before parts ∧ parts = []) after r) :
    Turns strict strict' wanted opening before after
      (do if (← marker) ≠ opening then q else r) := by
  intro s₀ s hopening hs hwanted hbefore a t hrun
  have hrun : (if s.marker ≠ opening then q else r).run s = some (a, t) := hrun
  split at hrun
  · next hmarker =>
    refine hq s₀ s hopening hs hwanted (fun hclean => ?_) a t hrun
    obtain ⟨parts, hparts, hadds⟩ := hbefore hclean
    refine ⟨parts, ⟨hparts, ?_⟩, hadds⟩
    rintro rfl
    rcases hadds with ⟨-, rfl⟩ | ⟨hnil, -⟩
    · exact hmarker hopening
    · exact hnil rfl
  · next hmarker =>
    refine hr s₀ s hopening hs hwanted (fun hclean => ?_) a t hrun
    obtain ⟨parts, hparts, hadds⟩ := hbefore hclean
    refine ⟨parts, ⟨hparts, ?_⟩, hadds⟩
    by_contra hnil
    exact hmarker (hopening ▸ (hadds.marker_lt hs.sane hnil).ne')

/-- Either of two kinds. -/
theorem Forms.isAtEither_ite {kind' : Kind} {p q : Parser α}
    (hp : Forms strict (· = kind) language p) (hp' : Forms strict (· = kind') language p)
    (hq : Forms strict wanted language q) :
    Forms strict wanted language (do if (← isAt kind) || (← isAt kind') then p else q) := by
  refine .isAt_bind ?_ ?_
  · exact .reads_bind (isAt_reads_in_step kind') fun _ => hp
  · exact .isAt_bind hp' (hq.narrow fun _ h => h.1.1)

theorem Turns.isAtEither_ite {kind' : Kind} {p q : Parser β}
    (hp : Turns strict strict' (· = kind) opening before after p)
    (hp' : Turns strict strict' (· = kind') opening before after p)
    (hq : Turns strict strict' wanted opening before after q) :
    Turns strict strict' wanted opening before after
      (do if (← isAt kind) || (← isAt kind') then p else q) := by
  refine .isAt_bind ?_ ?_
  · exact .reads_bind (isAt_reads_in_step kind') fun _ => hp
  · exact .isAt_bind hp' hq

/-- A kind and the kind behind it. -/
theorem Forms.isAtBefore_ite {behind : Kind} {p q : Parser α}
    (hp : Forms strict (· = kind) language p) (hq : Forms strict anywhere language q) :
    Forms strict wanted language (do if (← isAt kind) && (← peek) = behind then p else q) := by
  refine .isAt_bind ?_ (.reads_bind peek_reads_in_step fun _ => hq.at)
  refine .reads_bind peek_reads_in_step fun next => ?_
  by_cases hnext : next = behind
  · simpa [hnext] using hp
  · simpa [hnext] using hq.at

theorem Turns.isAtBefore_ite {behind : Kind} {p q : Parser β}
    (hp : Turns strict strict' (· = kind) opening before after p)
    (hq : Turns strict strict' anywhere opening before after q) :
    Turns strict strict' wanted opening before after
      (do if (← isAt kind) && (← peek) = behind then p else q) := by
  refine .isAt_bind ?_ (.reads_bind peek_reads_in_step fun _ => hq.at)
  refine .reads_bind peek_reads_in_step fun next => ?_
  by_cases hnext : next = behind
  · simpa [hnext] using hp
  · simpa [hnext] using hq.at

theorem Forms.isAtAny_ite {is : Kind → Bool} {p q : Parser α}
    (hp : Forms strict (fun current => is current = true) language p)
    (hq : Forms strict wanted language q) :
    Forms strict wanted language (do if ← isAtAny is then p else q) := by
  intro s hs hwanted a t hrun
  have hrun : (if is s.current then p else q).run s = some (a, t) := hrun
  split at hrun
  · next his => exact hp s hs his a t hrun
  · exact hq s hs hwanted a t hrun

theorem Turns.isAtAny_ite {is : Kind → Bool} {p q : Parser β}
    (hp : Turns strict strict' (is · = true) opening before after p)
    (hq : Turns strict strict' wanted opening before after q) :
    Turns strict strict' wanted opening before after (do if ← isAtAny is then p else q) := by
  intro s₀ s hopening hs hwanted hbefore a t hrun
  have hrun : (if is s.current then p else q).run s = some (a, t) := hrun
  split at hrun
  · next his => exact hp s₀ s hopening hs his hbefore a t hrun
  · exact hq s₀ s hopening hs hwanted hbefore a t hrun

/-! ## Changing the row -/

theorem take_forms (hwanted : ¬ wanted .endOfFile) :
    Forms strict wanted (fun _ parts => ∃ kind, wanted kind ∧ kind.isConstruct = false
      ∧ parts = [kind]) take := by
  intro s hs hcurrent a t hrun
  obtain ⟨rfl, rfl⟩ := Prod.mk.inj (Option.some.inj hrun)
  refine ⟨hs.take (.inl rfl), fun hclean => ?_⟩
  cases htoken : s.token? with
  | none =>
    rw [State.current, htoken] at hcurrent
    exact absurd hcurrent hwanted
  | some token =>
    obtain ⟨hclean, hnode⟩ := hclean.of_take htoken
    rw [State.current, htoken] at hcurrent
    exact ⟨hclean, [token.kind], ⟨token.kind, hcurrent, (hs.current htoken).1, rfl⟩,
      .take hs htoken hnode⟩

theorem take_forms_word (hkind : kind ≠ .endOfFile) :
    Forms strict (· = kind) (word [kind]) take := by
  refine (take_forms hkind.symm).mono ?_
  rintro a parts ⟨_, rfl, -, rfl⟩
  rfl

/-- Whatever the current token is, it is no enum constant. -/
theorem take_forms_plain : Forms strict wanted plain take := by
  intro s hs _ a t hrun
  obtain rfl : s.take Token.node = t := (Prod.mk.inj (Option.some.inj hrun)).2
  refine ⟨hs.take (.inl rfl), fun hclean => ?_⟩
  cases htoken : s.token? with
  | none =>
    rw [State.take_of_none htoken] at hclean ⊢
    exact ⟨hclean, [], isPlain_nil, .refl⟩
  | some token =>
    obtain ⟨hclean, hnode⟩ := hclean.of_take htoken
    refine ⟨hclean, [token.kind], isPlain_cons.2 ⟨?_, isPlain_nil⟩, .take hs htoken hnode⟩
    intro hkind
    have hconstruct := (hs.current htoken).1
    rw [hkind] at hconstruct
    cases hconstruct

/-- What is missing leaves a problem. -/
theorem missing_forms (missed : Wanted) : Forms strict wanted none (missing missed) := by
  intro s hs _ a t hrun
  obtain ⟨rfl, rfl⟩ := Prod.mk.inj (Option.some.inj hrun)
  exact ⟨hs.markMissing missed, fun hclean => absurd hclean (hs.not_isClean_markMissing missed)⟩

/-- What is missing leaves a problem behind a marker, too. -/
theorem missing_turns (missed : Wanted) {after : Language Unit} :
    Turns strict strict wanted opening before after (missing missed) := by
  refine (missing_forms missed).turns.mono ?_
  rintro _ _ ⟨_, _, -, hfalse, -⟩
  exact hfalse.elim

theorem problems_unexpectedNode (token : Token) : (State.unexpectedNode token).problems ≠ [] := by
  unfold State.unexpectedNode
  split
  · next hkind => exact State.Fair.problems_node (by rw [Token.kind_node, hkind])
  · exact nofun

theorem takeUnexpected_forms (hwanted : ¬ wanted .endOfFile) :
    Forms strict wanted none takeUnexpected := by
  intro s hs hcurrent a t hrun
  obtain ⟨rfl, rfl⟩ := Prod.mk.inj (Option.some.inj hrun)
  refine ⟨hs.take (.inr rfl), fun hclean => ?_⟩
  cases htoken : s.token? with
  | none =>
    rw [State.current, htoken] at hcurrent
    exact absurd hcurrent hwanted
  | some token => exact absurd (hclean.of_take htoken).2 (problems_unexpectedNode token)

/-- Kinds of branches of which nothing is asked but that their parts fit. -/
def Kind.isPlain (kind : Kind) : Bool :=
  kind.isConstruct && kind ≠ .expressionStatement

/-- What stands behind the marker becomes a branch if its kinds fit.  The branch of a counting loop
alone does without the semicolons of the expression statements in it. -/
theorem wrap_ended_turns (hkind : kind.isConstruct = true)
    (hstrict : kind = .forStatement ∨ strict = true)
    (h : ∀ parts, before parts → parts ≠ [] ∧ kind.Admits parts ∧
      (strict' = true → kind = .expressionStatement → parts.getLast? = some .semicolon)) :
    Turns strict strict' wanted opening before (word [kind]) (wrap opening kind) := by
  intro s₀ s hopening hs _ hbefore a t hrun
  obtain ⟨rfl, rfl⟩ := Prod.mk.inj (Option.some.inj hrun)
  refine ⟨hs.wrap _ hkind, fun hclean => ?_⟩
  obtain ⟨parts, hparts, hs₀⟩ := hbefore hclean.of_wrap
  obtain ⟨hnil, hadmits, hended⟩ := h parts hparts
  refine ⟨hclean.of_wrap, [kind], rfl, ?_⟩
  rw [← hopening]
  exact hs₀.wrap hs.sane hnil hkind hadmits hstrict hended

theorem wrap_turns (hkind : Kind.isPlain kind = true)
    (h : ∀ parts, before parts → parts ≠ [] ∧ kind.Admits parts) :
    Turns true strict' wanted opening before (word [kind]) (wrap opening kind) := by
  rw [Kind.isPlain, Bool.and_eq_true, decide_eq_true_eq] at hkind
  refine wrap_ended_turns hkind.1 (.inr rfl) fun parts hparts => ?_
  obtain ⟨hnil, hadmits⟩ := h parts hparts
  exact ⟨hnil, hadmits, fun _ hexpression => absurd hexpression hkind.2⟩

/-! ## Optional parts -/

theorem takeIf_forms (hkind : kind ≠ .endOfFile) :
    Forms strict wanted (found (word [kind])) (takeIf kind) := by
  exact .isAt_ite ((take_forms_word hkind).answer fun _ _ => id) (.pure rfl)

theorem expect_forms (hkind : kind ≠ .endOfFile) :
    Forms strict wanted (fun answer parts => answer = true ∧ parts = [kind]) (expect kind) := by
  refine .isAt_ite ((take_forms_word hkind).answer fun _ _ h => ⟨rfl, h⟩) ?_
  exact (missing_forms _).answer fun _ _ => False.elim

theorem discard_expect_forms (hkind : kind ≠ .endOfFile) :
    Forms strict wanted (word [kind]) (discard (expect kind)) := by
  refine (expect_forms hkind).discard.mono ?_
  rintro _ _ ⟨_, -, rfl⟩
  rfl

theorem whenAt_forms {p : Parser Unit} {language : Language Unit}
    (hp : Forms strict (· = kind) language p) :
    Forms strict wanted (option language) (whenAt kind p) :=
  .isAt_ite (hp.mono fun _ _ => .inr) (.pure (.inl rfl))

theorem unlessAt_forms {p : Parser Unit} {language : Language Unit}
    (hp : Forms strict anywhere language p) :
    Forms strict wanted (option language) (unlessAt kind p) :=
  .isAt_bind (.pure (.inl rfl)) (hp.at.mono fun _ _ => .inr)

theorem whenAtAny_forms {is : Kind → Bool} {p : Parser Unit} {language : Language Unit}
    (hp : Forms strict anywhere language p) :
    Forms strict wanted (option language) (whenAtAny is p) :=
  .isAtAny_ite (hp.at.mono fun _ _ => .inr) (.pure (.inl rfl))

theorem whenTaken_forms {p : Parser Unit} {language : Language Unit} (hkind : kind ≠ .endOfFile)
    (hp : Forms strict anywhere language p) :
    Forms strict wanted (option fun _ => Follows (· = [kind]) (language ()))
      (whenTaken kind p) := by
  refine (takeIf_forms hkind).ite hp .pure_nil ?_ ?_
  · exact fun front hfront _ back hback => .inr ⟨front, back, hfront, hback, rfl⟩
  · rintro front rfl _ back rfl
    exact .inl rfl

theorem orMissing_forms {p : Parser Bool} {language : Language Unit} {missed : Wanted}
    (hp : Forms strict wanted (found language) p) :
    Forms strict wanted language (orMissing p missed) := by
  refine hp.last (m := fun a => if a then word [] else none) (fun a => ?_) fun a => ?_
  · cases a with
    | true => exact .pure rfl
    | false => exact missing_forms missed
  · cases a with
    | true =>
      rintro front hfront _ back rfl
      rwa [List.append_nil]
    | false => exact fun front _ _ back hback => hback.elim

/-! ## Loops -/

theorem loopWithin_forms {step : Parser Bool} {language : Language Bool} {rows : List Kind → Prop}
    (hstep : Forms strict anywhere language step)
    (htrue : ∀ front, language true front → ∀ back, rows back → rows (front ++ back))
    (hfalse : ∀ parts, language false parts → rows parts) (n : Nat) :
    Forms strict wanted (fun _ => rows) (loopWithin n step) := by
  induction n generalizing wanted with
  | zero =>
    intro s _ _ a t hrun
    cases hrun
  | succ n ih =>
    refine hstep.at.ite ih .pure_nil ?_ ?_
    · exact fun front hfront _ back hback => htrue front hfront back hback
    · rintro front hfront _ back rfl
      rw [List.append_nil]
      exact hfalse front hfront

/-- A loop adds what its steps add one behind the other. -/
theorem loop_forms_rows {step : Parser Bool} {language : Language Bool} {rows : List Kind → Prop}
    (hstep : Forms strict anywhere language step)
    (htrue : ∀ front, language true front → ∀ back, rows back → rows (front ++ back))
    (hfalse : ∀ parts, language false parts → rows parts) :
    Forms strict wanted (fun _ => rows) (loop step) :=
  fun s => loopWithin_forms hstep htrue hfalse _ s

/-- A loop adds rows without enum constants if its step does. -/
theorem loop_forms {step : Parser Bool} (hstep : Forms strict anywhere plain step) :
    Forms strict wanted plain (loop step) :=
  loop_forms_rows hstep (fun _ hfront _ hback => isPlain_append.2 ⟨hfront, hback⟩) fun _ => id

theorem Turns.loopWithin {step : Parser Bool}
    (hstep : Turns strict strict anywhere opening before (fun _ => before) step) (n : Nat) :
    Turns strict strict wanted opening before (fun _ => before) (loopWithin n step) := by
  induction n generalizing wanted with
  | zero =>
    intro _ s _ _ _ _ a t hrun
    cases hrun
  | succ n ih =>
    refine hstep.at.bind fun again => ?_
    cases again with
    | true => exact ih
    | false => exact .pure

/-- What stands behind the marker stays as it is described if the step of a loop keeps it so. -/
theorem Turns.loop {step : Parser Bool}
    (hstep : Turns strict strict anywhere opening before (fun _ => before) step) :
    Turns strict strict wanted opening before (fun _ => before) (loop step) :=
  fun s₀ s => hstep.loopWithin _ s₀ s

theorem separatedWithin_forms {item : Parser Bool} (hkind : kind ≠ .endOfFile)
    (hcomma : kind ≠ .enumConstant) (hitem : Forms strict anywhere plain item) (n : Nat) :
    Forms strict wanted plain (separatedWithin n kind item) := by
  induction n generalizing wanted with
  | zero =>
    intro s _ _ a t hrun
    cases hrun
  | succ n ih =>
    have hrest : Forms strict anywhere plain (do
        if ← takeIf kind then separatedWithin n kind item else return true) := by
      refine (takeIf_forms hkind).ite ih .pure_nil ?_ ?_
      · rintro _ rfl _ back hback
        exact isPlain_append.2 ⟨by simpa using hcomma, hback⟩
      · rintro _ rfl _ _ rfl
        exact isPlain_nil
    refine hitem.at.ite hrest .pure_nil ?_ ?_
    · exact fun front hfront _ back hback => isPlain_append.2 ⟨hfront, hback⟩
    · rintro front hfront _ back rfl
      rwa [List.append_nil]

theorem separated_forms {item : Parser Bool} (hkind : kind ≠ .endOfFile)
    (hcomma : kind ≠ .enumConstant) (hitem : Forms strict anywhere plain item) :
    Forms strict wanted plain (separated kind item) :=
  fun s => separatedWithin_forms hkind hcomma hitem _ s

/-- What is taken back adds nothing. -/
theorem attempt_forms {p : Parser Bool} (hp : RetractsAt wanted p p)
    (hforms : Forms strict wanted plain p) : Forms strict wanted plain (attempt p) := by
  intro s hs hwanted b t hrun
  obtain ⟨a, u, hpu, rfl⟩ := run_attempt_eq_some hrun
  cases a with
  | true =>
    obtain ⟨hu, hsu⟩ := hforms s hs hwanted true u hpu
    exact ⟨hu, hsu⟩
  | false =>
    have hback : u.rollBack s = s := by
      obtain ⟨-, ⟨rfl, -⟩ | hopened⟩ := hp s s hs.alike hwanted trivial false u false u hpu hpu
      · exact State.rollBack_self _
      · exact hopened.opens.rollBack_eq hs.sane
    simp only [Bool.false_eq_true, if_false, hback]
    exact ⟨hs, fun hclean => ⟨hclean, [], List.not_mem_nil, .refl⟩⟩

/-! ## Progress -/

/-- Something is added where the row stays clean. -/
theorem progress_forms {p : Parser Unit} {language : Language Unit}
    (hp : Forms strict (· ≠ .endOfFile) language p) :
    Forms strict (· ≠ .endOfFile) (fun _ parts => language () parts ∧ parts ≠ []) (progress p) := by
  intro s hs hcurrent a u hrun
  have hrun : (p >>= fun _ => do
      if (← get).unread.length = s.unread.length then takeUnexpected).run s = some (a, u) := hrun
  obtain ⟨_, t, hpt, htu⟩ := run_bind_eq_some.1 hrun
  have htu : (if t.unread.length = s.unread.length then takeUnexpected else pure ()).run t
      = some (a, u) := htu
  obtain ⟨ht, hst⟩ := hp s hs hcurrent () t hpt
  have hunexpected (htoken : t.token?.isSome = true) :
      ¬ (t.take State.unexpectedNode).IsClean := by
    obtain ⟨token, htoken⟩ := Option.isSome_iff_exists.1 htoken
    exact fun hclean => problems_unexpectedNode token (hclean.of_take htoken).2
  -- if nothing was added, the current token of the state is taken in as unexpected
  have hnonempty (hunread : t.unread.length ≠ s.unread.length ∨ t.token? = Option.none)
      {parts : List Kind} (hadds : s.Adds strict t parts) : parts ≠ [] := by
    rintro rfl
    rcases hadds with ⟨-, rfl⟩ | ⟨hnil, -⟩
    · rcases hunread with hunread | hend
      · exact hunread rfl
      · rw [State.current, hend] at hcurrent
        exact hcurrent rfl
    · exact hnil rfl
  have hsame (htu : t = u) (hunread : t.unread.length ≠ s.unread.length ∨ t.token? = Option.none) :
      u.Fair ∧ (u.IsClean → s.IsClean ∧ ∃ parts, (language () parts ∧ parts ≠ [])
        ∧ s.Adds strict u parts) := by
    subst htu
    refine ⟨ht, fun hclean => ?_⟩
    obtain ⟨hclean, parts, hparts, hadds⟩ := hst hclean
    exact ⟨hclean, parts, ⟨hparts, hnonempty hunread hadds⟩, hadds⟩
  split at htu
  · obtain ⟨-, rfl⟩ := Prod.mk.inj (Option.some.inj htu)
    cases htoken : t.token? with
    | none => exact hsame (State.take_of_none htoken _).symm (.inr htoken)
    | some token =>
      have hdirty := hunexpected (by rw [htoken]; rfl)
      exact ⟨ht.take (.inr rfl), fun hclean => absurd hclean hdirty⟩
  · next hunread =>
    obtain ⟨-, rfl⟩ := run_pure_eq_some.1 htu
    exact hsame rfl (.inl hunread)

/-- An item that is no closing brace, and not at the end. -/
theorem bracedItem_forms {item : Parser Unit} {language : Language Unit}
    (hitem : Forms strict (· ≠ .endOfFile) language item) :
    Forms strict wanted (found fun _ parts => language () parts ∧ parts ≠ [])
      (bracedItem item) := by
  have hprogress : Forms strict (· ≠ .endOfFile)
      (found fun _ parts => language () parts ∧ parts ≠ []) (do progress item; return true) :=
    (progress_forms hitem).answer fun _ _ => id
  refine .isAt_bind ?_ ?_
  · exact .reads_bind (isAt_reads_in_step _) fun _ => .pure rfl
  · exact .isAt_bind (.pure rfl) (hprogress.narrow fun _ h => h.1.2)

theorem itemsUpToBrace_forms {item : Parser Unit}
    (hitem : Forms strict (· ≠ .endOfFile) plain item) :
    Forms strict wanted (fun _ => Follows IsPlain (· = [.rightBrace])) (itemsUpToBrace item) := by
  have hstep : Forms strict anywhere plain (bracedItem item) := by
    refine (bracedItem_forms hitem).mono fun found parts hparts => ?_
    cases found with
    | true => exact hparts.1
    | false => exact hparts ▸ isPlain_nil
  refine (loop_forms hstep).last (fun _ => discard_expect_forms (by decide)) ?_
  exact fun _ front hfront _ back hback => ⟨front, back, hfront, hback, rfl⟩

/-- Where the braces end there are no items any more. -/
theorem itemsUpToBrace_forms_end {item : Parser Unit} :
    Forms strict (fun kind => kind = .endOfFile ∨ kind = .rightBrace) (word [.rightBrace])
      (itemsUpToBrace item) := by
  intro s hs hend a t hrun
  have hitem : (bracedItem item).run s = some (false, s) := by
    show StateT.run (if (s.current = .endOfFile : Bool) || (s.current = .rightBrace : Bool) then
      (pure false : Parser Bool) else do progress item; return true) s = _
    rw [if_pos (by simpa using hend)]
    rfl
  have hloop : (loop (bracedItem item)).run s = some ((), s) := by
    show StateT.run (bracedItem item >>= fun again => if again then _ else pure ()) s = _
    rw [StateT.run_bind, hitem]
    rfl
  have hrun : (loop (bracedItem item) >>= fun _ => Functor.discard (expect .rightBrace)).run s
      = some (a, t) := hrun
  rw [StateT.run_bind, hloop] at hrun
  have hexpect : Forms strict anywhere (word [.rightBrace]) (discard (expect .rightBrace)) :=
    discard_expect_forms (by decide)
  exact hexpect s hs trivial a t hrun

/-! ## Rows without enum constants -/

theorem found_isPlain {language : Language Unit} (h : ∀ parts, language () parts → IsPlain parts)
    (answer : Bool) (parts : List Kind) (hparts : found language answer parts) : IsPlain parts := by
  cases answer with
  | true => exact h parts hparts
  | false => exact hparts ▸ isPlain_nil

/-- One parser after another, neither of which adds enum constants. -/
theorem Forms.plain_bind {g : α → Parser β}
    (hp : Forms strict wanted plain p) (hg : ∀ a, Forms strict anywhere plain (g a)) :
    Forms strict wanted plain (p >>= g) :=
  hp.last hg fun _ _ hfront _ _ hback => isPlain_append.2 ⟨hfront, hback⟩

theorem Forms.plain_ite {p : Parser Bool} {q r : Parser β}
    (hp : Forms strict wanted plain p) (hq : Forms strict anywhere plain q)
    (hr : Forms strict anywhere plain r) :
    Forms strict wanted plain (do if ← p then q else r) := by
  refine hp.plain_bind fun a => ?_
  cases a with
  | true => exact hq
  | false => exact hr

theorem Forms.plain_pure {b : β} : Forms strict wanted plain (Pure.pure b) :=
  .pure isPlain_nil

theorem takeIf_forms_plain (hkind : kind ≠ .endOfFile)
    (hconstant : kind ≠ .enumConstant) : Forms strict wanted plain (takeIf kind) :=
  (takeIf_forms hkind).mono
    (found_isPlain (forall_word.2 (isPlain_cons.2 ⟨hconstant, isPlain_nil⟩)))

theorem Forms.plain_discard (h : Forms strict wanted plain p) :
    Forms strict wanted plain (Functor.discard p) :=
  h.discard.mono fun _ _ ⟨_, hparts⟩ => hparts

theorem orMissing_forms_plain {p : Parser Bool} {missed : Wanted}
    (hp : Forms strict wanted plain p) : Forms strict wanted plain (orMissing p missed) := by
  refine hp.plain_bind fun a => ?_
  cases a with
  | true => exact .plain_pure
  | false => exact (missing_forms missed).mono fun _ _ => False.elim

theorem option_isPlain {language : Language α}
    (h : ∀ a parts, language a parts → IsPlain parts) (a : α) :
    ∀ parts, option language a parts → IsPlain parts :=
  forall_option.2 ⟨isPlain_nil, h a⟩

/-- Where a phrase begins, something is found. -/
theorem Forms.discard_phrase {starts : Kind → Bool} {language : Language Unit} {p : Parser Bool}
    (hp : Forms strict anywhere (found language) p) (hphrase : Phrase starts p) :
    Forms strict (starts · = true) language (Functor.discard p) := by
  intro s hs hstarts b t hrun
  obtain ⟨a, hpt⟩ := run_discard_eq_some.1 hrun
  obtain ⟨ht, hst⟩ := hp s hs trivial a t hpt
  rw [hphrase.yes hstarts hpt] at hst
  exact ⟨ht, hst⟩

/-- A row of parts of which only that there are no enum constants is asked. -/
theorem admits_of_isPlain {kind : Kind} {parts : List Kind} (hfits : kind.Fits parts)
    (h : IsPlain parts) : kind.Admits parts :=
  ⟨hfits, fun _ => h⟩

end StatementCompletion.Grammar
