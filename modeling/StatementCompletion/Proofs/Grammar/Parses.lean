import StatementCompletion.Proofs.Grammar.Growth

/-!
# What a parser promises

`Runs p s Q` says that a parser has a result from a state and what holds of it; a parser that runs
past one of its bounds has none.  A rule of the grammar promises to have a result from every state
with fewer than `n` tokens ahead, and to grow the row above a floor only.  Rules differ in what they
ask for and in what more they give:

* `Parses place` asks that the floor lies below a place of the state, which is either the last node
  in front of the pending white space or the end of the row.  Only a rule that takes a token
  in before it marks or wraps anything can do with the second.  After some of its answers it
  has taken a token in for sure.
* `ParsesAt kind` asks in addition that the current token is of a kind.
* `Eats` asks for some current token, and takes it in whatever the answer is.

There is one lemma for each way to put parsers together.  A bound on the tokens ahead drops by one
where a token is taken in, which is what lets the rules contain each other.
-/

namespace StatementCompletion.Grammar

variable {α β : Type}

/-! ## Having a result -/

/-- A parser has a result from a state, and `Q` holds of it. -/
def Runs (p : Parser α) (s : State) (Q : α → State → Prop) : Prop :=
  ∃ a s', p.run s = some (a, s') ∧ Q a s'

namespace Runs

variable {s : State}

theorem pure {a : α} {Q : α → State → Prop} (h : Q a s) : Runs (Pure.pure a) s Q :=
  ⟨a, s, rfl, h⟩

theorem bind {p : Parser α} {f : α → Parser β} {Q : α → State → Prop} {R : β → State → Prop}
    (hp : Runs p s Q) (hf : ∀ a s', Q a s' → Runs (f a) s' R) : Runs (p >>= f) s R := by
  obtain ⟨a, s', hrun, hQ⟩ := hp
  obtain ⟨b, s'', hrun', hR⟩ := hf a s' hQ
  refine ⟨b, s'', ?_, hR⟩
  rw [StateT.run_bind, hrun]
  exact hrun'

theorem mono {p : Parser α} {Q R : α → State → Prop} (hp : Runs p s Q)
    (h : ∀ a s', Q a s' → R a s') : Runs p s R := by
  obtain ⟨a, s', hrun, hQ⟩ := hp
  exact ⟨a, s', hrun, h a s' hQ⟩

theorem discard {p : Parser α} {Q : PUnit → State → Prop} (hp : Runs p s fun _ s' => Q () s') :
    Runs (discard p) s Q := by
  obtain ⟨a, s', hrun, hQ⟩ := hp
  refine ⟨(), s', ?_, hQ⟩
  show (Functor.mapConst PUnit.unit p : Parser PUnit).run s = _
  rw [map_const]
  simp [hrun]

end Runs

/-! ## The promises -/

/-- A place of a state that a floor may have to lie below. -/
inductive Place where
  | solid
  | marker

/-- The number of nodes below a place. -/
def State.height (s : State) : Place → Nat
  | .solid => s.solid
  | .marker => s.marker

/-- No answer at all. -/
def never : α → Prop :=
  fun _ => False

/-- From any state with fewer than `n` tokens ahead and the floor below a place, a parser has a
result and grows the row above the floor.  After the answers in `taken` fewer tokens are ahead. -/
def Parses (place : Place) (n floor : Nat) (taken : α → Prop) (p : Parser α) : Prop :=
  ∀ s, s.ahead.length < n → floor ≤ s.height place →
    Runs p s fun a s' => Grows floor s s' ∧ (taken a → s'.ahead.length < s.ahead.length)

/-- The same from a state whose current token is of a kind. -/
def ParsesAt (kind : Kind) (place : Place) (n floor : Nat) (taken : α → Prop) (p : Parser α) :
    Prop :=
  ∀ s, s.current = kind → s.ahead.length < n → floor ≤ s.height place →
    Runs p s fun a s' => Grows floor s s' ∧ (taken a → s'.ahead.length < s.ahead.length)

/-- From any state with a current token, with fewer than `n` tokens ahead and the floor in the row,
a parser has a result, grows the row above the floor and takes a token in. -/
def Eats (n floor : Nat) (p : Parser α) : Prop :=
  ∀ s, s.token?.isSome → s.ahead.length < n → floor ≤ s.marker →
    Runs p s fun _ s' => Grows floor s s' ∧ s'.ahead.length < s.ahead.length

/-- A parser grows the row, where that may change it in front of the pending white space. -/
abbrev Builds (n floor : Nat) (p : Parser α) : Prop :=
  Parses .solid n floor never p

/-- From any state with fewer than `n` tokens ahead a parser answers and
leaves the state as it is. -/
def Reads (n : Nat) (p : Parser α) : Prop :=
  ∀ s, s.ahead.length < n → Runs p s fun _ s' => s' = s

/-- The constructs inside a rule may be parsed; the elements of an array, which are asked for at
their brace only, take it in. -/
structure Inner.Builds (n : Nat) (inner : Inner) : Prop where
  typeReference : ∀ {floor}, Grammar.Builds n floor (inner .typeReference)
  expression : ∀ {floor}, Grammar.Builds n floor (inner .expression)
  conditional : ∀ {floor}, Grammar.Builds n floor (inner .conditional)
  operation : ∀ {floor least}, Grammar.Builds n floor (inner (.operation least))
  unary : ∀ {floor}, Grammar.Builds n floor (inner .unary)
  arrayInitializer : ∀ {floor},
    ParsesAt .leftBrace .solid n floor never (inner .arrayInitializer)
  statement : ∀ {floor}, Grammar.Builds n floor (inner .statement)
  member : ∀ {floor}, Grammar.Builds n floor (inner .member)

section

variable {kind : Kind} {place : Place} {n floor : Nat} {taken : α → Prop} {p q : Parser α}

/-! ## Places -/

theorem State.height_le_marker (s : State) (place : Place) : s.height place ≤ s.marker := by
  cases place with
  | solid => exact s.solid_le_marker
  | marker => exact Nat.le_refl _

theorem Grows.floor_le_height {s t : State} (h : Grows floor s t) (hs : floor ≤ s.height place) :
    floor ≤ t.height place := by
  cases place with
  | solid => exact h.floor_le_solid hs
  | marker => exact h.floor_le_marker hs

/-- Where a token was taken in, the floor is below the pending white space. -/
theorem Grows.floor_le_solid_of_lt {s t : State} (h : Grows floor s t) (hs : floor ≤ s.marker)
    (hlt : t.ahead.length < s.ahead.length) : floor ≤ t.solid := by
  rcases h.eq_or_floor_le_solid hs with rfl | hsolid
  · exact absurd hlt (Nat.lt_irrefl _)
  · exact hsolid

/-! ## Weaker promises -/

theorem Parses.weaken (h : Parses place n floor taken p) : Parses place n floor never p :=
  fun s hn hfloor => (h s hn hfloor).mono fun _ _ hQ => ⟨hQ.1, False.elim⟩

theorem Parses.less (h : Parses place (n + 1) floor taken p) : Parses place n floor taken p :=
  fun s hn hfloor => h s (hn.trans (Nat.lt_succ_self n)) hfloor

theorem ParsesAt.less (h : ParsesAt kind place (n + 1) floor taken p) :
    ParsesAt kind place n floor taken p :=
  fun s hs hn hfloor => h s hs (hn.trans (Nat.lt_succ_self n)) hfloor

theorem Reads.less (h : Reads (n + 1) p) : Reads n p :=
  fun s hn => h s (hn.trans (Nat.lt_succ_self n))

theorem Parses.parsesAt (h : Parses place n floor taken p) : ParsesAt kind place n floor taken p :=
  fun s _ hn hfloor => h s hn hfloor

theorem Eats.parsesAt (h : Eats n floor p) (hkind : kind ≠ .endOfFile) :
    ParsesAt kind place n floor taken p := by
  intro s hs hn hfloor
  have hsome := State.isSome_of_current (hs ▸ hkind)
  exact (h s hsome hn (hfloor.trans (s.height_le_marker place))).mono
    fun _ _ hQ => ⟨hQ.1, fun _ => hQ.2⟩

end

end StatementCompletion.Grammar
