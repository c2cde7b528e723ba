import StatementCompletion.Proofs.Completion.Recorded
import StatementCompletion.Proofs.Repair.Visits

/-!
# The holes that mending leaves

The remedies record a hole where they look for one: among the arguments of a call, in
parentheses, in the header of a branch, a loop `while` or `do`, a switch, a handler or a lock,
and anywhere in what ends with a semicolon.  `Awaits` lists these places, with those that are
left empty altogether.  When mending comes to an end without an edit, all of them at the nodes
that it has visited are recorded, so the first hole that it reports is not behind any of them,
and where it reports none there is none.

The remedies look nowhere else.  They record no hole in the header of a loop `for` that
is closed, among the resources of a `try`, in the label of a switch, or in the name or
the parameters of a declaration.
-/

namespace StatementCompletion

open StatementCompletion.Action (recorded)

variable {offset : Nat}

/-! ## The holes below a node -/

namespace Cursor

variable {c child : Cursor}

/-- The holes in a row are those among its nodes and those below the nodes that are entered. -/
theorem holesAmong_eq_flatMap (above : List Placed) (index offset : Nat) (nodes : List Node) :
    Node.holesAmong offset nodes = (placeAll above index offset nodes).flatMap fun child =>
      if child.node.isHole then [child.offset]
      else if child.kind.isStatement || child.kind = .codeBlock then []
      else child.holes := by
  induction nodes generalizing index offset with
  | nil => rfl
  | cons node rest ih =>
    rw [Node.holesAmong, placeAll, List.flatMap_cons, ih (index + 1) (offset + node.size)]
    rfl

theorem holes_eq_flatMap (c : Cursor) :
    c.holes = c.children.flatMap fun child =>
      if child.node.isHole then [child.offset]
      else if child.kind.isStatement || child.kind = .codeBlock then []
      else child.holes := by
  rw [children, ← holesAmong_eq_flatMap, holes]
  cases c.node <;> rfl

theorem isLeaf_of_isHole {node : Node} (h : node.isHole = true) : node.isLeaf = true := by
  cases node with
  | error => rfl
  | leaf | branch => cases h

theorem kind_of_isHole {node : Node} (h : node.isHole = true) : node.kind = .error := by
  cases node with
  | error => rfl
  | leaf | branch => cases h

/-- **The holes below a node** are those that no statement and no block below it is around. -/
theorem mem_holes_iff : offset ∈ c.holes ↔ ∃ hole, Below c hole ∧ hole.node.isHole = true
    ∧ hole.offset = offset ∧ hole ≠ c
    ∧ ∀ p, Below c p → Below p hole → p ≠ c → p.kind.isStatement = false ∧ p.kind ≠ .codeBlock := by
  induction c using children_induction with
  | step c ih =>
    rw [holes_eq_flatMap, List.mem_flatMap]
    constructor
    · rintro ⟨child, hchild, hmem⟩
      have hne {hole : Cursor} (h : Below child hole) : hole ≠ c := by
        rintro rfl
        exact Below.self.not_below_child hchild h
      split_ifs at hmem with hhole hcloses
      · refine ⟨child, Below.self.child hchild, hhole, (List.mem_singleton.1 hmem).symm,
          hne .self, ?_⟩
        intro p hp hbelow hpc
        obtain ⟨other, hother, hp⟩ := hp.eq_or_child.resolve_left hpc
        -- what is on the way to the hole is below this child
        obtain rfl := (hp.trans hbelow).child_unique hother hchild .self
        rw [hp.eq_of_isLeaf (isLeaf_of_isHole hhole), Cursor.kind, kind_of_isHole hhole]
        exact ⟨rfl, by decide⟩
      · cases hmem
      · obtain ⟨hole, hbelow, hhole, hoffset, -, hway⟩ := (ih child hchild).1 hmem
        refine ⟨hole, (Below.self.child hchild).trans hbelow, hhole, hoffset, hne hbelow, ?_⟩
        intro p hp hphole hpc
        obtain ⟨other, hother, hp⟩ := hp.eq_or_child.resolve_left hpc
        obtain rfl := (hp.trans hphole).child_unique hother hchild hbelow
        by_cases hpchild : p = other
        · subst hpchild
          simpa using hcloses
        · exact hway p hp hphole hpchild
    · rintro ⟨hole, hbelow, hhole, hoffset, hne, hway⟩
      obtain ⟨child, hchild, hbelow⟩ := hbelow.eq_or_child.resolve_left hne
      refine ⟨child, hchild, ?_⟩
      have hchildNe : child ≠ c := by
        rintro rfl
        exact Below.self.not_below_child hchild .self
      obtain ⟨hstatement, hblock⟩ := hway child (Below.self.child hchild) hbelow hchildNe
      split_ifs with hchildHole hcloses
      · rw [← hoffset, hbelow.eq_of_isLeaf (isLeaf_of_isHole hchildHole)]
        exact List.mem_singleton_self _
      · simp [hstatement, hblock] at hcloses
      · refine (ih child hchild).2 ⟨hole, hbelow, hhole, hoffset, ?_, fun p hp hphole _ => ?_⟩
        · rintro rfl
          exact hchildHole hhole
        · refine hway p ((Below.self.child hchild).trans hp) hphole ?_
          rintro rfl
          exact Below.self.not_below_child hchild hp

end Cursor

/-! ## What the remedies record -/

namespace Repair

open StatementCompletion.Action (recordBelow)

variable {c : Cursor} {actions : List Action}

theorem recorded_recordBelow (c : Cursor) (rest : List Action) :
    recorded (recordBelow c ++ rest) = c.holes ++ recorded rest := by
  rw [recorded, recorded, List.filterMap_append, recordBelow, List.filterMap_map]
  exact congrArg (· ++ _) List.filterMap_some

/-- The statements that are completed with a header in parentheses, and their keywords. -/
def headed : List (Kind × Kind) :=
  [(.ifStatement, .ifKeyword), (.whileStatement, .whileKeyword), (.doWhileStatement, .whileKeyword),
   (.switchStatement, .switchKeyword)]

/-- The first part of a header that is asked for. -/
def headerPart? (keyword : Kind) (wanted : Kind → Bool) (c : Cursor) : Option Cursor :=
  (c.child? keyword).bind fun found => (headerParts c found).find? (wanted ·.kind)

/-- What is left to type behind an opening parenthesis: the holes of what it holds,
or one if it holds nothing. -/
def holesBehind (opened : Cursor) : Option Cursor → List Nat
  | some held => held.holes
  | none => [opened.stop]

/-- An offset at which something is left to type at a node, and a remedy looks for it. -/
inductive Awaits (c : Cursor) : Nat → Prop where
  | arguments {list : Cursor} : c.kind = .methodCall ∨ c.kind = .newExpression →
      c.child? .argumentList = some list → ∀ o ∈ list.holes, Awaits c o
  | parentheses : c.kind = .parenthesized → ∀ o ∈ c.holes, Awaits c o
  | header {keyword : Kind} {opened : Cursor} : (c.kind, keyword) ∈ headed →
      headerPart? keyword (· = .leftParen) c = some opened →
      ∀ o ∈ holesBehind opened (headerPart? keyword canBeCondition c), Awaits c o
  | caught {keyword opened : Cursor} :
      c.kind = .catchSection → c.child? .catchKeyword = some keyword →
      c.child? .leftParen = some opened → ∀ o ∈ holesBehind opened (c.child? .parameter), Awaits c o
  | lock {opened : Cursor} : c.kind = .synchronizedStatement → c.child? .leftParen = some opened →
      ∀ o ∈ c.holes, Awaits c o
  | ended : needsSemicolon c = true → c.parentKind? ≠ some .forStatement →
      c.parentKind? ≠ some .foreachStatement → ∀ o ∈ c.holes, Awaits c o
  | returned {keyword : Cursor} :
      keywordWithoutValue? .returnStatement .returnKeyword c = some keyword →
      yieldsNothing c = false → Awaits c keyword.stop
  | thrown {keyword : Cursor} :
      keywordWithoutValue? .throwStatement .throwKeyword c = some keyword →
      Awaits c keyword.stop

theorem recorded_closeParentheses (opened : Cursor) (held : Option Cursor) (isClosed : Bool) :
    recorded (closeParentheses opened held isClosed) = holesBehind opened held := by
  have hclosing (offset : Nat) :
      recorded (if isClosed then [] else [.insert offset [')']]) = [] := by
    cases isClosed <;> rfl
  cases held with
  | none => exact congrArg (opened.stop :: ·) (hclosing _)
  | some held =>
    refine (recorded_recordBelow held _).trans ?_
    rw [hclosing, List.append_nil]
    rfl

/-- An opened header is searched, whatever it holds. -/
theorem recorded_completeHeader {statement keyword : Kind} {opened : Cursor}
    (hkind : c.kind = statement) (hopened : headerPart? keyword (· = .leftParen) c = some opened) :
    recorded (completeHeader statement keyword c)
      = holesBehind opened (headerPart? keyword canBeCondition c) := by
  obtain ⟨found, hfound, hopened⟩ := Option.bind_eq_some_iff.1 hopened
  rw [completeHeader, if_pos hkind, headerPart?, hfound]
  dsimp only [Option.bind_some]
  rw [hopened]
  exact recorded_closeParentheses _ _ _

/-- **Where something is left to type, a remedy records it.** -/
theorem Awaits.exists_recorded (h : Awaits c offset) (d : Document) :
    ∃ (remedy : Remedy) (actions : List Action),
    remedy.actions d c = .ok actions ∧ offset ∈ recorded actions := by
  cases h with
  | arguments hkind hlist _ hmem =>
    refine ⟨.call, _, rfl, ?_⟩
    rw [closeArguments, if_pos hkind, hlist]
    dsimp only
    rw [recorded_recordBelow]
    exact List.mem_append_left _ hmem
  | parentheses hkind _ hmem =>
    refine ⟨.parentheses, _, rfl, ?_⟩
    rw [closeParenthesized, if_pos hkind, recorded_recordBelow]
    exact List.mem_append_left _ hmem
  | header hkeyword hopened _ hmem =>
    simp only [headed, List.mem_cons, Prod.mk.injEq, List.not_mem_nil, or_false] at hkeyword
    rcases hkeyword with ⟨hkind, rfl⟩ | ⟨hkind, rfl⟩ | ⟨hkind, rfl⟩ | ⟨hkind, rfl⟩
    · exact ⟨.ifCondition, _, rfl, by rwa [recorded_completeHeader hkind hopened]⟩
    · exact ⟨.whileCondition, _, rfl, by rwa [recorded_completeHeader hkind hopened]⟩
    · refine ⟨.doWhileCondition, _, rfl, ?_⟩
      obtain ⟨found, hfound, -⟩ := Option.bind_eq_some_iff.1 hopened
      rw [completeDoWhile, if_pos hkind, if_pos (Option.isSome_iff_exists.2 ⟨found, hfound⟩),
        recorded_completeHeader hkind hopened]
      exact hmem
    · exact ⟨.switchSelector, _, rfl, by rwa [recorded_completeHeader hkind hopened]⟩
  | caught hkind hkeyword hopened _ hmem =>
    refine ⟨.catchParameter, _, rfl, ?_⟩
    rw [completeCatch, if_pos hkind, hkeyword, hopened]
    dsimp only
    rwa [recorded_closeParentheses]
  | lock hkind hopened _ hmem =>
    refine ⟨.synchronizedBlock, _, rfl, ?_⟩
    rw [completeSynchronized, if_pos hkind, hopened]
    dsimp only
    rw [recorded_recordBelow]
    exact List.mem_append_left _ hmem
  | ended hneeds hfor hforeach _ hmem =>
    refine ⟨.semicolon, _, rfl, ?_⟩
    rw [addSemicolon, if_pos ⟨hneeds, hfor, hforeach⟩, recorded_recordBelow]
    exact List.mem_append_left _ hmem
  | returned hkeyword hyields =>
    refine ⟨.returnValue, _, rfl, ?_⟩
    rw [recordReturnValue, hkeyword]
    dsimp only
    rw [hyields]
    exact List.mem_singleton_self _
  | thrown hkeyword =>
    refine ⟨.thrownValue, _, rfl, ?_⟩
    rw [recordThrownValue, hkeyword]
    exact List.mem_singleton_self _

end Repair

/-! ## Mending without an edit -/

namespace Completion

open Repair (Awaits)

variable {popup : Popup} {w w' : Workspace} {original : Text} {slots : List Nat}
  {attempts : List (Cursor × Remedy)} {scope : Scope}

/-- Trials that end without an edit have recorded what each of their remedies records. -/
theorem exists_recorded_of_tryAll (hwithin : ∀ trial ∈ attempts, trial.1.Within w.editor.text)
    (hcurrent : w.tree.isCurrent w.editor.document = true)
    (h : (tryAll popup attempts).run.run w = (.ok none, w')) :
    ∃ offsets, w'.holes = w.holes.recordAll offsets ∧ ∀ trial ∈ attempts, ∀ actions,
      trial.2.actions w.editor.document trial.1 = .ok actions →
        ∀ o ∈ recorded actions, o ∈ offsets := by
  induction attempts generalizing w with
  | nil =>
    cases h
    exact ⟨[], rfl, nofun⟩
  | cons trial rest ih =>
    obtain ⟨c, remedy⟩ := trial
    obtain ⟨hc, hrest⟩ := List.forall_mem_cons.1 hwithin
    rw [tryAll, run_bind] at h
    rcases htry : (tryRemedy popup c remedy).run.run w with ⟨failure | _ | mending, w₁⟩
    · rw [htry] at h
      cases h
    · rw [htry] at h
      -- a trial that does not end leaves the text to the next one as it was
      obtain ⟨actions, hactions, hholes, htree, ⟨-, hdocument, -⟩ | ⟨-, -, -, -, hends⟩⟩ :=
        trial_cases hc hcurrent (by simp) htry
      · obtain ⟨offsets, hoffsets, hmem⟩ := ih (w := w₁) (by rwa [Editor.text, hdocument])
          (by rwa [htree, hdocument]) h
        rw [hdocument] at hmem
        refine ⟨recorded actions ++ offsets, ?_,
          List.forall_mem_cons.2 ⟨fun answer hanswer o ho => ?_,
            fun trial htrial answer hanswer o ho => ?_⟩⟩
        · rw [hoffsets, hholes, Holes.recordAll_append]
        · obtain rfl := Except.ok.inj (hactions.symm.trans hanswer)
          exact List.mem_append_left _ ho
        · exact List.mem_append_right _ (hmem trial htrial answer hanswer o ho)
      · cases hends
    · rw [htry] at h
      cases h

/-- Trials do not say that the target is complete. -/
theorem ne_complete_of_tryAll {mending : Mending}
    (h : (tryAll popup attempts).run.run w = (.ok (some mending), w')) :
    mending ≠ .complete scope := by
  induction attempts generalizing w with
  | nil => cases h
  | cons trial rest ih =>
    obtain ⟨c, remedy⟩ := trial
    rw [tryAll, run_bind] at h
    rcases htry : (tryRemedy popup c remedy).run.run w with ⟨failure | _ | ending, w₁⟩
    · rw [htry] at h
      cases h
    · rw [htry] at h
      exact ih h
    · rw [htry] at h
      cases h
      rintro rfl
      obtain ⟨-, -, -, -, hends⟩ := exists_of_tryRemedy (by simp) htry
      split at hends <;> cases hends

/-- **Mending that is complete has recorded all that is left to type.**  Whatever is awaited at a
node that it has visited, the first hole that it reports is not behind it. -/
theorem mend_records (h : Current original slots w)
    (hmend : (mend popup).run.run w = (.ok (.complete scope), w')) :
    ∃ target, Target.atCaret? w.tree w.editor.text w.editor.caret = some target
      ∧ scope = .ofTarget target
      ∧ ∀ c ∈ Target.visits target, ∀ o, Awaits c o →
        ∃ first, w'.holes.first? = some first ∧ first ≤ o := by
  rcases mend_cases hmend with ⟨hnone, -⟩ | ⟨target, htarget, htry | ⟨htry, hcomplete⟩⟩
  · cases hnone
  · exact absurd rfl (ne_complete_of_tryAll htry)
  · cases hcomplete
    refine ⟨target, htarget, rfl, fun c hc o hawaits => ?_⟩
    obtain ⟨offsets, hholes, hmem⟩ :=
      exists_recorded_of_tryAll (h.within_of_mem_trials htarget) h.isCurrent htry
    obtain ⟨remedy, actions, hactions, ho⟩ := hawaits.exists_recorded w.editor.document
    have htrial : (c, remedy) ∈ trials target :=
      List.mem_flatMap.2 ⟨c, hc, List.mem_map.2 ⟨remedy, remedy.mem_all, rfl⟩⟩
    rw [hholes]
    exact Holes.exists_first_le (.inl (hmem _ htrial actions hactions o ho))

/-- **Where nothing is recorded, nothing is left to type.**  A target that ends with a semicolon and
is not in the header of a loop then has no hole outside the statements and blocks below it. -/
theorem no_hole_of_mend (h : Current original slots w)
    (hmend : (mend popup).run.run w = (.ok (.complete scope), w'))
    (hnone : w'.holes.isEmpty = true) :
    ∃ target, Target.atCaret? w.tree w.editor.text w.editor.caret = some target
      ∧ (Repair.needsSemicolon target = true → target.parentKind? ≠ some .forStatement →
        target.parentKind? ≠ some .foreachStatement →
        ∀ hole, Cursor.Below target hole → hole.node.isHole = true → hole ≠ target →
          ∃ p, Cursor.Below target p ∧ Cursor.Below p hole ∧ p ≠ target
            ∧ (p.kind.isStatement = true ∨ p.kind = .codeBlock)) := by
  obtain ⟨target, htarget, -, hrecords⟩ := mend_records h hmend
  refine ⟨target, htarget, fun hneeds hfor hforeach hole hbelow hhole hne => ?_⟩
  by_contra hopen
  have hmem : hole.offset ∈ target.holes := by
    refine Cursor.mem_holes_iff.2 ⟨hole, hbelow, hhole, rfl, hne, fun p hp hphole hptarget => ?_⟩
    refine ⟨Bool.eq_false_iff.2 fun hstatement => ?_, fun hblock => ?_⟩
    · exact hopen ⟨p, hp, hphole, hptarget, .inl hstatement⟩
    · exact hopen ⟨p, hp, hphole, hptarget, .inr hblock⟩
  have hvisited : target ∈ Target.visits target := by
    rw [Target.visits_eq]
    simp
  obtain ⟨first, hfirst, -⟩ := hrecords target hvisited _ (.ended hneeds hfor hforeach _ hmem)
  rw [Holes.isEmpty, hfirst] at hnone
  cases hnone

end Completion

end StatementCompletion
