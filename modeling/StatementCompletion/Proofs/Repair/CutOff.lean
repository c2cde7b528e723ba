import StatementCompletion.Proofs.Grammar.Truncation.Texts
import StatementCompletion.Proofs.Repair.Target
import StatementCompletion.Proofs.Repair.Unended

/-!
# The target where the end of a statement is lost

In a text that has lost the end of its one statement, this statement is the target wherever the
caret is behind some ink, and nothing but the end is to be mended.
-/

namespace StatementCompletion

open Node (Unended)

namespace IsCutOff

variable {text : Text} {n : Nat} {x y statement : Node}

open Repair (IsPlain IsUnended)

/-- The statement has lost its end and nothing else. -/
theorem isUnended (h : IsCutOff text n)
    (htree : Node.ofText .codeFragment text = .branch .file [statement])
    (hunended : Unended x y statement) : IsUnended x y (.onlyStatement statement) where
  unended := hunended
  tidy := by
    refine Node.tidy_children_ofText .codeFragment text _ ?_
    rw [htree]
    exact List.mem_cons_self
  leaves c hc hown := by
    refine Repair.isOpenLiteral_of_below .codeFragment _ h.literals ?_ hown
    rw [htree]
    exact (Cursor.onlyStatement_below statement).trans hc
  parent := rfl

/-- The first edit puts back a parenthesis or, where none is lost, the semicolon. -/
theorem firstInserts {d : Document} (h : IsCutOff text n) {tree : Snapshot}
    (hroot : tree.root = Node.ofText .codeFragment text) {caret : Nat}
    (hcaret : text.IsBehindInk caret) :
    ∃ target, Target.atCaret? tree text caret = some target
      ∧ Repair.FirstInserts d text.size (if n = 0 then [';']
        else [')']) (Completion.trials target) := by
  obtain ⟨x, y, statement, htree, hunended, hsize⟩ := h.exists_tree
  have hisUnended := h.isUnended htree hunended
  have htorn := hisUnended.torn.1
  have hstop : text.size = (Cursor.onlyStatement statement).stop := by
    rw [Cursor.stop_onlyStatement, ← Node.text_ofText .codeFragment text, htree, Node.size_text]
    rfl
  refine ⟨_,
    hisUnended.isPlain.isOnly.atCaret?_eq h.line (fun token htoken hbrace => ?_)
      hroot htree hcaret, ?_⟩
  · refine h.getLast?_token_ne htoken ?_
    rw [hbrace]
    rfl
  · rw [hstop]
    split
    · next hzero =>
      rw [hzero, Nat.add_zero] at hsize
      exact hisUnended.firstInserts_semicolon (htorn.eq_of_size_eq hsize.symm)
    · next hpos =>
      refine hisUnended.firstInserts_closing ?_
      rintro rfl
      omega

/-- The statement itself has its end. -/
theorem exists_statement (h : IsCutOff text 0) : ∃ statement,
    Node.ofText .codeFragment (text ++ [';']) = .branch .file [statement]
      ∧ IsPlain (.onlyStatement statement) ∧ (Cursor.onlyStatement statement).IsWhole
      ∧ ∀ child ∈ statement.children, child.Simple := by
  obtain ⟨children, htree, hsimple⟩ := h.exists_simple
  have hproblems := h.whole.problems
  rw [List.replicate_zero, List.append_nil] at htree hproblems
  have hwhole := Node.whole_ofText .codeFragment _ hproblems
  rw [htree] at hwhole
  have hstatement := (Cursor.IsWhole.root hwhole nofun).below
    (Cursor.onlyStatement_below (.branch .expressionStatement children))
  refine ⟨_, htree, ⟨rfl, rfl, rfl, fun c hc => ?_, fun c hc hown => ?_⟩, hstatement, hsimple⟩
  · exact .whole (hstatement.child hc).whole (hsimple _ (Cursor.node_mem_of_mem_children hc))
  · refine Repair.isOpenLiteral_of_below .codeFragment (text ++ [';']) ?_ ?_ hown
    · have htokens := h.ofText_statement
      rw [List.replicate_zero, List.append_nil] at htokens
      rw [htokens]
      exact List.forall_mem_append.2 ⟨h.literals, List.forall_mem_singleton.2 rfl⟩
    · rw [htree]
      exact (Cursor.onlyStatement_below _).trans hc

end IsCutOff

namespace Repair.IsPlain

variable {target : Cursor} {d : Document}

/-- Where the statement has its end, no remedy finds anything to do. -/
theorem actions_eq_nil (h : IsPlain target) (hwhole : target.IsWhole)
    (hsimple : ∀ child ∈ target.node.children, child.Simple) :
    ∀ trial ∈ Completion.trials target, trial.2.actions d trial.1 = .ok [] := by
  have hsemicolon : addSemicolon target = [] := by
    have hneeds : needsSemicolon target = true := by rw [needsSemicolon, h.kind_eq]
    have hparent : target.parentKind? ≠ some .forStatement := by rw [h.parent]; decide
    have hlast := hwhole.lastPart?_map.trans (getLast?_of_needsSemicolon hwhole hneeds hparent)
    obtain ⟨last, hlast, hkind⟩ := Option.map_eq_some_iff.1 hlast
    rw [addSemicolon, if_pos ⟨hneeds, hparent, by rw [h.parent]; decide⟩,
      Action.recordBelow, Cursor.holes, hwhole.whole.holesBelow_eq_nil, hlast]
    dsimp only
    rw [refusesSemicolon, hkind, decide_eq_true rfl, Bool.true_or, if_pos rfl, ite_self]
    rfl
  intro trial htrial
  obtain ⟨c, hc, hremedies⟩ := List.mem_flatMap.1 htrial
  obtain ⟨remedy, -, rfl⟩ := List.mem_map.1 hremedies
  rw [Target.visits_eq] at hc
  rcases List.mem_append.1 hc with hc | hc
  · obtain ⟨child, hchild, hbelow, hunder⟩ := Target.exists_child_of_mem_partsOf hc
    have hchildSimple := hsimple _ (Cursor.node_mem_of_mem_children hchild)
    exact actions_of_whole (hbelow.whole (hwhole.child hchild).whole) (hbelow.simple hchildSimple)
      (h.literals hunder) remedy
  · obtain rfl : c = target := by simpa using hc
    rw [actions_of_expressionStatement h.kind_eq, hsemicolon, ite_self]

end Repair.IsPlain

end StatementCompletion
