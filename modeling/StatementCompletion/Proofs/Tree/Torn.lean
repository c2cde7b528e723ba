import StatementCompletion.Proofs.Tree.Leaves
import StatementCompletion.Proofs.Tree.Whole

/-!
# Trees with their end torn off

When a text loses parentheses at its end, its tree loses the leaves of these parentheses and gets
marks in their place.  `Torn x y` says that `y` comes from `x` in this way.  A node is torn where
its last child with some text is, or where it ends with a parenthesis and the mark stands for that
one; in front of the tear nothing has changed, and behind it there is no text.

Only an expression without braces is torn.  `Simple` says what such an expression is made of: no
statement, no member, no list in braces and no keyword of a header is in it, a list of arguments
stands at the end of a call, and what stands in parentheses has its closing parenthesis at the end.
-/

namespace StatementCompletion

namespace Kind

/-- What stands in front of the parenthesis that a header begins with. -/
def opensHeader : Kind → Bool
  | .ifKeyword | .whileKeyword | .forKeyword | .switchKeyword | .catchKeyword
  | .synchronizedKeyword => true
  | _ => false

/-- What may be inside an expression without braces. -/
def isSimple (kind : Kind) : Bool :=
  !(kind.isStatement || kind.isMember || kind = .codeBlock || kind = .catchSection
    || kind = .parameterList || kind = .arrayInitializer || kind.opensHeader)

/-- What may be inside a statement made of such an expression, and the statement itself. -/
def isUnbraced (kind : Kind) : Bool :=
  kind.isSimple || kind = .expressionStatement

/-- What a closing parenthesis may be missing from. -/
def isParens (kind : Kind) : Bool :=
  kind = .argumentList || kind = .parenthesized

/-- What has arguments. -/
def isCall (kind : Kind) : Bool :=
  kind = .methodCall || kind = .newExpression

/-- What stands at the end of the construct that it belongs to. -/
def isTail (kind : Kind) : Bool :=
  kind = .rightParen || kind = .argumentList

end Kind

namespace Node

/-- The leaf of a closing parenthesis. -/
def closer : Node :=
  .leaf .rightParen [')']

/-- A tree of an expression without braces. -/
inductive Simple : Node → Prop where
  | leaf {kind : Kind} {text : Text} : kind.isSimple = true → Simple (.leaf kind text)
  | error {problem : Problem} {text : Text} : Simple (.error problem text)
  | branch {kind : Kind} {children : List Node} :
      kind.isSimple = true → (∀ child ∈ children, Simple child) →
        (∀ child ∈ children.dropLast, child.kind ≠ .argumentList) →
          (kind.isCall = false → ∀ child ∈ children, child.kind ≠ .argumentList) →
            (kind.isParens = true → ∀ child ∈ children.dropLast, child.kind ≠ .rightParen) →
              Simple (.branch kind children)

theorem Simple.isSimple {node : Node} (h : node.Simple) : node.kind.isSimple = true := by
  cases h with
  | leaf hkind | branch hkind => exact hkind
  | error => rfl

theorem Simple.of_mem_children {node child : Node} (h : node.Simple)
    (hchild : child ∈ node.children) :
    child.Simple := by
  cases h with
  | leaf | error => simp [children] at hchild
  | branch _ hchildren => exact hchildren child hchild

theorem Simple.of_mem_leaves {node : Node} (h : node.Simple) :
    ∀ leaf ∈ node.leaves, leaf.Simple := by
  induction h with
  | leaf hkind =>
    rw [leaves]
    split
    · exact fun _ => nofun
    · exact List.forall_mem_singleton.2 (.leaf hkind)
  | error =>
    rw [leaves]
    split
    · exact fun _ => nofun
    · exact List.forall_mem_singleton.2 .error
  | branch _ _ _ _ _ ih =>
    intro leaf hleaf
    rw [leaves, leavesAll_eq_flatMap] at hleaf
    obtain ⟨child, hchild, hleaf⟩ := List.mem_flatMap.1 hleaf
    exact ih child hchild leaf hleaf

/-- A tree and the same one without some of the parentheses that it ends with. -/
inductive Torn : Node → Node → Prop where
  | whole (node : Node) : Torn node node
  | inside {kind : Kind} {front back : List Node} {x y : Node} :
      Torn x y → sizeAll back = 0 →
        Torn (.branch kind (front ++ x :: back)) (.branch kind (front ++ y :: back))
  | opened {kind : Kind} {front back gaps : List Node} {x y : Node} :
      Torn x y → sizeAll back = 0 → kind.isParens = true →
        (∀ gap ∈ gaps, ∃ problem, gap = .error problem []) →
          (∃ node ∈ front ++ y :: back ++ gaps, node.problems ≠ []) →
            Torn (.branch kind (front ++ x :: back ++ [closer]))
              (.branch kind (front ++ y :: back ++ gaps))

/-- A statement without its semicolon, whose expression is torn at its end or whole. -/
inductive Unended (x y : Node) : Node → Prop where
  | mk {front back gaps : List Node} {kind : Kind} :
      Torn x y → sizeAll back = 0 →
        (∀ gap ∈ gaps, gap = .error (.expected (.construct .semicolon)) []) →
          (∀ node ∈ front ++ x :: back, node.Whole ∧ node.Simple) →
            kind.isOperand = true → partKinds (front ++ x :: back) = [kind] →
              Unended x y (.branch .expressionStatement (front ++ y :: back ++ gaps))

/-! ## Rows without text -/

theorem textAll_eq_nil {nodes : List Node} (h : sizeAll nodes = 0) : textAll nodes = [] :=
  Text.eq_nil_of_size_eq_zero (by rw [size_textAll, h])

theorem sizeAll_eq_zero {nodes : List Node}
    (h : ∀ node ∈ nodes, ∃ problem, node = .error problem []) :
    sizeAll nodes = 0 := by
  induction nodes with
  | nil => rfl
  | cons node rest ih =>
    obtain ⟨⟨problem, rfl⟩, hrest⟩ := List.forall_mem_cons.1 h
    rw [sizeAll, ih hrest]
    rfl

/-- Behind a node a row has no text. -/
theorem sizeAll_row {front back gaps : List Node} {node : Node} (hback : sizeAll back = 0)
    (hgaps : sizeAll gaps = 0) :
    sizeAll (front ++ node :: back ++ gaps) = sizeAll front + node.size := by
  rw [sizeAll_append, sizeAll_append, sizeAll, hback, hgaps, Nat.add_zero, Nat.add_zero]

/-! ## What is torn -/

namespace Torn

variable {x y : Node}

/-- The kind is what it was. -/
theorem kind_eq (h : Torn x y) : y.kind = x.kind := by
  cases h <;> rfl

/-- The text has lost parentheses at its end. -/
theorem exists_text_eq (h : Torn x y) :
    ∃ n, x.text = y.text ++ List.replicate n ')' := by
  induction h with
  | whole node => exact ⟨0, by simp⟩
  | @inside kind front back x y _ hback ih =>
    obtain ⟨n, hn⟩ := ih
    refine ⟨n, ?_⟩
    simp only [text, textAll_append, textAll, textAll_eq_nil hback, hn, List.append_nil,
      List.append_assoc]
  | @opened kind front back gaps x y _ hback _ hgaps _ ih =>
    obtain ⟨n, hn⟩ := ih
    refine ⟨n + 1, ?_⟩
    simp only [text, textAll_append, textAll, textAll_eq_nil hback,
      textAll_eq_nil (sizeAll_eq_zero hgaps), closer, hn, List.append_nil, List.append_assoc,
      List.replicate_succ']

theorem size_le (h : Torn x y) : y.size ≤ x.size := by
  obtain ⟨n, hn⟩ := h.exists_text_eq
  rw [← size_text x, ← size_text y, hn, Text.size_append]
  exact Nat.le_add_right _ _

/-- A tree that has lost no text is the same. -/
theorem eq_of_size_eq (h : Torn x y) (hsize : y.size = x.size) : y = x := by
  induction h with
  | whole node => rfl
  | @inside kind front back x y _ _ ih =>
    simp only [size, sizeAll_append, sizeAll] at hsize
    rw [ih (by omega)]
  | @opened kind front back gaps x y htorn _ _ hgaps _ _ =>
    have hle := htorn.size_le
    have hcloser : closer.size = 1 := rfl
    simp only [size, sizeAll_append, sizeAll, sizeAll_eq_zero hgaps, hcloser] at hsize
    omega

/-- What has been torn open shows a problem. -/
theorem eq_of_problems_eq_nil (h : Torn x y) (hproblems : y.problems = []) : y = x := by
  induction h with
  | whole node => rfl
  | @inside kind front back x y _ _ ih =>
    rw [problems, problemsAll_eq_nil] at hproblems
    rw [ih (hproblems y (by simp))]
  | @opened kind front back gaps x y _ _ _ _ hproblem _ =>
    obtain ⟨node, hnode, hne⟩ := hproblem
    rw [problems, problemsAll_eq_nil] at hproblems
    exact absurd (hproblems node hnode) hne

/-- The kinds of the nodes in a row are what they were. -/
theorem map_kind_eq (h : Torn x y) (front back : List Node) :
    (front ++ y :: back).map Node.kind = (front ++ x :: back).map Node.kind := by
  rw [List.map_append, List.map_append, List.map_cons, List.map_cons, h.kind_eq]

/-- A torn tree is made of nothing else. -/
theorem simple (h : Torn x y) (hx : x.Simple) : y.Simple := by
  induction h with
  | whole node => exact hx
  | @inside kind front back x y htorn _ ih =>
    cases hx with
    | branch hkind hchildren hlast hlist hparens =>
      simp only [List.forall_mem_append, List.forall_mem_cons] at hchildren
      -- what is asked of the kinds of the children is asked of the same kinds
      have hsame {wanted : Kind}
          (hwanted : ∀ child ∈ (front ++ x :: back).dropLast, child.kind ≠ wanted) :
          ∀ child ∈ (front ++ y :: back).dropLast, child.kind ≠ wanted := by
        rw [← List.forall_mem_map (f := Node.kind) (P := (· ≠ wanted)),
          List.map_dropLast] at hwanted ⊢
        rwa [htorn.map_kind_eq]
      refine .branch hkind ?_ (hsame hlast) (fun hcall => ?_) fun hkind => hsame (hparens hkind)
      · simp only [List.forall_mem_append, List.forall_mem_cons]
        exact ⟨hchildren.1, ih hchildren.2.1, hchildren.2.2⟩
      · have hlist := hlist hcall
        rw [← List.forall_mem_map (f := Node.kind) (P := (· ≠ .argumentList))] at hlist ⊢
        rwa [htorn.map_kind_eq]
  | @opened kind front back gaps x y htorn _ hkind hgaps _ ih =>
    cases hx with
    | branch hsimple hchildren _ hlist hparens =>
      have hcall : kind.isCall = false := by
        cases kind <;> first | rfl | cases hkind
      have hlist := hlist hcall
      have hparens := hparens hkind
      rw [List.dropLast_concat] at hparens
      simp only [List.forall_mem_append, List.forall_mem_cons] at hchildren hlist hparens
      have hgap {wanted : Kind} (hwanted : wanted ≠ .error) : ∀ gap ∈ gaps, gap.kind ≠ wanted := by
        intro gap hmem
        obtain ⟨problem, rfl⟩ := hgaps gap hmem
        exact hwanted.symm
      have hlist' : ∀ child ∈ front ++ y :: back ++ gaps, child.kind ≠ .argumentList := by
        simp only [List.forall_mem_append, List.forall_mem_cons, htorn.kind_eq]
        exact ⟨hlist.1, hgap (by decide)⟩
      have hparens' : ∀ child ∈ front ++ y :: back ++ gaps, child.kind ≠ .rightParen := by
        simp only [List.forall_mem_append, List.forall_mem_cons, htorn.kind_eq]
        exact ⟨hparens, hgap (by decide)⟩
      refine .branch hsimple ?_ ?_ (fun _ => hlist') fun _ => ?_
      · simp only [List.forall_mem_append, List.forall_mem_cons]
        refine ⟨⟨hchildren.1.1, ih hchildren.1.2.1, hchildren.1.2.2⟩, fun gap hmem => ?_⟩
        obtain ⟨problem, rfl⟩ := hgaps gap hmem
        exact .error
      · exact fun child hchild => hlist' child ((List.dropLast_sublist _).subset hchild)
      · exact fun child hchild => hparens' child ((List.dropLast_sublist _).subset hchild)

end Torn

end Node

end StatementCompletion
