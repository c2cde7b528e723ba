import Mathlib.Algebra.Ring.Nat
import StatementCompletion.Layout.Depth
import StatementCompletion.Proofs.Grammar.Agreement.Sources
import StatementCompletion.Proofs.Tree.Shapes

/-!
# Indentation depth by tokens

The depth of a leaf is a sum over its ancestors, and asks for offsets.  Here it is a sum over
all the shapes of the tree that asks for the numbers of tokens only.  A shape counts for a
place if it covers it.  The place of a token comes from its number, and a comment is placed
in front of the token behind it; that is enough, for what indents begins and ends with a
token, so no comment is at its edge.

So the depth depends on the core of the tree and on how many tokens are in front of the leaf.
-/

namespace StatementCompletion

/-! ## Levels of a shape -/

namespace Node

/-- The place of a leaf behind a number of tokens: odd for a token, even for a comment. -/
def place (leaf : Node) (first : Nat) : Nat :=
  2 * first + if leaf.kind.isTrivia then 0 else 1

end Node

namespace Extent

/-- The place of the first token. -/
def place (e : Extent) : Nat :=
  2 * e.first + 1

/-- Whether a place is at one of the tokens or between them. -/
def covers (e : Extent) (place : Nat) : Bool :=
  2 * e.first < place && place < 2 * (e.first + e.count)

end Extent

namespace Shape

/-- The first part of a kind. -/
def part? (s : Shape) (kind : Kind) : Option Extent :=
  s.parts.find? (·.kind = kind)

/-- The last part of a kind. -/
def lastPart? (s : Shape) (kind : Kind) : Option Extent :=
  s.parts.reverse.find? (·.kind = kind)

/-- Whether a place is strictly between the braces of a block or a class. -/
def isBetweenBraces (s : Shape) (place : Nat) : Bool :=
  (s.extent.kind = .codeBlock || s.extent.kind = .classDeclaration)
    && (s.part? .leftBrace).any (·.place < place)
    && (s.lastPart? .rightBrace).all (place < ·.place)

/-- Whether a part of a control statement is its body and stands without braces. -/
def isUnbracedBody (s : Shape) (part : Extent) : Bool :=
  s.extent.kind.isControlStatement && part.kind.isStatement && part.kind ≠ .blockStatement
    && match s.extent.kind with
      | .ifStatement => part.kind ≠ .ifStatement
      | .forStatement | .foreachStatement => (s.part? .rightParen).any (·.place < part.place)
      | _ => true

/-- Whether a part of the block of a switch stands below a label. -/
def isBelowLabel (s : Shape) (part : Extent) : Bool :=
  s.extent.kind = .codeBlock && s.parent? = some .switchStatement
    && part.kind.isStatement && part.kind ≠ .switchLabel

/-- How many levels a shape indents what is at a place. -/
def levels (place : Nat) (s : Shape) : Nat :=
  if s.extent.covers place then
    (s.isBetweenBraces place).toNat
      + s.parts.countP (fun part => part.covers place && s.isUnbracedBody part)
      + s.parts.countP (fun part => part.covers place && s.isBelowLabel part)
  else 0

/-- Only what is anchored has levels. -/
theorem not_levels_of_not_isAnchored {s : Shape} (h : s.extent.kind.isAnchored = false)
    (place : Nat) (part : Extent) :
    s.isBetweenBraces place = false ∧ s.isUnbracedBody part = false
      ∧ s.isBelowLabel part = false := by
  have hcontrol : s.extent.kind.isControlStatement = false := by
    revert h
    cases s.extent.kind <;> first | exact fun _ => rfl | exact fun h => nomatch h
  have hblock : s.extent.kind ≠ .codeBlock := by
    intro hkind
    rw [hkind] at h
    cases h
  have hclass : s.extent.kind ≠ .classDeclaration := by
    intro hkind
    rw [hkind] at h
    cases h
  simp [isBetweenBraces, isUnbracedBody, isBelowLabel, hcontrol, hblock, hclass]

theorem levels_eq_zero {place : Nat} {s : Shape} (h : s.extent.covers place = false) :
    s.levels place = 0 := by
  rw [levels, h, if_neg Bool.false_ne_true]

/-- The levels of shapes that do not cover a place are none. -/
theorem sum_levels_eq_zero {place : Nat} {shapes : List Shape}
    (h : ∀ s ∈ shapes, s.extent.covers place = false) :
    (shapes.map (levels place)).sum = 0 := by
  induction shapes with
  | nil => rfl
  | cons s rest ih =>
    obtain ⟨hs, hrest⟩ := List.forall_mem_cons.1 h
    rw [List.map_cons, List.sum_cons, levels_eq_zero hs, ih hrest]

/-- Shapes without tokens have no levels. -/
theorem sum_levels_filter (place : Nat) (shapes : List Shape) :
    ((shapes.filter (0 < ·.extent.count)).map (levels place)).sum
      = (shapes.map (levels place)).sum := by
  induction shapes with
  | nil => rfl
  | cons s rest ih =>
    rw [List.filter_cons]
    split
    · rw [List.map_cons, List.map_cons, List.sum_cons, List.sum_cons, ih]
    · next hcount =>
      have hnone : s.extent.covers place = false := by
        simp only [decide_eq_true_eq] at hcount
        simp only [Extent.covers, Bool.and_eq_false_iff, decide_eq_false_iff_not]
        omega
      rw [List.map_cons, List.sum_cons, levels_eq_zero hnone, Nat.zero_add, ih]

end Shape

/-! ## Tidy nodes at a place -/

namespace Node

theorem number_cons (leaf : Node) (rest : List Node) :
    number (leaf :: rest) = (if leaf.kind.isTrivia then 0 else 1) + number rest := by
  rw [number, List.filter_cons]
  cases leaf.kind.isTrivia <;> simp [number, Nat.add_comm]

/-- Statements, members and blocks begin with a token. -/
theorem Tidy.begins {node : Node} (h : node.Tidy) (hkind : node.kind.isAnchored = true) :
    ∃ leaf rest, node.leaves = leaf :: rest ∧ leaf.kind.isTrivia = false := by
  cases h with
  | @leaf kind text htext =>
    refine ⟨_, [], leaves_eq_singleton htext, ?_⟩
    cases kind <;> first | rfl | cases hkind
  | error => cases hkind
  | branch _ _ hbegins _ =>
    obtain ⟨leaf, hhead, hleaf⟩ := hbegins hkind
    obtain ⟨rest, hrest⟩ := List.head?_eq_some_iff.1 hhead
    exact ⟨leaf, rest, hrest, hleaf⟩

/-- They end with one, too. -/
theorem Tidy.ends {node leaf : Node} (h : node.Tidy) (hkind : node.kind.isAnchored = true)
    (hlast : node.leaves.getLast? = some leaf) : leaf.kind.isTrivia = false := by
  cases h with
  | @leaf kind text htext =>
    have hsingle : (Node.leaf kind text).leaves = [.leaf kind text] := leaves_eq_singleton htext
    rw [hsingle, List.getLast?_singleton, Option.some_inj] at hlast
    subst hlast
    cases kind <;> first | rfl | cases hkind
  | error => cases hkind
  | branch _ hends _ _ => exact hends leaf hlast

/-- The tokens of a statement, a member or a block cover the places of its leaves. -/
theorem Tidy.covers {node leaf : Node} {front back : List Node} (h : node.Tidy)
    (hkind : node.kind.isAnchored = true) (hleaves : node.leaves = front ++ leaf :: back)
    (first : Nat) :
    2 * first < leaf.place (first + number front)
      ∧ leaf.place (first + number front) < 2 * (first + number node.leaves) := by
  have hnumber : number node.leaves = number front + number (leaf :: back) := by
    rw [hleaves, number_append]
  rw [number_cons] at hnumber
  rw [place]
  cases htrivia : leaf.kind.isTrivia with
  | false =>
    rw [htrivia] at hnumber
    simp only [Bool.false_eq_true, if_false] at hnumber ⊢
    omega
  | true =>
    rw [htrivia] at hnumber
    simp only [if_true] at hnumber ⊢
    -- a comment has a token in front of it and one behind it
    have hfront : 0 < number front := by
      obtain ⟨opening, rest, hbegins, htoken⟩ := h.begins hkind
      rw [hbegins] at hleaves
      cases front with
      | nil =>
        obtain ⟨rfl, -⟩ := List.cons.inj hleaves
        rw [htrivia] at htoken
        cases htoken
      | cons other front =>
        obtain ⟨rfl, -⟩ := List.cons.inj hleaves
        rw [number_cons, htoken]
        simp only [Bool.false_eq_true, if_false]
        omega
    have hback : 0 < number back := by
      rcases List.eq_nil_or_concat back with rfl | ⟨back, last, rfl⟩
      · have htoken := h.ends hkind (by rw [hleaves, List.getLast?_concat])
        rw [htrivia] at htoken
        cases htoken
      · rw [List.concat_eq_append] at hleaves ⊢
        have hlast : node.leaves.getLast? = some last := by
          rw [hleaves, ← List.cons_append, ← List.append_assoc, List.getLast?_concat]
        have htoken := h.ends hkind hlast
        rw [number_append, number_cons, htoken]
        simp only [Bool.false_eq_true, if_false]
        omega
    omega

/-- A bracket is a leaf with some text. -/
theorem Tidy.leaves_of_isBracket {node : Node} (h : node.Tidy)
    (hkind : node.kind.isBracket = true) :
    node.leaves = [node] ∧ node.tokens = [node] ∧ node.kind.isTrivia = false ∧ 0 < node.size := by
  cases h with
  | @leaf kind text htext =>
    have hsingle : (Node.leaf kind text).leaves = [.leaf kind text] := leaves_eq_singleton htext
    have htrivia : (Node.leaf kind text).kind.isTrivia = false := by
      cases kind <;> first | rfl | cases hkind
    refine ⟨hsingle, ?_, htrivia, Text.size_pos htext⟩
    rw [tokens, hsingle, List.filter_cons_of_pos (by rw [htrivia]; rfl), List.filter_nil]
  | error => cases hkind
  | branch _ _ _ hbracket => rw [Node.kind, hbracket] at hkind; cases hkind

/-- A root that is not anchored, with tidy nodes below it. -/
structure IsTidyRoot (tree : Node) : Prop where
  kind : tree.kind.isAnchored = false
  children : ∀ child ∈ tree.children, child.Tidy

theorem isTidyRoot_ofText (kind : SourceKind) (text : Text) : IsTidyRoot (ofText kind text) := by
  refine ⟨?_, tidy_children_ofText kind text⟩
  obtain ⟨children, htree, -⟩ := parse?_softens kind text
  rw [ofText, htree]
  rfl

end Node

/-! ## Brackets in front of a leaf and behind it -/

namespace Cursor

/-- What is asked of the offsets of a bracket and what is asked of its tokens is the same. -/
structure Agrees (position place : Nat) (bracket : Cursor) (e : Extent) : Prop where
  before : bracket.offset < position ↔ e.place < place
  behind : position < bracket.offset ↔ place < e.place

/-- Brackets in a row, by their offsets and by their tokens. -/
theorem forall₂_brackets {kind : Kind} (hkind : kind.isBracket = true) {position place : Nat}
    {above : List Placed} {index offset first : Nat} {nodes : List Node}
    (htidy : ∀ node ∈ nodes, node.Tidy)
    (hagrees : ∀ before node after, nodes = before ++ node :: after → node.kind = kind →
      Agrees position place ⟨⟨node, offset + Node.sizeAll before, index + before.length⟩, above⟩
        ⟨kind, first + (Node.tokensAll before).length, 1⟩) :
    List.Forall₂ (Agrees position place)
      ((placeAll above index offset nodes).filter (·.kind = kind))
      ((Node.extents first nodes).filter (·.kind = kind)) := by
  induction nodes generalizing index offset first with
  | nil => exact .nil
  | cons node rest ih =>
    obtain ⟨hnode, hrest⟩ := List.forall_mem_cons.1 htidy
    have hbehind := @ih (index + 1) (offset + node.size) (first + node.tokens.length) hrest
      fun before other after heq hother => by
        have hcons := hagrees (node :: before) other after (by rw [heq, List.cons_append]) hother
        simp only [Node.sizeAll, Node.tokensAll_cons, List.length_append, List.length_cons,
          Nat.add_comm before.length 1, ← Nat.add_assoc] at hcons
        exact hcons
    rw [placeAll, Node.extents]
    by_cases hown : node.kind = kind
    · obtain ⟨-, htokens, -, -⟩ := hnode.leaves_of_isBracket (by rw [hown, hkind])
      have hself := hagrees [] node rest rfl hown
      rw [htokens, if_neg (List.cons_ne_nil _ _), List.filter_cons_of_pos, List.filter_cons_of_pos]
      · rw [htokens] at hbehind
        exact .cons (by rw [hown]; exact hself) hbehind
      · exact decide_eq_true hown
      · exact decide_eq_true hown
    · have hother : ¬ decide (node.kind = kind) = true := mt of_decide_eq_true hown
      rw [List.filter_cons_of_neg]
      · split
        · exact hbehind
        · rw [List.filter_cons_of_neg]
          · exact hbehind
          · exact hother
      · exact hother

theorem any_head?_of_forall₂ {position place : Nat} {brackets : List Cursor} {extents : List Extent}
    (h : List.Forall₂ (Agrees position place) brackets extents) :
    brackets.head?.any (·.offset < position) = extents.head?.any (·.place < place) := by
  cases h with
  | nil => rfl
  | cons hagrees _ => simp [hagrees.before]

theorem all_head?_of_forall₂ {position place : Nat} {brackets : List Cursor} {extents : List Extent}
    (h : List.Forall₂ (Agrees position place) brackets extents) :
    brackets.head?.all (position < ·.offset) = extents.head?.all (place < ·.place) := by
  cases h with
  | nil => rfl
  | cons hagrees _ => simp [hagrees.behind]

/-! ## A leaf among the children of a node -/

/-- A child of a node, in front of it and behind it the others, and a leaf of it. -/
structure Path where
  before : List Node
  node : Node
  after : List Node
  front : List Node
  leaf : Node
  back : List Node
  leaves_eq : node.leaves = front ++ leaf :: back
  tidy : ∀ child ∈ before ++ node :: after, child.Tidy

namespace Path

variable (p : Path)

/-- The children. -/
def children : List Node :=
  p.before ++ p.node :: p.after

/-- The offset of the leaf, from that of the node on. -/
def position (offset : Nat) : Nat :=
  offset + Node.sizeAll p.before + Text.size (p.front.flatMap Node.ownText)

/-- The place of the leaf, from the number of the first token of the node on. -/
def place (first : Nat) : Nat :=
  p.leaf.place (first + Node.number (Node.leavesAll p.before) + Node.number p.front)

theorem position_lt (offset : Nat) :
    p.position offset < offset + Node.sizeAll p.before + p.node.size := by
  have hmem : p.leaf ∈ p.node.leaves := by simp [p.leaves_eq]
  have hpos := Text.size_pos (Node.ownText_ne_nil_of_mem_leaves p.node p.leaf hmem)
  have hsize : p.node.size = Text.size (p.front.flatMap Node.ownText)
      + (p.leaf.ownText.size + Text.size (p.back.flatMap Node.ownText)) := by
    rw [← Node.size_text, ← Node.flatMap_leaves, p.leaves_eq, List.flatMap_append,
      List.flatMap_cons, Text.size_append, Text.size_append]
  rw [position]
  omega

theorem place_le (first : Nat) : p.place first
    ≤ 2 * (first + Node.number (Node.leavesAll p.before) + Node.number p.node.leaves) := by
  rw [p.leaves_eq, Node.number_append, Node.number_cons, place, Node.place]
  split <;> omega

theorem le_place (first : Nat) :
    2 * (first + Node.number (Node.leavesAll p.before)) ≤ p.place first := by
  rw [place, Node.place]
  omega

/-- The brackets among the children are on one side of the leaf by their offsets and by their
tokens. -/
theorem agrees {kind : Kind} (hkind : kind.isBracket = true) {offset first : Nat}
    {before after : List Node} {node : Node} (heq : p.children = before ++ node :: after)
    (hnode : node.kind = kind) (index : Nat) (above : List Placed) :
    Agrees (p.position offset) (p.place first)
      ⟨⟨node, offset + Node.sizeAll before, index⟩, above⟩
      ⟨kind, first + (Node.tokensAll before).length, 1⟩ := by
  have hposition := p.position_lt offset
  have hplace := p.place_le first
  have hplace' := p.le_place first
  have hstart : offset + Node.sizeAll p.before ≤ p.position offset := Nat.le_add_right _ _
  have hmem : node ∈ p.children := by simp [heq]
  obtain ⟨hleaves, htokens, htrivia, hsize⟩ :=
    (p.tidy node hmem).leaves_of_isBracket (by rw [hnode, hkind])
  have hnumber (nodes : List Node) :
      Node.number (Node.leavesAll nodes) = (Node.tokensAll nodes).length := rfl
  have hown : Node.number p.node.leaves = p.node.tokens.length := rfl
  rw [hnumber] at hplace hplace'
  rw [hown] at hplace
  rcases split_cases heq with ⟨rfl, hsame, -⟩ | ⟨middle, hbefore, -⟩ | ⟨middle, hbefore, -⟩
  · -- the bracket is the leaf itself
    have hsplit := p.leaves_eq
    rw [hsame, hleaves] at hsplit
    obtain ⟨hfront, hleaf⟩ : p.front = [] ∧ p.leaf = node := by
      cases hfront : p.front with
      | nil =>
        rw [hfront] at hsplit
        exact ⟨rfl, (List.cons.inj hsplit).1.symm⟩
      | cons other rest =>
        rw [hfront] at hsplit
        simp at hsplit
    have hposition : p.position offset = offset + Node.sizeAll p.before := by
      rw [position, hfront]
      rfl
    have hplace : p.place first = 2 * (first + (Node.tokensAll p.before).length) + 1 := by
      rw [place, Node.place, hfront, hleaf, htrivia]
      rfl
    constructor
    · simp [hposition, hplace, Extent.place]
    · simp [hposition, hplace, Extent.place]
  · -- the bracket is in front of the child with the leaf
    have hsizes : Node.sizeAll p.before
        = Node.sizeAll before + (node.size + Node.sizeAll middle) := by
      rw [hbefore, Node.sizeAll_append, Node.sizeAll]
    have hcounts : (Node.tokensAll p.before).length
        = (Node.tokensAll before).length + (1 + (Node.tokensAll middle).length) := by
      rw [hbefore, Node.tokensAll_append, Node.tokensAll_cons, List.length_append,
        List.length_append, htokens, List.length_singleton]
    constructor
    · simp only [Extent.place]
      omega
    · simp only [Extent.place]
      omega
  · -- the bracket is behind the child with the leaf
    have hsizes : Node.sizeAll before
        = Node.sizeAll p.before + (p.node.size + Node.sizeAll middle) := by
      rw [hbefore, Node.sizeAll_append, Node.sizeAll]
    have hcounts : (Node.tokensAll before).length
        = (Node.tokensAll p.before).length + (p.node.tokens.length
          + (Node.tokensAll middle).length) := by
      rw [hbefore, Node.tokensAll_append, Node.tokensAll_cons, List.length_append,
        List.length_append]
    constructor
    · simp only [Extent.place]
      omega
    · simp only [Extent.place]
      omega

/-- Of the parts of a node only the one with the leaf covers its place; here for what is asked of
statements. -/
theorem countP_extents (first : Nat) {q : Extent → Bool}
    (hq : ∀ e, q e = true → e.kind.isStatement = true) :
    (Node.extents first p.children).countP (fun e => e.covers (p.place first) && q e)
      = (q ⟨p.node.kind, first + Node.number (Node.leavesAll p.before),
          Node.number p.node.leaves⟩).toNat := by
  have hplace := p.place_le first
  have hplace' := p.le_place first
  have htidy : p.node.Tidy := p.tidy p.node (by simp)
  rw [children, Node.extents_append, List.countP_append, Node.extents]
  -- the parts in front end before the place, and those behind begin after it
  have hbefore : (Node.extents first p.before).countP
      (fun e => e.covers (p.place first) && q e) = 0 := by
    refine List.countP_eq_zero.2 fun e he => ?_
    have hbounds := (Node.bounds_of_mem_extents e he).2
    have hnumber : Node.number (Node.leavesAll p.before) = (Node.tokensAll p.before).length := rfl
    simp only [Extent.covers, Bool.and_eq_true, decide_eq_true_eq]
    omega
  have hafter : (Node.extents (first + (Node.tokensAll p.before).length + p.node.tokens.length)
      p.after).countP (fun e => e.covers (p.place first) && q e) = 0 := by
    refine List.countP_eq_zero.2 fun e he => ?_
    have hbounds := (Node.bounds_of_mem_extents e he).1
    have hnumber : Node.number (Node.leavesAll p.before) = (Node.tokensAll p.before).length := rfl
    have hown : Node.number p.node.leaves = p.node.tokens.length := rfl
    simp only [Extent.covers, Bool.and_eq_true, decide_eq_true_eq]
    omega
  rw [hbefore, Nat.zero_add]
  cases hasked : q ⟨p.node.kind, first + Node.number (Node.leavesAll p.before),
      Node.number p.node.leaves⟩ with
  | false =>
    split
    · exact hafter
    · rw [List.countP_cons_of_neg, hafter]
      · rfl
      · rw [Bool.and_eq_true, not_and]
        exact fun _ => Bool.eq_false_iff.1 hasked
  | true =>
    have hstatement := hq _ hasked
    have hanchored : p.node.kind.isAnchored = true := by simp [Kind.isAnchored, hstatement]
    have hcovers := htidy.covers hanchored p.leaves_eq
      (first + Node.number (Node.leavesAll p.before))
    have htokens : p.node.tokens ≠ [] := by
      intro hnil
      have hnumber : Node.number p.node.leaves = 0 := congrArg List.length hnil
      omega
    rw [if_neg htokens, List.countP_cons_of_pos, hafter]
    · rfl
    · rw [Bool.and_eq_true, Extent.covers, Bool.and_eq_true, decide_eq_true_eq, decide_eq_true_eq]
      exact ⟨hcovers, hasked⟩

/-! ### The levels of one node -/

variable (kind : Kind) (offset index : Nat) (above : List Placed)

/-- The node at its place. -/
def cursor : Cursor :=
  ⟨⟨.branch kind p.children, offset, index⟩, above⟩

/-- The child with the leaf at its place. -/
def child : Cursor :=
  ⟨⟨p.node, offset + Node.sizeAll p.before, p.before.length⟩,
    ⟨.branch kind p.children, offset, index⟩ :: above⟩

theorem forall₂_brackets_children {bracket : Kind} (hbracket : bracket.isBracket = true)
    (first : Nat) : List.Forall₂ (Agrees (p.position offset) (p.place first))
      ((p.cursor kind offset index above).children.filter (·.kind = bracket))
      (((p.cursor kind offset index above).shape first).parts.filter (·.kind = bracket)) :=
  forall₂_brackets hbracket p.tidy fun _ _ _ heq hnode => p.agrees hbracket heq hnode _ _

theorem isBetweenBraces_eq (first : Nat) :
    Layout.isBetweenBraces (p.cursor kind offset index above) (p.position offset)
      = ((p.cursor kind offset index above).shape first).isBetweenBraces (p.place first) := by
  have hleft := any_head?_of_forall₂
    (@forall₂_brackets_children p kind offset index above .leftBrace rfl first)
  have hright := all_head?_of_forall₂ (List.rel_reverse
    (@forall₂_brackets_children p kind offset index above .rightBrace rfl first))
  rw [List.head?_filter, List.head?_filter] at hleft
  rw [← List.filter_reverse, ← List.filter_reverse, List.head?_filter, List.head?_filter] at hright
  rw [Layout.isBetweenBraces, child?, lastChild?, childrenFromEnd_eq, hleft, hright]
  rfl

theorem isUnbracedBody_eq (first : Nat) :
    Layout.isUnbracedBody (p.cursor kind offset index above) (p.child kind offset index above)
      = ((p.cursor kind offset index above).shape first).isUnbracedBody
          ⟨p.node.kind, first + Node.number (Node.leavesAll p.before),
            Node.number p.node.leaves⟩ := by
  have hparen (hstatement : p.node.kind.isStatement = true) :
      ((p.cursor kind offset index above).child? .rightParen).any
          (·.offset < offset + Node.sizeAll p.before)
        = (((p.cursor kind offset index above).shape first).part? .rightParen).any
          (·.place < 2 * (first + Node.number (Node.leavesAll p.before)) + 1) := by
    -- the first leaf of a statement is a token
    have hanchored : p.node.kind.isAnchored = true := by simp [Kind.isAnchored, hstatement]
    obtain ⟨leaf, rest, hleaves, htoken⟩ := (p.tidy p.node (by simp)).begins hanchored
    let start : Path := { p with front := [], leaf, back := rest, leaves_eq := hleaves }
    have hplace : start.place first
        = 2 * (first + Node.number (Node.leavesAll p.before)) + 1 := by
      show Node.place leaf _ = _
      rw [Node.place, htoken]
      rfl
    have hany := any_head?_of_forall₂
      (@forall₂_brackets_children start kind offset index above .rightParen rfl first)
    rw [List.head?_filter, List.head?_filter, hplace] at hany
    exact hany
  have hown : (p.cursor kind offset index above).kind = kind := rfl
  have hshape : ((p.cursor kind offset index above).shape first).extent.kind = kind := rfl
  have hchild : (p.child kind offset index above).kind = p.node.kind := rfl
  rw [Layout.isUnbracedBody, Shape.isUnbracedBody, hown, hshape, hchild]
  cases hstatement : p.node.kind.isStatement with
  | false => simp only [Bool.and_false, Bool.false_and]
  | true =>
    refine congrArg (and _) ?_
    rcases eq_or_ne kind .ifStatement with rfl | hif
    · rfl
    rcases eq_or_ne kind .forStatement with rfl | hfor
    · exact hparen hstatement
    rcases eq_or_ne kind .foreachStatement with rfl | hforeach
    · exact hparen hstatement
    · simp

/-- The levels of a node on the way to a leaf are those of its shape at the place of the leaf. -/
theorem levels_eq (hkind : kind.isAnchored = true → (Node.branch kind p.children).Tidy)
    (first : Nat) :
    Layout.levels (p.position offset) (p.cursor kind offset index above)
        (p.child kind offset index above)
      = ((p.cursor kind offset index above).shape first).levels (p.place first) := by
  have hbelow : Layout.isBelowLabel (p.cursor kind offset index above)
        (p.child kind offset index above)
      = ((p.cursor kind offset index above).shape first).isBelowLabel
          ⟨p.node.kind, first + Node.number (Node.leavesAll p.before),
            Node.number p.node.leaves⟩ := rfl
  rw [Layout.levels, p.isBetweenBraces_eq, p.isUnbracedBody_eq kind offset index above first,
    hbelow, Shape.levels]
  split
  · rw [← p.countP_extents first fun e he => ?_, ← p.countP_extents first fun e he => ?_]
    · rfl
    · simp only [Shape.isBelowLabel, Bool.and_eq_true] at he
      exact he.1.2
    · simp only [Shape.isUnbracedBody, Bool.and_eq_true] at he
      exact he.1.1.2
  · next hcovers =>
    -- what is anchored covers its leaves
    have hanchored : kind.isAnchored = false := by
      refine Bool.eq_false_iff.2 fun hanchored => hcovers ?_
      have hleaves : (Node.branch kind p.children).leaves
          = (Node.leavesAll p.before ++ p.front) ++ p.leaf
            :: (p.back ++ Node.leavesAll p.after) := by
        rw [Node.leaves, children, Node.leavesAll_append, Node.leavesAll, p.leaves_eq]
        simp only [List.append_assoc, List.cons_append]
      have htidy := (hkind hanchored).covers hanchored hleaves first
      rw [Node.number_append, ← Nat.add_assoc] at htidy
      rw [Extent.covers, Bool.and_eq_true, decide_eq_true_eq, decide_eq_true_eq]
      exact htidy
    obtain ⟨hbraces, hbody, hlabel⟩ := @Shape.not_levels_of_not_isAnchored
      ((p.cursor kind offset index above).shape first) hanchored (p.place first) ⟨p.node.kind,
        first + Node.number (Node.leavesAll p.before), Node.number p.node.leaves⟩
    rw [hbraces, hbody, hlabel]
    rfl

/-- The shapes in front of the child with the leaf and behind it count nothing. -/
theorem sum_levels_shapes (first : Nat) :
    (((Node.branch kind p.children).shapes
        (p.cursor kind offset index above).parentKind? first).map
          (Shape.levels (p.place first))).sum
      = ((p.cursor kind offset index above).shape first).levels (p.place first)
        + ((p.node.shapes (some kind) (first + Node.number (Node.leavesAll p.before))).map
          (Shape.levels (p.place first))).sum := by
  have hplace := p.place_le first
  have hplace' := p.le_place first
  have hnumber : Node.number (Node.leavesAll p.before) = (Node.tokensAll p.before).length := rfl
  have hown : Node.number p.node.leaves = p.node.tokens.length := rfl
  -- what is in front ends before the place, and what is behind begins after it
  have hbefore : ((Node.shapesAll (some kind) first p.before).map
      (Shape.levels (p.place first))).sum = 0 := by
    refine Shape.sum_levels_eq_zero fun s hs => ?_
    have hbounds := (Node.bounds_of_mem_shapesAll p.before s hs).2
    simp only [Extent.covers, Bool.and_eq_false_iff, decide_eq_false_iff_not]
    omega
  have hafter : ((Node.shapesAll (some kind)
      (first + (Node.tokensAll p.before).length + p.node.tokens.length) p.after).map
        (Shape.levels (p.place first))).sum = 0 := by
    refine Shape.sum_levels_eq_zero fun s hs => ?_
    have hbounds := (Node.bounds_of_mem_shapesAll p.after s hs).1
    simp only [Extent.covers, Bool.and_eq_false_iff, decide_eq_false_iff_not]
    omega
  have hshapes : Node.shapesAll (some kind) first p.children
      = Node.shapesAll (some kind) first p.before
        ++ (p.node.shapes (some kind) (first + Node.number (Node.leavesAll p.before))
          ++ Node.shapesAll (some kind)
            (first + (Node.tokensAll p.before).length + p.node.tokens.length) p.after) := by
    rw [children, Node.shapesAll_append, Node.shapesAll]
    rfl
  rw [Node.shapes, List.map_cons, List.sum_cons, hshapes, List.map_append, List.sum_append,
    List.map_append, List.sum_append, hbefore, hafter, Nat.zero_add, Nat.add_zero]
  rfl

end Path

/-! ## The depth of a leaf -/

variable {tree : Node} {front back : List Node} {c : Cursor}

theorem Among.tidy (htree : tree.IsTidyRoot) (h : Among tree front c back) :
    (c.kind.isAnchored = true → c.node.Tidy) ∧ ∀ child ∈ c.node.children, child.Tidy := by
  induction h with
  | root =>
    refine ⟨fun hkind => ?_, htree.children⟩
    have hroot : tree.kind.isAnchored = true := hkind
    rw [htree.kind] at hroot
    cases hroot
  | child _ ih =>
    have htidy := ih.2 _ (List.mem_append_right _ (List.mem_cons_self ..))
    refine ⟨fun _ => htidy, fun child hchild => ?_⟩
    cases htidy with
    | leaf _ => cases hchild
    | error => cases hchild
    | branch hchildren _ _ _ => exact hchildren child hchild

/-- What the shapes of the tree count for a leaf below a node is what those below the node count,
and the levels of the nodes above it. -/
theorem Among.sum_levels (htree : tree.IsTidyRoot) (h : Among tree front c back)
    {before behind : List Node} {leaf : Node} (hleaves : c.node.leaves = before ++ leaf :: behind) :
    ((tree.shapes none 0).map
        (Shape.levels (leaf.place (Node.number front + Node.number before)))).sum
      = ((c.node.shapes c.parentKind? (Node.number front)).map
          (Shape.levels (leaf.place (Node.number front + Node.number before)))).sum
        + Layout.depthBelow (c.offset + Text.size (before.flatMap Node.ownText)) c c.ancestors := by
  -- along the path from the root to the node
  induction h generalizing before behind with
  | root =>
    simp [Cursor.root, ancestors, stack, Layout.depthBelow, parentKind?, parent?, Node.number]
  | @child front back left right kind node offset index above hparent ih =>
    obtain ⟨hanchored, hchildren⟩ := hparent.tidy htree
    let p : Path :=
      { before := left, node, after := right, front := before, leaf, back := behind,
        leaves_eq := hleaves, tidy := hchildren }
    have hsplit : (Node.branch kind (left ++ node :: right)).leaves
        = (Node.leavesAll left ++ before) ++ leaf :: (behind ++ Node.leavesAll right) := by
      rw [Node.leaves, Node.leavesAll_append, Node.leavesAll, hleaves]
      simp only [List.append_assoc, List.cons_append]
    have hplace : leaf.place (Node.number front + Node.number (Node.leavesAll left ++ before))
        = p.place (Node.number front) := by
      rw [Node.number_append, ← Nat.add_assoc]
      rfl
    have hposition : offset + Text.size ((Node.leavesAll left ++ before).flatMap Node.ownText)
        = p.position offset := by
      rw [List.flatMap_append, Text.size_append, Node.flatMap_leavesAll, Node.size_textAll,
        ← Nat.add_assoc]
      rfl
    have habove := ih hsplit
    rw [hplace, hposition] at habove
    have hshapes := p.sum_levels_shapes kind offset index above (Node.number front)
    have hlevels := p.levels_eq kind offset index above hanchored (Node.number front)
    rw [Node.number_append]
    calc ((tree.shapes none 0).map (Shape.levels (p.place (Node.number front)))).sum
        = _ + Layout.depthBelow (p.position offset) (p.cursor kind offset index above)
            (p.cursor kind offset index above).ancestors := habove
      _ = Layout.levels (p.position offset) (p.cursor kind offset index above)
              (p.child kind offset index above) + _
            + Layout.depthBelow (p.position offset) (p.cursor kind offset index above)
              (p.cursor kind offset index above).ancestors := by
          rw [hlevels]
          exact congrArg (· + _) hshapes
      _ = _ + Layout.depthBelow (p.position offset) (p.child kind offset index above)
            (p.child kind offset index above).ancestors := by
          rw [Nat.add_comm (Layout.levels _ _ _), Nat.add_assoc]
          rfl

/-- The depth of a leaf is what the shapes of its tree count at its place. -/
theorem Among.depth_eq (htree : tree.IsTidyRoot) (h : Among tree front c back)
    (hleaf : c.node.isLeaf = true) (hleaves : c.node.leaves = [c.node]) :
    Layout.depth c
      = ((tree.shapes none 0).map (Shape.levels (c.node.place (Node.number front)))).sum := by
  have hsum := @Among.sum_levels _ _ _ _ htree h [] [] _ hleaves
  have hnone : c.node.shapes c.parentKind? (Node.number front) = [] := by
    cases hnode : c.node with
    | leaf kind text => rfl
    | error problem text => rfl
    | branch kind children =>
      rw [hnode] at hleaf
      cases hleaf
  rw [hnone, List.map_nil, List.sum_nil, Nat.zero_add] at hsum
  exact hsum.symm

end Cursor

namespace Layout

/-- In two trees with one core, leaves behind as many tokens have the same depth. -/
theorem depth_eq_of_core_eq {tree tree' : Node} (hcore : tree'.core = tree.core)
    (htree : tree.IsTidyRoot) (htree' : tree'.IsTidyRoot) {front back front' back' : List Node}
    {c c' : Cursor} (h : Cursor.Among tree front c back) (h' : Cursor.Among tree' front' c' back')
    (hnode : c'.node = c.node) (hleaf : c.node.isLeaf = true) (hleaves : c.node.leaves = [c.node])
    (hnumber : Node.number front' = Node.number front) : depth c' = depth c := by
  rw [h.depth_eq htree hleaf hleaves, h'.depth_eq htree' (by rwa [hnode]) (by rwa [hnode]), hnode,
    hnumber, ← Shape.sum_levels_filter _ (tree.shapes none 0), ← Node.shapesAll_core,
    ← Shape.sum_levels_filter _ (tree'.shapes none 0), ← Node.shapesAll_core, hcore]

end Layout

end StatementCompletion
