import MarkupNesting.Jsx.Build
import MarkupNesting.Proofs.Naming

/-! The tree of a JSX node without names and without a limit, and how its builder gives it. The
roots of a module are its outermost JSX nodes, in order. -/

namespace MarkupNesting.Jsx

open Builder MarkupNesting.Tree

mutual

/-- The tree of a JSX node at a depth, with no names. -/
def shape (depth : Nat) : Node → Tree
  | ⟨kind, role, origin, named, place, text, children⟩ =>
    let n : Node := ⟨kind, role, origin, named, place, text, children⟩
    ⟨"", tagOf n, if kind = .selfClosingElement then [] else shapes depth children, some depth, none⟩

def shapes (depth : Nat) : List Node → List Tree
  | [] => []
  | ⟨kind, role, origin, named, place, text, children⟩ :: ns =>
    let n : Node := ⟨kind, role, origin, named, place, text, children⟩
    let own :=
      if !named then []
      else if n.isJsx then [shape (depth + 1) n]
      else if kind = .container then heldShape depth children
      else []
    own ++ shapes depth ns

def heldShape (depth : Nat) : List Node → List Tree
  | [] => []
  | ⟨kind, role, origin, named, place, text, children⟩ :: ns =>
    let n : Node := ⟨kind, role, origin, named, place, text, children⟩
    if !named || kind = .comment then heldShape depth ns
    else if kind = .parenthesized then heldShape depth children
    else if n.isJsx then [shape (depth + 1) n]
    else []

end

theorem shape_mk (depth : Nat) (n : Node) :
    shape depth n = ⟨"", tagOf n,
      if n.kind = .selfClosingElement then [] else shapes depth n.children, some depth, none⟩ := by
  cases n
  rfl

theorem shapes_jsx {n : Node} (hn : n.named = true) (hj : n.isJsx = true) (depth : Nat)
    (ns : List Node) : shapes depth (n :: ns) = shape (depth + 1) n :: shapes depth ns := by
  obtain ⟨kind, role, origin, named, place, text, children⟩ := n
  obtain rfl : named = true := hn
  rw [shapes, if_neg (by decide), if_pos hj]
  rfl

theorem heldShape_jsx {n : Node} (hn : n.named = true) (hj : n.isJsx = true) (depth : Nat)
    (ns : List Node) : heldShape depth (n :: ns) = [shape (depth + 1) n] := by
  have hk : n.kind ≠ .comment ∧ n.kind ≠ .parenthesized := by
    constructor <;> intro hk <;> simp [Node.isJsx, hk] at hj
  obtain ⟨kind, role, origin, named, place, text, children⟩ := n
  obtain rfl : named = true := hn
  have hc : ¬ (!true || decide (kind = .comment)) = true := by simp [hk.1]
  rw [heldShape, if_neg hc, if_neg hk.2, if_pos hj]

/-- Whether a property of trees at a depth passes from children to parents. -/
def PassesUp (P : Nat → Tree → Prop) : Prop :=
  ∀ depth tag children, (∀ t ∈ children, P (depth + 1) t) →
    P depth ⟨"", tag, children, some depth, none⟩

section

variable {P : Nat → Tree → Prop}

mutual

/-- Induction over the trees of JSX. -/
theorem shape_induction (hp : PassesUp P) (depth : Nat) : (n : Node) → P depth (shape depth n)
  | ⟨kind, role, origin, named, place, text, children⟩ => by
    have h := shapes_induction hp depth children
    rw [shape]
    apply hp
    split
    · simp
    · exact h

theorem shapes_induction (hp : PassesUp P) (depth : Nat) : (ns : List Node) →
    ∀ t ∈ shapes depth ns, P (depth + 1) t
  | [] => by simp [shapes]
  | ⟨kind, role, origin, named, place, text, children⟩ :: ns => by
    have h1 := shape_induction hp (depth + 1) ⟨kind, role, origin, named, place, text, children⟩
    have h2 := heldShape_induction hp depth children
    have h3 := shapes_induction hp depth ns
    intro t ht
    rw [shapes, List.mem_append] at ht
    rcases ht with ht | ht
    · split at ht
      · simp at ht
      · split at ht
        · rwa [List.mem_singleton.mp ht]
        · split at ht
          · exact h2 t ht
          · simp at ht
    · exact h3 t ht

theorem heldShape_induction (hp : PassesUp P) (depth : Nat) : (ns : List Node) →
    ∀ t ∈ heldShape depth ns, P (depth + 1) t
  | [] => by simp [heldShape]
  | ⟨kind, role, origin, named, place, text, children⟩ :: ns => by
    have h1 := shape_induction hp (depth + 1) ⟨kind, role, origin, named, place, text, children⟩
    have h2 := heldShape_induction hp depth children
    have h3 := heldShape_induction hp depth ns
    intro t ht
    rw [heldShape] at ht
    split at ht
    · exact h3 t ht
    · split at ht
      · exact h2 t ht
      · split at ht
        · rwa [List.mem_singleton.mp ht]
        · simp at ht

end

end

mutual

theorem elementTree_eq_give (depth : Nat) : (n : Node) → elementTree depth n = give (shape depth n)
  | ⟨kind, role, origin, named, place, text, children⟩ => by
    have h := contents_eq_giveAll depth children
    rw [shape, give_mk, elementTree]
    by_cases hk : kind = .selfClosingElement
    · simp [hk, giveAll_nil]
    · simp [hk, h]

theorem contents_eq_giveAll (depth : Nat) : (ns : List Node) →
    contents depth ns = giveAll (shapes depth ns)
  | [] => giveAll_nil.symm
  | ⟨kind, role, origin, named, place, text, children⟩ :: ns => by
    have h1 := elementTree_eq_give (depth + 1) ⟨kind, role, origin, named, place, text, children⟩
    have h2 := held_eq_giveAll depth children
    have h3 := contents_eq_giveAll depth ns
    rw [shapes, giveAll_append, contents, h3]
    split
    · rw [giveAll_nil]
    · split
      · rw [h1, giveAll_singleton]
      · split
        · rw [h2]
        · rw [giveAll_nil]

theorem held_eq_giveAll (depth : Nat) : (ns : List Node) →
    held depth ns = giveAll (heldShape depth ns)
  | [] => giveAll_nil.symm
  | ⟨kind, role, origin, named, place, text, children⟩ :: ns => by
    have h1 := elementTree_eq_give (depth + 1) ⟨kind, role, origin, named, place, text, children⟩
    have h2 := held_eq_giveAll depth children
    have h3 := held_eq_giveAll depth ns
    rw [heldShape, held]
    split
    · exact h3
    · split
      · exact h2
      · split
        · rw [h1, giveAll_singleton]
        · exact giveAll_nil.symm

end

mutual

/-- The JSX nodes of a tree that lie in no other one, in order. -/
def outermost : Node → List Node
  | ⟨kind, role, origin, named, place, text, children⟩ =>
    let n : Node := ⟨kind, role, origin, named, place, text, children⟩
    if n.isJsx then [n] else outermostAll children

def outermostAll : List Node → List Node
  | [] => []
  | n :: ns => outermost n ++ outermostAll ns

end

theorem outermost_jsx {n : Node} (h : n.isJsx = true) : outermost n = [n] := by
  cases n
  rw [outermost, if_pos h]

theorem outermost_other {n : Node} (h : ¬ n.isJsx = true) : outermost n = outermostAll n.children := by
  cases n
  rw [outermost, if_neg h]

theorem outermostAll_append (ms ns : List Node) :
    outermostAll (ms ++ ns) = outermostAll ms ++ outermostAll ns := by
  induction ms with
  | nil => rfl
  | cons m ms ih => simp [outermostAll, ih]

theorem outermostAll_jsx {ns : List Node} (h : ∀ n ∈ ns, n.isJsx = true) : outermostAll ns = ns := by
  induction ns with
  | nil => rfl
  | cons n ns ih =>
    rw [outermostAll, outermost_jsx (h n (by simp)), ih fun m hm => h m (by simp [hm])]
    rfl

theorem outermostAll_pending (c : Cursor) :
    outermostAll c.pending = (if c.node.isJsx then [c.node] else []) ++
      outermostAll ((c.next? (!c.node.isJsx)).elim [] Cursor.pending) := by
  have hc : outermostAll c.pending = outermost c.node ++ outermostAll c.pending.tail := rfl
  rw [hc, c.pending_next?, outermostAll_append]
  by_cases hj : c.node.isJsx = true
  · simp [hj, outermost_jsx hj, outermostAll]
  · simp [hj, outermost_other hj]

theorem rootAt_eq_giveAll (n : Node) :
    rootAt n = giveAll ((if n.isJsx then [n] else []).map (shape 0)) := by
  rw [rootAt]
  split
  · rw [elementTree_eq_give, List.map_singleton, giveAll_singleton]
  · exact giveAll_nil.symm

/-- The scan of a module gives the trees of the outermost JSX nodes that are still to be looked at. -/
theorem rootsFrom_eq_giveAll (c : Cursor) :
    rootsFrom c = giveAll ((outermostAll c.pending).map (shape 0)) := by
  induction c using rootsFrom.induct with
  | case1 c ih =>
    rw [outermostAll_pending, List.map_append, giveAll_append, rootsFrom, rootAt_eq_giveAll]
    congr 1
    funext own
    split
    · next d h => rw [h, Option.elim_some, ih d h]
    · next h =>
      rw [h, Option.elim_none, outermostAll, List.map_nil, giveAll_nil, pure_bind, List.append_nil]

theorem rootsFrom_start (top : Node) :
    rootsFrom (.start top) = giveAll ((outermost top).map (shape 0)) := by
  have hp : (Cursor.start top).pending = [top] := rfl
  rw [rootsFrom_eq_giveAll, hp, outermostAll, outermostAll, List.append_nil]

theorem treeOf_single {top n : Node} (h : outermost top = [n]) :
    treeOf top = (give (shape 0 n)).run' 0 := by
  rw [treeOf, moduleTree, rootsFrom_start, h, List.map_singleton, giveAll_singleton]
  simp

theorem treeOf_several {top : Node} (h : 2 ≤ (outermost top).length) :
    treeOf top =
      (give ⟨"", rootTag, (outermost top).map (shape 0), some 0, none⟩).run' 0 := by
  obtain ⟨a, b, rest, hr⟩ : ∃ a b rest, outermost top = a :: b :: rest := by
    match outermost top, h with
    | a :: b :: rest, _ => exact ⟨a, b, rest, rfl⟩
  rw [treeOf, moduleTree, rootsFrom_start, hr, give_mk]
  congr 1
  funext n
  simp only [bind_apply, check_of_le (Nat.zero_le nestingLimit)]
  by_cases hd : deepestAll ((a :: b :: rest).map (shape 0)) ≤ nestingLimit
  · rw [giveAll_of_le hd]
    rfl
  · rw [giveAll_of_lt (Nat.lt_of_not_le hd)]

end MarkupNesting.Jsx
