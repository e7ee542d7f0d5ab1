import Mathlib.Order.Bounds.Basic
import Mathlib.Order.MinMax
import MarkupNesting.Tree.Binary

/-! The height of the binary form of a tree, found on the tree itself. The loop over the trees that
are pending comes to the number of links on the longest way down from the root of the binary form. -/

namespace MarkupNesting

namespace BinaryTree

mutual

def height : BinaryTree → Nat
  | ⟨_, _, left, right⟩ => max (linkHeight left) (linkHeight right)

def linkHeight : Option BinaryTree → Nat
  | none => 0
  | some b => b.height + 1

end

inductive Side where
  | left
  | right

def link (b : BinaryTree) : Side → Option BinaryTree
  | .left => b.left
  | .right => b.right

/-- The node that some links, one after another, lead to. -/
def follow : List Side → BinaryTree → Option BinaryTree
  | [], b => some b
  | side :: way, b => (b.link side).bind (follow way)

/-- Whether there are such links on the way down from a node. -/
def IsWay (b : BinaryTree) (way : List Side) : Prop := (follow way b).isSome = true

theorem isWay_nil (b : BinaryTree) : b.IsWay [] := rfl

theorem isWay_cons {b : BinaryTree} {side : Side} {way : List Side} :
    b.IsWay (side :: way) ↔ ∃ c, b.link side = some c ∧ c.IsWay way := by
  simp only [IsWay, follow]
  cases b.link side <;> simp

theorem height_lt_of_link {b c : BinaryTree} {side : Side} (h : b.link side = some c) :
    c.height < b.height := by
  obtain ⟨id, tag, left, right⟩ := b
  cases side <;> simp only [link] at h <;> simp [height, linkHeight, h]

theorem exists_link {b : BinaryTree} {n : Nat} (h : b.height = n + 1) :
    ∃ side c, b.link side = some c ∧ c.height = n := by
  obtain ⟨id, tag, left, right⟩ := b
  rw [height] at h
  rcases max_choice (linkHeight left) (linkHeight right) with hl | hr
  · rw [hl] at h
    cases left with
    | none => cases h
    | some c => exact ⟨.left, c, rfl, Nat.succ.inj h⟩
  · rw [hr] at h
    cases right with
    | none => cases h
    | some c => exact ⟨.right, c, rfl, Nat.succ.inj h⟩

theorem length_le_height {b : BinaryTree} {way : List Side} (h : b.IsWay way) :
    way.length ≤ b.height := by
  induction way generalizing b with
  | nil => exact Nat.zero_le _
  | cons side way ih =>
    obtain ⟨c, hc, hway⟩ := isWay_cons.mp h
    exact Nat.lt_of_le_of_lt (ih hway) (height_lt_of_link hc)

theorem exists_way {n : Nat} (b : BinaryTree) (h : b.height = n) :
    ∃ way, b.IsWay way ∧ way.length = n := by
  induction n generalizing b with
  | zero => exact ⟨[], b.isWay_nil, rfl⟩
  | succ n ih =>
    obtain ⟨side, c, hc, hn⟩ := exists_link h
    obtain ⟨way, hway, hlen⟩ := ih c hn
    exact ⟨side :: way, isWay_cons.mpr ⟨c, hc, hway⟩, by rw [List.length_cons, hlen]⟩

/-- The height of a binary tree is the length of the longest way down from its root. -/
theorem isGreatest_height (b : BinaryTree) :
    IsGreatest {n | ∃ way, b.IsWay way ∧ way.length = n} b.height := by
  refine ⟨b.exists_way rfl, ?_⟩
  rintro n ⟨way, hway, rfl⟩
  exact length_le_height hway

end BinaryTree

namespace Tree

open MarkupNesting.BinaryTree (linkHeight)

mutual

def formHeight : Tree → Nat
  | ⟨_, _, children, _, _⟩ => formHeightAll children

/-- The most links from a node down to what stands for some children and the nodes below them: they
hang one below another, the first of them below their parent. -/
def formHeightAll : List Tree → Nat
  | [] => 0
  | t :: ts => max t.formHeight (formHeightAll ts) + 1

end

mutual

theorem height_encodeFrom (n : Nat) : (t : Tree) → (t.encodeFrom n).1.height = t.formHeight
  | ⟨_, _, children, _, _⟩ => by
    have hc := linkHeight_encodeAll (n + 1) children
    simp only [encodeFrom, BinaryTree.height, linkHeight, formHeight, hc, Nat.max_zero]

theorem linkHeight_encodeAll (n : Nat) : (ts : List Tree) →
    linkHeight (encodeAll n ts).1 = formHeightAll ts
  | [] => rfl
  | ⟨_, tag, children, _, _⟩ :: ts => by
    have hc := linkHeight_encodeAll (n + 1) children
    have hts := linkHeight_encodeAll (encodeAll (n + 1) children).2 ts
    simp only [encodeAll, encodeFrom, linkHeight, BinaryTree.height, formHeight, formHeightAll, hc, hts]

end

/-- The greatest distance that a node of the pending trees has from the root in the binary form. -/
def reach : List (Nat × Tree) → Nat
  | [] => 0
  | (h, t) :: pending => max (h + t.formHeight) (reach pending)

theorem reach_le_reach_pend (h : Nat) (ts : List Tree) (pending : List (Nat × Tree)) :
    reach pending ≤ reach (pend h ts pending) := by
  induction ts generalizing h pending with
  | nil => exact Nat.le_refl _
  | cons t ts ih => exact (Nat.le_max_right _ _).trans (ih (h + 1) ((h, t) :: pending))

theorem reach_pend (h : Nat) (ts : List Tree) (pending : List (Nat × Tree)) :
    max h (reach (pend (h + 1) ts pending)) = max (h + formHeightAll ts) (reach pending) := by
  induction ts generalizing h pending with
  | nil => rfl
  | cons t ts ih =>
    have hpend := ih (h + 1) ((h + 1, t) :: pending)
    have hle := reach_le_reach_pend (h + 1 + 1) ts ((h + 1, t) :: pending)
    simp only [reach] at hpend hle
    simp only [pend, formHeightAll]
    omega

theorem heightFrom_eq (height : Nat) (pending : List (Nat × Tree)) :
    heightFrom height pending = max height (reach pending) := by
  induction height, pending using heightFrom.induct with
  | case1 height => rw [heightFrom, reach, Nat.max_zero]
  | case2 height h t pending ih =>
    have hform : t.formHeight = formHeightAll t.children := by
      cases t
      rfl
    have hpend := reach_pend h t.children pending
    rw [heightFrom, ih, reach, hform]
    omega

theorem encodedHeight_eq (t : Tree) : t.encodedHeight = t.formHeight := by
  rw [encodedHeight, heightFrom_eq, reach, reach]
  omega

theorem height_encode (t : Tree) : t.encode.height = t.encodedHeight := by
  rw [encodedHeight_eq, encode, height_encodeFrom]

/-- The height that is found on a tree is the number of links on the longest way down from the root
of its binary form, and the tree is turned down exactly if some way has more than the limit. -/
theorem height_before_encoding (t : Tree) :
    IsGreatest {n | ∃ way, t.encode.IsWay way ∧ way.length = n} t.encodedHeight ∧
      (checkHeight t = .error (.encodingTooDeep 2048) ↔
        ∃ way, t.encode.IsWay way ∧ 2048 < way.length) ∧
      (checkHeight t = .ok () ↔ ∀ way, t.encode.IsWay way → way.length ≤ 2048) := by
  have hgreatest := t.encode.isGreatest_height
  rw [height_encode] at hgreatest
  have hpast : (∃ way, t.encode.IsWay way ∧ 2048 < way.length) ↔ 2048 < t.encodedHeight := by
    constructor
    · rintro ⟨way, hway, hlen⟩
      exact hlen.trans_le (hgreatest.2 ⟨way, hway, rfl⟩)
    · intro h
      obtain ⟨way, hway, hlen⟩ := hgreatest.1
      exact ⟨way, hway, hlen ▸ h⟩
  have hwithin : (∀ way, t.encode.IsWay way → way.length ≤ 2048) ↔ ¬ 2048 < t.encodedHeight := by
    rw [← hpast]
    simp only [not_exists, not_and, not_lt]
  rw [hpast, hwithin]
  by_cases h : 2048 < t.encodedHeight
  · have hc : checkHeight t = .error (.encodingTooDeep 2048) := if_pos h
    exact ⟨hgreatest, by simp only [hc, h], by simp only [hc, h, not_true, reduceCtorEq]⟩
  · have hc : checkHeight t = .ok () := if_neg h
    exact ⟨hgreatest, by simp only [hc, h, reduceCtorEq], by simp only [hc, h, not_false_eq_true]⟩

end Tree

end MarkupNesting
