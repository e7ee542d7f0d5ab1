import MarkupNesting.Numbering
import MarkupNesting.Tree

/-! Trees as binary trees: the left link of a node leads to its first child, the right link to its
next sibling. -/

namespace MarkupNesting

structure BinaryTree where
  id : String
  tag : String
  left : Option BinaryTree
  right : Option BinaryTree

namespace BinaryTree

mutual

def decEq : (s t : BinaryTree) → Decidable (s = t)
  | ⟨i, g, l, r⟩, ⟨j, h, m, q⟩ =>
    if h1 : i = j ∧ g = h then
      match decEqLink l m, decEqLink r q with
      | .isTrue h2, .isTrue h3 => .isTrue (by simp [h1, h2, h3])
      | .isFalse h2, _ => .isFalse (by simp [h2])
      | _, .isFalse h3 => .isFalse (by simp [h3])
    else .isFalse fun h => h1 (by simp only [mk.injEq] at h; simp [h])

def decEqLink : (s t : Option BinaryTree) → Decidable (s = t)
  | none, none => .isTrue rfl
  | none, some _ => .isFalse (by simp)
  | some _, none => .isFalse (by simp)
  | some s, some t =>
    match decEq s t with
    | .isTrue h => .isTrue (by simp [h])
    | .isFalse h => .isFalse (by simp [h])

end

instance : DecidableEq BinaryTree := decEq

mutual

def count : BinaryTree → Nat
  | ⟨_, _, left, right⟩ => countLink left + countLink right + 1

def countLink : Option BinaryTree → Nat
  | none => 0
  | some b => b.count

end

mutual

/-- The nodes in the order node, left subtree, right subtree. -/
def nodes : BinaryTree → List BinaryTree
  | ⟨id, tag, left, right⟩ => ⟨id, tag, left, right⟩ :: (nodesOf left ++ nodesOf right)

def nodesOf : Option BinaryTree → List BinaryTree
  | none => []
  | some b => b.nodes

end

mutual

def chain : BinaryTree → List BinaryTree
  | ⟨id, tag, left, right⟩ => ⟨id, tag, left, right⟩ :: chainOf right

def chainOf : Option BinaryTree → List BinaryTree
  | none => []
  | some b => b.chain

end

/-- The nodes that stand for the children of a node: its left link and the chain from there. -/
def children (b : BinaryTree) : List BinaryTree := chainOf b.left

end BinaryTree

namespace Tree

mutual

/-- The binary form of a tree whose first node gets the number `n`, and the number after the last. -/
def encodeFrom (n : Nat) : Tree → BinaryTree × Nat
  | ⟨_, tag, children, _, _⟩ =>
    let (left, next) := encodeAll (n + 1) children
    (⟨nameIn "bn" n, tag, left, none⟩, next)

def encodeAll (n : Nat) : List Tree → Option BinaryTree × Nat
  | [] => (none, n)
  | t :: ts =>
    let (b, next) := encodeFrom n t
    let (right, last) := encodeAll next ts
    (some { b with right }, last)

end

def encode (t : Tree) : BinaryTree := (encodeFrom 0 t).1

/-- Puts children in front of the trees that are pending, the last of them first. Every child stands
a link further away than the one before. -/
def pend (h : Nat) : List Tree → List (Nat × Tree) → List (Nat × Tree)
  | [], pending => pending
  | t :: ts, pending => pend (h + 1) ts ((h, t) :: pending)

theorem countAll_pend (h : Nat) (ts : List Tree) (pending : List (Nat × Tree)) :
    countAll ((pend h ts pending).map (·.2)) = countAll ts + countAll (pending.map (·.2)) := by
  induction ts generalizing h pending with
  | nil => simp [pend, countAll]
  | cons t ts ih =>
    simp only [pend, ih, List.map_cons, countAll]
    omega

/-- The greatest distance of a node from the root of the binary form: `height` among those that have
been seen, and every pending tree comes with the distance of its root. -/
def heightFrom (height : Nat) : List (Nat × Tree) → Nat
  | [] => height
  | (h, t) :: pending => heightFrom (max height h) (pend (h + 1) t.children pending)
termination_by pending => countAll (pending.map (·.2))
decreasing_by
  obtain ⟨id, tag, children, depth, attributes⟩ := t
  simp [countAll_pend, countAll, count]

def encodedHeight (t : Tree) : Nat := heightFrom 0 [(0, t)]

end Tree

/-- The most links there may be on a path of a binary tree. -/
def heightLimit : Nat := 2048

def checkHeight (t : Tree) : Except Failure Unit :=
  if heightLimit < t.encodedHeight then .error (.encodingTooDeep heightLimit) else .ok ()

end MarkupNesting
