import MarkupNesting.Proofs.Naming
import MarkupNesting.Tree.Binary

/-! Nothing is lost in the binary form of a tree: its links give back the children of every node in
order, and every binary tree without a right link at the root is the form of some tree. -/

namespace MarkupNesting

namespace BinaryTree

mutual

def unnamed : BinaryTree → BinaryTree
  | ⟨_, tag, left, right⟩ => ⟨"", tag, unnamedLink left, unnamedLink right⟩

def unnamedLink : Option BinaryTree → Option BinaryTree
  | none => none
  | some b => some b.unnamed

end

theorem chainOf_some (b : BinaryTree) : chainOf (some b) = b :: chainOf b.right := by
  cases b
  rfl

theorem count_le_of_mem_chainOf {c : BinaryTree} :
    {link : Option BinaryTree} → c ∈ chainOf link → c.count ≤ countLink link
  | none, h => by simp [chainOf] at h
  | some ⟨id, tag, left, right⟩, h => by
    rw [chainOf_some, List.mem_cons] at h
    rcases h with h | h
    · exact Nat.le_of_eq (congrArg count h)
    · have hr : c.count ≤ countLink right := count_le_of_mem_chainOf h
      simp only [countLink, count]
      omega

theorem count_lt_of_mem_children {b c : BinaryTree} (h : c ∈ b.children) : c.count < b.count := by
  obtain ⟨id, tag, left, right⟩ := b
  have hc : c.count ≤ countLink left := count_le_of_mem_chainOf h
  simp only [count]
  omega

/-- The tree that a binary tree is the form of: the nodes that its links lead to are read as the
children of every node. -/
def decode (b : BinaryTree) : Tree :=
  ⟨"", b.tag, b.children.attach.map fun c => decode c.1, none, none⟩
termination_by b.count
decreasing_by exact count_lt_of_mem_children c.2

theorem decode_eq (b : BinaryTree) : b.decode = ⟨"", b.tag, b.children.map decode, none, none⟩ := by
  rw [decode, List.attach_map_val]

theorem decode_mk (id tag : String) (left right : Option BinaryTree) :
    decode ⟨id, tag, left, right⟩ = ⟨"", tag, (chainOf left).map decode, none, none⟩ :=
  decode_eq _

/-- Where the right link of a node leads has no part in what the node stands for. -/
theorem decode_with_right (b : BinaryTree) (right : Option BinaryTree) :
    decode { b with right } = b.decode := by
  rw [decode_eq, decode_eq]
  rfl

end BinaryTree

namespace Tree

open MarkupNesting.BinaryTree

theorem encodeFrom_right (n : Nat) (t : Tree) : (t.encodeFrom n).1.right = none := by
  cases t
  rfl

mutual

theorem decode_encodeFrom (n : Nat) : (t : Tree) → (t.encodeFrom n).1.decode = t.plain
  | ⟨_, _, children, _, _⟩ => by
    simp only [encodeFrom, decode_mk, plain, decode_encodeAll (n + 1) children]

theorem decode_encodeAll (n : Nat) :
    (ts : List Tree) → (chainOf (encodeAll n ts).1).map decode = plainAll ts
  | [] => rfl
  | t :: ts => by
    have ht := decode_encodeFrom n t
    have hts := decode_encodeAll (t.encodeFrom n).2 ts
    simp only [encodeAll, chainOf_some, List.map_cons, decode_with_right, plainAll, ht, hts]

end

theorem unnamed_encodeAll_decode : (link : Option BinaryTree) → (n : Nat) →
    unnamedLink (encodeAll n ((chainOf link).map decode)).1 = unnamedLink link
  | none, _ => rfl
  | some ⟨_, _, left, right⟩, n => by
    have hl := unnamed_encodeAll_decode left (n + 1)
    have hr := fun m => unnamed_encodeAll_decode right m
    simp only [chainOf_some, List.map_cons, decode_mk, encodeAll, encodeFrom, unnamedLink, unnamed,
      hl, hr]

theorem unnamed_encode_decode {b : BinaryTree} (h : b.right = none) :
    b.decode.encode.unnamed = b.unnamed := by
  obtain ⟨id, tag, left, right⟩ := b
  have hl := unnamed_encodeAll_decode left 1
  simp only at h
  simp only [decode_mk, encode, encodeFrom, unnamed, hl, h]

/-- A tree is what its binary form stands for, and a binary tree without a right link at the root is
the form of what it stands for. -/
theorem encode_lossless :
    (∀ t : Tree, t.encode.decode = t.plain ∧ t.encode.right = none) ∧
      ∀ b : BinaryTree, b.right = none → b.decode.encode.unnamed = b.unnamed := by
  refine ⟨fun t => ⟨decode_encodeFrom 0 t, encodeFrom_right 0 t⟩, ?_⟩
  intro b h
  exact unnamed_encode_decode h

/-- A list with an item that holds a link, and a line after the item. -/
theorem encode_lossless_siblings :
    let b : BinaryTree := ⟨"u", "ul", some ⟨"v", "li", some ⟨"w", "a", none, none⟩,
      some ⟨"x", "hr", none, none⟩⟩, none⟩
    b.right = none ∧ b.decode.encode.unnamed = b.unnamed :=
  ⟨rfl, encode_lossless.2 _ rfl⟩

end Tree

end MarkupNesting
