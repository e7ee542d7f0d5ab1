import MarkupNesting.Proofs.DepthStatistics
import MarkupNesting.Proofs.EncodedHeight
import MarkupNesting.Tree.Size

/-! Three measures of a tree bound one another: the distance of its deepest node from the root is at
most the height of its binary form, and this is less than the number of its nodes. Both bounds are
reached where no node has more than one child. So a tree with few nodes always passes the limit on
the height, and every tree that passes it keeps to the same limit in depth. -/

namespace MarkupNesting.Tree

mutual

theorem height_le_formHeight : (t : Tree) → t.height ≤ t.formHeight
  | ⟨_, _, children, _, _⟩ => heightBelow_le_formHeightAll children

theorem heightBelow_le_formHeightAll : (ts : List Tree) → heightBelow ts ≤ formHeightAll ts
  | [] => Nat.le_refl 0
  | t :: ts => by
    have ht := height_le_formHeight t
    have hts := heightBelow_le_formHeightAll ts
    rw [heightBelow, formHeightAll]
    omega

end

mutual

/-- The links on a way down the binary form lead to nodes that differ from one another and from the
root: past a child come either nodes of its own subtree or its later siblings and what is below them. -/
theorem formHeight_lt_count : (t : Tree) → t.formHeight < t.count
  | ⟨_, _, children, _, _⟩ => Nat.lt_succ_of_le (formHeightAll_le_countAll children)

theorem formHeightAll_le_countAll : (ts : List Tree) → formHeightAll ts ≤ countAll ts
  | [] => Nat.le_refl 0
  | t :: ts => by
    have ht := formHeight_lt_count t
    have hts := formHeightAll_le_countAll ts
    rw [formHeightAll, countAll]
    omega

end

mutual

theorem count_le_succ_height {level : Nat} {above : List String} : (t : Tree) →
    (∀ v ∈ t.walk level above, v.node.children.length ≤ 1) → t.count ≤ t.height + 1
  | ⟨_, _, children, _, _⟩, h => by
    rw [walk, List.forall_mem_cons] at h
    exact Nat.succ_le_succ (countAll_le_heightBelow children h.1 h.2)

theorem countAll_le_heightBelow {level : Nat} {above : List String} : (ts : List Tree) →
    ts.length ≤ 1 → (∀ v ∈ walkAll level above ts, v.node.children.length ≤ 1) →
    countAll ts ≤ heightBelow ts
  | [], _, _ => Nat.le_refl 0
  | t :: ts, hlen, h => by
    obtain rfl : ts = [] := by simpa using hlen
    rw [walkAll, walkAll, List.append_nil] at h
    have ht := count_le_succ_height t h
    rw [countAll, countAll, heightBelow]
    exact ht.trans (Nat.le_max_left _ _)

end

theorem checkHeight_eq_ok_iff {t : Tree} : checkHeight t = .ok () ↔ t.encodedHeight ≤ heightLimit := by
  rw [checkHeight]
  split
  · next h => simp [Nat.not_le.mpr h]
  · next h => simp [Nat.le_of_not_lt h]

/-- The greatest depth of a tree is at most the height of its binary form, which is less than the
number of its nodes; where no node has more than one child, all three are as close as this allows.
So a tree of at most 2049 nodes is never turned down, and one that passes is at most 2048 levels deep. -/
theorem measures_ordered (t : Tree) :
    (Statistics.ofTree t).maxDepth ≤ t.encodedHeight ∧
      t.encodedHeight + 1 ≤ t.nodeCount ∧
      ((∀ v ∈ t.walk 0 [], v.node.children.length ≤ 1) →
        (Statistics.ofTree t).maxDepth = t.encodedHeight ∧ t.encodedHeight + 1 = t.nodeCount) ∧
      (t.nodeCount ≤ 2049 → checkHeight t = .ok ()) ∧
      (checkHeight t = .ok () → (Statistics.ofTree t).maxDepth ≤ 2048) := by
  have hlow := height_le_formHeight t
  have hhigh := formHeight_lt_count t
  rw [checkHeight_eq_ok_iff, Statistics.ofTree_maxDepth, encodedHeight_eq, nodeCount_eq]
  refine ⟨hlow, hhigh, ?_, ?_, hlow.trans⟩
  · -- the outer two measures meet, and the height of the binary form lies between them
    intro h
    have hmeet := count_le_succ_height t h
    omega
  · intro h
    exact Nat.le_of_lt_succ (hhigh.trans_le h)

/-- A link in an item, and a list with three items. -/
theorem measures_ordered_items :
    let link : Tree := ⟨"", "a", [], none, none⟩
    let item : Tree := ⟨"", "li", [link], none, none⟩
    let single : Tree := ⟨"", "ul", [item], none, none⟩
    let several : Tree := ⟨"", "ul", [item, ⟨"", "li", [], none, none⟩, item], none, none⟩
    ((∀ v ∈ single.walk 0 [], v.node.children.length ≤ 1) ∧
        (Statistics.ofTree single).maxDepth = single.encodedHeight ∧
        single.encodedHeight + 1 = single.nodeCount) ∧
      several.nodeCount ≤ 2049 ∧ checkHeight several = .ok () ∧
      (Statistics.ofTree several).maxDepth ≤ 2048 := by
  intro link item single several
  have hsingle : ∀ v ∈ single.walk 0 [], v.node.children.length ≤ 1 := by decide
  have hcount : several.nodeCount ≤ 2049 := by
    rw [nodeCount_eq]
    decide
  obtain ⟨-, -, hequal, -, -⟩ := measures_ordered single
  obtain ⟨-, -, -, hpasses, hdepth⟩ := measures_ordered several
  have hok := hpasses hcount
  exact ⟨⟨hsingle, hequal hsingle⟩, hcount, hok, hdepth hok⟩

end MarkupNesting.Tree
