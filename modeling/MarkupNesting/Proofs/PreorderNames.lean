import MarkupNesting.Proofs.DepthStatistics
import MarkupNesting.Proofs.SiblingEncoding
import MarkupNesting.Tree.Size

/-! The nodes of the binary form of a tree, each before its left and then its right subtree. They
are named in this order without gaps, and they are the nodes of the tree in its own order, parents
first; whoever counts the nodes finds as many. -/

namespace MarkupNesting

namespace BinaryTree

mutual

theorem length_nodes : (b : BinaryTree) → b.nodes.length = b.count
  | ⟨_, _, left, right⟩ => by
    rw [nodes, count, List.length_cons, List.length_append, length_nodesOf left, length_nodesOf right]

theorem length_nodesOf : (link : Option BinaryTree) → (nodesOf link).length = countLink link
  | none => rfl
  | some b => length_nodes b

end

theorem map_nodes_with_right {α : Type} {f : BinaryTree → α} {b : BinaryTree} (hb : b.right = none)
    (right : Option BinaryTree) (hf : f { b with right } = f b) :
    ({ b with right } : BinaryTree).nodes.map f = b.nodes.map f ++ (nodesOf right).map f := by
  obtain ⟨id, tag, left, _⟩ := b
  obtain rfl := hb
  simp [nodes, nodesOf, hf]

end BinaryTree

namespace Tree

open MarkupNesting.BinaryTree

mutual

/-- The names in a binary form are a run of numbers, and the number that is handed on comes next. -/
theorem names_encodeFrom (n : Nat) : (t : Tree) →
    (t.encodeFrom n).1.nodes.map BinaryTree.id = (List.range' n t.count).map (nameIn "bn") ∧
      (t.encodeFrom n).2 = n + t.count
  | ⟨_, _, children, _, _⟩ => by
    obtain ⟨hids, hnext⟩ := names_encodeAll (n + 1) children
    constructor
    · simp only [encodeFrom, nodes, nodesOf, List.append_nil, List.map_cons, hids, count,
        List.range'_succ]
    · simp only [encodeFrom, hnext, count]
      omega

theorem names_encodeAll (n : Nat) : (ts : List Tree) →
    (nodesOf (encodeAll n ts).1).map BinaryTree.id = (List.range' n (countAll ts)).map (nameIn "bn") ∧
      (encodeAll n ts).2 = n + countAll ts
  | [] => ⟨rfl, rfl⟩
  | t :: ts => by
    obtain ⟨hids, hnext⟩ := names_encodeFrom n t
    obtain ⟨hidsAll, hnextAll⟩ := names_encodeAll (n + t.count) ts
    have hright := map_nodes_with_right (f := BinaryTree.id) (encodeFrom_right n t)
      (encodeAll (n + t.count) ts).1 rfl
    simp only [encodeAll, countAll, hnext, nodesOf]
    constructor
    · rw [hright, hids, hidsAll, ← List.map_append, List.range'_append_1]
    · rw [hnextAll, Nat.add_assoc]

end

mutual

theorem tags_encodeFrom (n level : Nat) (above : List String) : (t : Tree) →
    (t.encodeFrom n).1.nodes.map BinaryTree.tag = (t.walk level above).map (·.node.tag)
  | ⟨_, tag, children, _, _⟩ => by
    have h := tags_encodeAll (n + 1) (level + 1) (above ++ [tag]) children
    simp only [encodeFrom, nodes, nodesOf, List.append_nil, List.map_cons, h, walk]

theorem tags_encodeAll (n level : Nat) (above : List String) : (ts : List Tree) →
    (nodesOf (encodeAll n ts).1).map BinaryTree.tag = (walkAll level above ts).map (·.node.tag)
  | [] => rfl
  | t :: ts => by
    have ht := tags_encodeFrom n level above t
    have hts := tags_encodeAll (t.encodeFrom n).2 level above ts
    have hright := map_nodes_with_right (f := BinaryTree.tag) (encodeFrom_right n t)
      (encodeAll (t.encodeFrom n).2 ts).1 rfl
    simp only [encodeAll, nodesOf, walkAll, List.map_append]
    rw [hright, ht, hts]

end

/-- A binary form has the nodes of its tree, in the same order, and is named in this order, each
node by a name of its own. The node counts of both and the statistics of the tree tell how many they
are. -/
theorem encode_preorder (t : Tree) :
    let n := (t.walk 0 []).length
    t.encode.nodes.length = n ∧
      t.encode.nodes.map BinaryTree.id = firstNames "bn" n ∧
      t.encode.nodes.map BinaryTree.id = (List.range n).map (fun k => "bn-" ++ toString k) ∧
      (t.encode.nodes.map BinaryTree.id).Nodup ∧
      t.encode.nodes.map BinaryTree.tag = (t.walk 0 []).map (·.node.tag) ∧
      t.nodeCount = n ∧ t.encode.nodeCount = n ∧ (Statistics.ofTree t).totalNodes = n := by
  intro n
  have hn : n = t.count := length_walk 0 [] t
  have hids : t.encode.nodes.map BinaryTree.id = firstNames "bn" n := by
    rw [encode, (names_encodeFrom 0 t).1, firstNames, List.range_eq_range', hn]
  have htags := tags_encodeFrom 0 0 [] t
  have hlength : t.encode.nodes.length = n := by
    rw [← List.length_map BinaryTree.tag, encode, htags, List.length_map]
  refine ⟨hlength, hids, hids.trans (firstNames_eq "bn" n), ?_, htags, t.nodeCount_eq.trans hn.symm, ?_,
    ?_⟩
  · rw [hids]
    exact firstNames_nodup "bn" n
  · rw [BinaryTree.nodeCount_eq, ← length_nodes, hlength]
  · rw [Statistics.ofTree_totalNodes, hn]

/-- A list with an item that holds a link, another item, and a line. -/
theorem encode_preorder_list :
    let leaf (tag : String) : Tree := ⟨"", tag, [], none, none⟩
    let item : Tree := ⟨"", "li", [leaf "a"], none, none⟩
    let list : Tree := ⟨"", "ul", [item, leaf "li", leaf "hr"], none, none⟩
    list.encode.nodes.map BinaryTree.id = ["bn-0", "bn-1", "bn-2", "bn-3", "bn-4"] ∧
      list.encode.nodes.map BinaryTree.tag = ["ul", "li", "a", "li", "hr"] ∧
      list.nodeCount = 5 ∧ list.encode.nodeCount = 5 ∧ (Statistics.ofTree list).totalNodes = 5 := by
  intro leaf item list
  obtain ⟨-, -, hids, -, htags, hcount, hencoded, htotal⟩ := list.encode_preorder
  refine ⟨hids.trans ?_, htags, hcount, hencoded, htotal⟩
  decide

end Tree

end MarkupNesting
