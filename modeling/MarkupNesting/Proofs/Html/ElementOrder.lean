import MarkupNesting.Proofs.Walk
import MarkupNesting.Proofs.WholeTree

/-! The nodes of a tree and the elements of the body it comes from. A common root and the table
bodies that rows imply apart, the nodes are the elements in their order, each with its tag and
attributes. -/

namespace MarkupNesting

namespace Tree

mutual

/-- The tags of the nodes of a tree and the attributes recorded there, parents first. -/
def labels : Tree → List (String × Option Attributes)
  | ⟨_, tag, children, _, attributes⟩ => (tag, attributes) :: labelsAll children

def labelsAll : List Tree → List (String × Option Attributes)
  | [] => []
  | t :: ts => t.labels ++ labelsAll ts

end

theorem labels_mk (id tag : String) (children : List Tree) (depth : Option Nat)
    (attributes : Option Attributes) :
    labels ⟨id, tag, children, depth, attributes⟩ = (tag, attributes) :: labelsAll children := rfl

theorem labelsAll_eq_flatMap (ts : List Tree) : labelsAll ts = ts.flatMap labels := by
  induction ts with
  | nil => rfl
  | cons t ts ih => rw [labelsAll, ih, List.flatMap_cons]

theorem labelsAll_append (ss ts : List Tree) :
    labelsAll (ss ++ ts) = labelsAll ss ++ labelsAll ts := by
  simp [labelsAll_eq_flatMap]

mutual

theorem labels_named (n : Nat) : (t : Tree) → (t.named n).labels = t.labels
  | ⟨_, _, children, _, _⟩ => by simp only [named, labels, labelsAll_namedAll n children]

theorem labelsAll_namedAll (n : Nat) : (ts : List Tree) → labelsAll (namedAll n ts) = labelsAll ts
  | [] => rfl
  | t :: ts => by
    simp only [namedAll, labelsAll, labels_named n t, labelsAll_namedAll (n + t.count) ts]

end

mutual

theorem map_walk (level : Nat) (above : List String) : (t : Tree) →
    (t.walk level above).map (fun v => (v.node.tag, v.node.attributes)) = t.labels
  | ⟨_, tag, children, _, _⟩ => by
    simp only [walk, labels, List.map_cons, map_walkAll (level + 1) (above ++ [tag]) children]

theorem map_walkAll (level : Nat) (above : List String) : (ts : List Tree) →
    (walkAll level above ts).map (fun v => (v.node.tag, v.node.attributes)) = labelsAll ts
  | [] => rfl
  | t :: ts => by
    simp only [walkAll, labelsAll, List.map_append, map_walk level above t,
      map_walkAll level above ts]

end

end Tree

namespace Html

open MarkupNesting.Tree

mutual

/-- An element and those that it holds, in the order of their opening tags. What does not fit inside
an element is left out. -/
def elementsWithin : Node → List Node
  | ⟨kind, text, children⟩ => ⟨kind, text, children⟩ :: elementsAmong children

def elementsAmong : List Node → List Node
  | [] => []
  | n :: ns => if n.isElement then elementsWithin n ++ elementsAmong ns else elementsAmong ns

end

def bodyElements (document : Node) : List Node := (Body.elements document).flatMap elementsWithin

def Node.label (n : Node) : String × Option Attributes := (n.tag, n.attributes)

variable {p : String → Bool}

theorem labelsAll_rowsShape (hp : p "tbody" = false) (depth : Nat) (rows : List Tree) :
    (labelsAll (rowsShape depth rows)).filter (p ·.1) = (labelsAll rows).filter (p ·.1) := by
  cases rows with
  | nil => rfl
  | cons r rs => simp [rowsShape, labelsAll, labels_mk, hp]

mutual

/-- A property of tags that an implied body does not have leaves the same of both. -/
theorem labels_shape (hp : p "tbody" = false) (depth : Nat) : (n : Node) →
    (shape depth n).labels.filter (p ·.1) = ((elementsWithin n).map Node.label).filter (p ·.1)
  | ⟨kind, text, children⟩ => by
    have h := labelsAll_shapes hp ((⟨kind, text, children⟩ : Node).tag = "table") depth [] children
    rw [shape_mk, labels_mk, elementsWithin, List.map_cons, List.filter_cons, List.filter_cons, h]
    rfl

/-- The rows of a run that is under way come first. -/
theorem labelsAll_shapes (hp : p "tbody" = false) (table : Bool) (depth : Nat) :
    (rows : List Tree) → (ns : List Node) →
    (labelsAll (shapes table depth rows ns)).filter (p ·.1) =
      (labelsAll rows).filter (p ·.1) ++ ((elementsAmong ns).map Node.label).filter (p ·.1)
  | rows, [] => by simp [shapes, elementsAmong, labelsAll_rowsShape hp]
  | rows, n :: ns => by
    rw [shapes, elementsAmong]
    by_cases he : n.isElement = true
    · by_cases hr : (table && n.tag = "tr") = true
      · have ht := labels_shape hp (depth + 2) n
        have hs := labelsAll_shapes hp table depth (rows ++ [shape (depth + 2) n]) ns
        simp [he, hr, hs, labelsAll_append, labelsAll, ht]
      · have ht := labels_shape hp (depth + 1) n
        have hs := labelsAll_shapes hp table depth [] ns
        simp [he, hr, hs, labelsAll_append, labelsAll, ht, labelsAll_rowsShape hp]
    · simp [he, labelsAll_shapes hp table depth rows ns]

end

theorem labelsAll_map_shape (hp : p "tbody" = false) (depth : Nat) (ns : List Node) :
    (labelsAll (ns.map (shape depth))).filter (p ·.1) =
      ((ns.flatMap elementsWithin).map Node.label).filter (p ·.1) := by
  induction ns with
  | nil => rfl
  | cons n ns ih => simp [labelsAll, labels_shape hp, ih]

theorem labels_wholeTree {document : Node} {t : Tree} (h : wholeTree document = some t)
    (hp : p "tbody" = false) (hr : p rootTag = false) :
    t.labels.filter (p ·.1) = ((bodyElements document).map Node.label).filter (p ·.1) := by
  rw [bodyElements, ← labelsAll_map_shape hp 1]
  obtain ⟨n, hn, rfl⟩ | ⟨-, rfl⟩ := wholeTree_cases h
  · simp [hn, labels_named, labelsAll, labels_shape hp]
  · simp [labels_mk, labelsAll_namedAll, hr]

end Html

end MarkupNesting
