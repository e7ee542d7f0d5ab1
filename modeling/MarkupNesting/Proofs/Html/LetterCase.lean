import MarkupNesting.Proofs.Html.BodySelection
import MarkupNesting.Proofs.Html.LoweredDocument
import MarkupNesting.Proofs.Html.OpenTag
import MarkupNesting.Proofs.WholeTree

/-! The case of letters in HTML. It matters to nothing but the values of attributes: a source in
lower case fails as the source does, or has the same tree with the same names of attributes. -/

namespace MarkupNesting

namespace Attributes

def withoutValue (e : String × String) : String × String := (e.1, "")

def withoutValues (a : Attributes) : Attributes :=
  ⟨a.entries.map withoutValue, a.sorted.map withoutValue fun _ _ h => h⟩

theorem map_insertEntry (name value : String) (es : List (String × String)) :
    (insertEntry (fun old _ => old) name value es).map withoutValue =
      insertEntry (fun old _ => old) name "" (es.map withoutValue) := by
  induction es with
  | nil => rfl
  | cons e es ih =>
    simp only [insertEntry, List.map_cons, withoutValue]
    split
    · rfl
    · split
      · simp only [List.map_cons, withoutValue, ih]
      · rfl

theorem foldl_withoutValues (es : List (String × String)) (a : Attributes) :
    (es.foldl (fun a e => a.addFirst e.1 e.2) a).withoutValues =
      (es.map withoutValue).foldl (fun a e => a.addFirst e.1 e.2) a.withoutValues := by
  induction es generalizing a with
  | nil => rfl
  | cons e es ih =>
    have h : (a.addFirst e.1 e.2).withoutValues = a.withoutValues.addFirst e.1 "" :=
      ext_entries (map_insertEntry e.1 e.2 a.entries)
    rw [List.foldl_cons, ih, h]
    rfl

/-- Which names a map has is for the names to say. -/
theorem ofFirst_withoutValues (es : List (String × String)) :
    (ofFirst es).withoutValues = ofFirst (es.map withoutValue) := foldl_withoutValues es empty

end Attributes

namespace Tree

mutual

/-- A tree with the names of its attributes, but without their values. -/
def withoutValues : Tree → Tree
  | ⟨id, tag, children, depth, attributes⟩ =>
    ⟨id, tag, withoutValuesAll children, depth, attributes.map Attributes.withoutValues⟩

def withoutValuesAll : List Tree → List Tree
  | [] => []
  | t :: ts => t.withoutValues :: withoutValuesAll ts

end

theorem withoutValuesAll_eq_map (ts : List Tree) : withoutValuesAll ts = ts.map withoutValues := by
  induction ts with
  | nil => rfl
  | cons t ts ih => rw [withoutValuesAll, ih, List.map_cons]

mutual

theorem count_withoutValues : (t : Tree) → t.withoutValues.count = t.count
  | ⟨_, _, children, _, _⟩ => by simp only [withoutValues, count, countAll_withoutValuesAll children]

theorem countAll_withoutValuesAll : (ts : List Tree) → countAll (withoutValuesAll ts) = countAll ts
  | [] => rfl
  | t :: ts => by
    simp only [withoutValuesAll, countAll, count_withoutValues t, countAll_withoutValuesAll ts]

end

mutual

theorem deepest_withoutValues : (t : Tree) → t.withoutValues.deepest = t.deepest
  | ⟨_, _, children, _, _⟩ => by
    simp only [withoutValues, deepest, deepestAll_withoutValuesAll children]

theorem deepestAll_withoutValuesAll : (ts : List Tree) →
    deepestAll (withoutValuesAll ts) = deepestAll ts
  | [] => rfl
  | t :: ts => by
    simp only [withoutValuesAll, deepestAll, deepest_withoutValues t, deepestAll_withoutValuesAll ts]

end

mutual

theorem withoutValues_named (n : Nat) : (t : Tree) →
    (t.named n).withoutValues = t.withoutValues.named n
  | ⟨_, _, children, _, _⟩ => by
    simp only [named, withoutValues, countAll_withoutValuesAll, withoutValuesAll_namedAll n children]

theorem withoutValuesAll_namedAll (n : Nat) : (ts : List Tree) →
    withoutValuesAll (namedAll n ts) = namedAll n (withoutValuesAll ts)
  | [] => rfl
  | t :: ts => by
    simp only [namedAll, withoutValuesAll, withoutValues_named n t, count_withoutValues,
      withoutValuesAll_namedAll (n + t.count) ts]

end

end Tree

open MarkupNesting.Tree

theorem map_withinLimit (t : Tree) :
    (withinLimit t).map Tree.withoutValues = withinLimit t.withoutValues := by
  rw [withinLimit, withinLimit, deepest_withoutValues]
  split <;> rfl

namespace Html

namespace Node

@[simp] theorem lowered_kind (n : Node) : n.lowered.kind = n.kind := by
  cases n
  rfl

@[simp] theorem lowered_text (n : Node) : n.lowered.text = lower n.text := by
  cases n
  rfl

@[simp] theorem lowered_children (n : Node) : n.lowered.children = n.children.map lowered := by
  cases n
  simp

@[simp] theorem isElement_lowered (n : Node) : n.lowered.isElement = n.isElement := by
  simp [isElement]

theorem openTag_lowered (n : Node) : n.lowered.openTag = n.openTag.map lowered := by
  simp [openTag, List.find?_map]

@[simp] theorem tag_lowered (n : Node) : n.lowered.tag = n.tag := by
  rw [tag, tag, openTag_lowered]
  cases n.openTag with
  | none => rfl
  | some t => cases h : t.children <;> simp [h]

theorem addPart_lowered (found : Option String × String) (v : String) (part : Node) :
    (addPart (found.1, v) part.lowered).1 = (addPart found part).1 := by
  cases hk : part.kind <;> simp [addPart, hk]

theorem foldl_addPart_lowered (parts : List Node) (found : Option String × String) (v : String) :
    ((parts.map lowered).foldl addPart (found.1, v)).1 = (parts.foldl addPart found).1 := by
  induction parts generalizing found v with
  | nil => rfl
  | cons part parts ih =>
    have h := addPart_lowered found v part
    rw [List.map_cons, List.foldl_cons, List.foldl_cons, ← ih (addPart found part)
      (addPart (found.1, v) part.lowered).2, ← h]

/-- The name of an attribute is told in lower case; its value is not. -/
theorem namedValue_lowered (n : Node) :
    n.lowered.namedValue.map Attributes.withoutValue = n.namedValue.map Attributes.withoutValue := by
  have h := foldl_addPart_lowered n.children (none, "") ""
  rw [namedValue, namedValue, lowered_children]
  dsimp only at h ⊢
  rw [Option.map_map, Option.map_map, h]
  rfl

theorem namedValues_lowered (n : Node) :
    n.lowered.namedValues.map Attributes.withoutValue = n.namedValues.map Attributes.withoutValue := by
  rw [namedValues, namedValues, openTag_lowered]
  cases n.openTag with
  | none => rfl
  | some t =>
    simp [List.filter_map, List.filterMap_map, List.map_filterMap, Function.comp_def,
      namedValue_lowered]

theorem attributes_lowered (n : Node) :
    n.lowered.attributes.map Attributes.withoutValues = n.attributes.map Attributes.withoutValues := by
  have h := congrArg Attributes.ofFirst (namedValues_lowered n)
  rw [← Attributes.ofFirst_withoutValues, ← Attributes.ofFirst_withoutValues] at h
  have he : (Attributes.ofFirst n.lowered.namedValues).isEmpty =
      (Attributes.ofFirst n.namedValues).isEmpty := by
    have hl := congrArg List.isEmpty (namedValues_lowered n)
    simpa [Attributes.isEmpty_ofFirst] using hl
  rw [attributes, attributes, he]
  split
  · rfl
  · exact congrArg some h

end Node

mutual

theorem withoutValues_shape (depth : Nat) : (n : Node) →
    (shape depth n.lowered).withoutValues = (shape depth n).withoutValues
  | ⟨kind, text, children⟩ => by
    have hs := withoutValuesAll_shapes ((⟨kind, text, children⟩ : Node).tag = "table") depth children
      [] [] rfl
    have ha := (⟨kind, text, children⟩ : Node).attributes_lowered
    have ht := (⟨kind, text, children⟩ : Node).tag_lowered
    rw [shape_mk, shape_mk, withoutValues, withoutValues, ht, ha, Node.lowered_children, hs]

theorem withoutValuesAll_shapes (table : Bool) (depth : Nat) : (ns : List Node) →
    (rows lowRows : List Tree) → withoutValuesAll lowRows = withoutValuesAll rows →
    withoutValuesAll (shapes table depth lowRows (ns.map Node.lowered)) =
      withoutValuesAll (shapes table depth rows ns)
  | [], rows, lowRows, h => withoutValuesAll_rowsShape (depth + 1) h
  | n :: ns, rows, lowRows, h => by
    rw [List.map_cons, shapes, shapes, Node.isElement_lowered, Node.tag_lowered]
    split
    · exact withoutValuesAll_shapes table depth ns rows lowRows h
    · split
      · have hn := withoutValues_shape (depth + 2) n
        apply withoutValuesAll_shapes table depth ns
        simp only [withoutValuesAll_eq_map] at h ⊢
        simp [h, hn]
      · have hn := withoutValues_shape (depth + 1) n
        have hns := withoutValuesAll_shapes table depth ns [] [] rfl
        have hb := withoutValuesAll_rowsShape (depth + 1) h
        simp only [withoutValuesAll_eq_map] at hns hb ⊢
        simp [hn, hns, hb]
where
  withoutValuesAll_rowsShape (depth : Nat) {rows lowRows : List Tree}
      (h : withoutValuesAll lowRows = withoutValuesAll rows) :
      withoutValuesAll (rowsShape depth lowRows) = withoutValuesAll (rowsShape depth rows) := by
    cases rows with
    | nil =>
      cases lowRows with
      | nil => rfl
      | cons r rs => simp [withoutValuesAll] at h
    | cons s ss =>
      cases lowRows with
      | nil => simp [withoutValuesAll] at h
      | cons r rs => simp [rowsShape, withoutValuesAll, withoutValues] at h ⊢; exact h

end

namespace Body

def lowered (b : Body) : Body := ⟨b.found.map Node.lowered, b.begun⟩

mutual

theorem take_lowered (b : Body) : (n : Node) → take b.lowered n.lowered = (take b n).lowered
  | ⟨kind, text, children⟩ => by
    have h := fun b => takeAll_lowered b children
    let n : Node := ⟨kind, text, children⟩
    by_cases he : n.isElement = true
    · have hl : n.lowered.isElement = true := by rw [Node.isElement_lowered, he]
      rw [take_element b.lowered hl, take_element b he, Node.tag_lowered, Node.lowered_children]
      split
      · exact h b
      · split
        · exact h b.begin
        · simp only [meet, lowered, Node.tag_lowered]
          split <;> rfl
    · rw [Node.lowered_mk]
      cases kind with
      | error => exact h b
      | text =>
        simp only [take, isBlankText_lower]
        split <;> rfl
      | element | scriptElement | styleElement => exact absurd rfl he
      | _ => rfl

theorem takeAll_lowered (b : Body) : (ns : List Node) →
    takeAll b.lowered (ns.map Node.lowered) = (takeAll b ns).lowered
  | [] => rfl
  | n :: ns => by rw [List.map_cons, takeAll, takeAll, take_lowered b n, takeAll_lowered _ ns]

end

theorem elements_lowered (document : Node) :
    elements document.lowered = (elements document).map Node.lowered := by
  have h : takeAll {} (document.children.map Node.lowered) = (takeAll {} document.children).lowered :=
    takeAll_lowered {} document.children
  rw [elements, Node.lowered_children, h, elements, List.map_reverse]
  rfl

end Body

theorem wholeTree_lowered (document : Node) :
    (wholeTree document.lowered).map Tree.withoutValues =
      (wholeTree document).map Tree.withoutValues := by
  rw [wholeTree, wholeTree, Body.elements_lowered]
  rcases Body.elements document with _ | ⟨m, _ | ⟨n, ns⟩⟩
  · rfl
  · exact congrArg some (by rw [withoutValues_named, withoutValues_named, withoutValues_shape])
  · have hs : (((m :: n :: ns).map Node.lowered).map (shape 1)).map Tree.withoutValues =
        ((m :: n :: ns).map (shape 1)).map Tree.withoutValues := by
      simp [withoutValues_shape]
    have h := congrArg (namedAll 1) hs
    rw [← withoutValuesAll_eq_map, ← withoutValuesAll_eq_map, ← withoutValuesAll_namedAll,
      ← withoutValuesAll_namedAll] at h
    exact congrArg (fun ts => some (⟨nameIn "node" 0, rootTag, ts, some 0, none⟩ : Tree)) h

theorem treeOf_eq_wholeTree (document : Node) :
    treeOf document = (wholeTree document).elim (.error .noElements) withinLimit := by
  cases hw : wholeTree document with
  | none =>
    have hr := wholeTree_eq_none_iff.mp hw
    rw [Body.elements_eq_remaining] at hr
    exact treeOf_none hr
  | some t => exact treeOf_eq_withinLimit hw

/-- Letters in lower case change nothing but the values of attributes: the source fails as before,
or has the tree that it had, with the same tags, names, depths and names of attributes. -/
theorem parse_lower (source : String) :
    (parse (lower source)).map Tree.withoutValues = (parse source).map Tree.withoutValues := by
  have h (d : Node) : (treeOf d).map Tree.withoutValues =
      ((wholeTree d).map Tree.withoutValues).elim (.error .noElements) withinLimit := by
    rw [treeOf_eq_wholeTree]
    cases wholeTree d with
    | none => rfl
    | some t => exact map_withinLimit t
  rw [parse, documentOf_lower, h, wholeTree_lowered, ← h, parse]

example : parse "<LI Id=A>X<Li ID=b id></LI>" = .ok ⟨"node-0", "root",
    [⟨"node-1", "li", [], some 1, some ⟨[("id", "A")], by simp⟩⟩,
      ⟨"node-2", "li", [], some 1, some ⟨[("id", "b")], by simp⟩⟩], some 0, none⟩ := by
  decide +kernel

end Html

end MarkupNesting
