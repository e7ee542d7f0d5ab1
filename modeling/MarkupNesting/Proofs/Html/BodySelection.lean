import MarkupNesting.Proofs.Html.Conversion

/-! Which elements the body of a document holds. Written out flat, without the wrappers and the
errors around them, they are all that is left of the document once the metadata at its beginning is
dropped. -/

namespace MarkupNesting.Html

open Builder MarkupNesting.Tree

/-- What a document comes to when its wrappers are looked through: text that is not blank, the
places where a body begins, and the other elements. -/
inductive Item where
  | text
  | body
  | element (n : Node)

namespace Item

def isMetadata : Item → Bool
  | element n => metadataTags.contains n.tag
  | _ => false

def element? : Item → Option Node
  | element n => some n
  | _ => none

end Item

mutual

def items : Node → List Item
  | ⟨kind, text, children⟩ =>
    let n : Node := ⟨kind, text, children⟩
    if kind = .error then itemsAll children
    else if kind = .text then (if isBlankText text then [] else [.text])
    else if n.isElement then
      if n.tag = "html" || n.tag = "head" then itemsAll children
      else if n.tag = "body" then .body :: itemsAll children
      else [.element n]
    else []

def itemsAll : List Node → List Item
  | [] => []
  | n :: ns => items n ++ itemsAll ns

end

/-- The elements that are left when the metadata at the beginning of a document is dropped. -/
def remaining (document : Node) : List Node :=
  ((itemsAll document.children).dropWhile Item.isMetadata).filterMap Item.element?

theorem items_element {n : Node} (h : n.isElement = true) :
    items n =
      if n.tag = "html" || n.tag = "head" then itemsAll n.children
      else if n.tag = "body" then .body :: itemsAll n.children
      else [.element n] := by
  obtain ⟨kind, text, children⟩ := n
  cases kind with
  | element | scriptElement | styleElement => rfl
  | _ => simp [Node.isElement] at h

namespace Body

def meet (b : Body) : Item → Body
  | .text => b.begin
  | .body => b.begin
  | .element n => if !b.begun && metadataTags.contains n.tag then b else ⟨n :: b.found, true⟩

theorem take_element (b : Body) {n : Node} (h : n.isElement = true) :
    take b n =
      if n.tag = "html" || n.tag = "head" then takeAll b n.children
      else if n.tag = "body" then takeAll b.begin n.children
      else b.meet (.element n) := by
  obtain ⟨kind, text, children⟩ := n
  cases kind with
  | element | scriptElement | styleElement => rfl
  | _ => simp [Node.isElement] at h

mutual

/-- The collector, for all its recursion, only meets the items one after another. -/
theorem take_eq_foldl (b : Body) : (n : Node) → take b n = (items n).foldl meet b
  | ⟨kind, text, children⟩ => by
    have h := fun b => takeAll_eq_foldl b children
    by_cases he : (⟨kind, text, children⟩ : Node).isElement = true
    · rw [take_element b he, items_element he]
      split
      · exact h b
      · split
        · exact h b.begin
        · rfl
    · cases kind with
      | error => exact h b
      | text => by_cases ht : isBlankText text = true <;> simp [take, items, ht, meet]
      | element | scriptElement | styleElement => exact absurd rfl he
      | _ => rfl

theorem takeAll_eq_foldl (b : Body) : (ns : List Node) → takeAll b ns = (itemsAll ns).foldl meet b
  | [] => rfl
  | n :: ns => by
    rw [takeAll, itemsAll, List.foldl_append, take_eq_foldl b n, takeAll_eq_foldl _ ns]

end

theorem foldl_meet_begun (is : List Item) (found : List Node) :
    is.foldl meet ⟨found, true⟩ = ⟨(is.filterMap Item.element?).reverse ++ found, true⟩ := by
  induction is generalizing found with
  | nil => rfl
  | cons i is ih => cases i <;> simp [meet, begin, Item.element?, List.filterMap_cons, ih]

theorem foldl_meet (is : List Item) (found : List Node) :
    (is.foldl meet ⟨found, false⟩).found =
      ((is.dropWhile Item.isMetadata).filterMap Item.element?).reverse ++ found := by
  induction is with
  | nil => rfl
  | cons i is ih =>
    cases i with
    | text => simp [meet, begin, Item.isMetadata, Item.element?, List.filterMap_cons, foldl_meet_begun]
    | body => simp [meet, begin, Item.isMetadata, Item.element?, List.filterMap_cons, foldl_meet_begun]
    | element n =>
      by_cases h : metadataTags.contains n.tag = true
      · simp only [List.foldl_cons, meet, h, Item.isMetadata, List.dropWhile_cons, Bool.not_false,
          Bool.and_self, ↓reduceIte, ih]
      · simp only [List.foldl_cons, meet, h, Item.isMetadata, List.dropWhile_cons, Bool.not_false,
          Bool.and_false, Bool.false_eq_true, ↓reduceIte, foldl_meet_begun, List.filterMap_cons,
          Item.element?]
        simp

theorem elements_eq_remaining (document : Node) : elements document = remaining document := by
  rw [elements, takeAll_eq_foldl, foldl_meet, remaining, List.append_nil, List.reverse_reverse]

end Body

theorem treeOf_none {document : Node} (h : remaining document = []) :
    treeOf document = .error .noElements := by
  rw [treeOf, Body.elements_eq_remaining, h]
  rfl

theorem treeOf_single {document n : Node} (h : remaining document = [n]) :
    treeOf document = (elementTree 0 n).run' 0 := by
  rw [treeOf, Body.elements_eq_remaining, h]
  rfl

theorem treeOf_several {document : Node} (h : 2 ≤ (remaining document).length) :
    treeOf document = (((remaining document).mapM (elementTree 1)).run' 1).map fun ts =>
      ⟨nameIn "node" 0, rootTag, ts, some 0, none⟩ := by
  rw [treeOf, Body.elements_eq_remaining]
  match remaining document, h with
  | m :: n :: ns, _ =>
    simp only [StateT.run', bodyTree, bind_apply, fresh_apply, Nat.zero_add]
    cases (m :: n :: ns).mapM (elementTree 1) 1 <;> rfl

theorem treeOf_eq_noElements_iff (document : Node) :
    treeOf document = .error .noElements ↔ remaining document = [] := by
  refine ⟨fun h => ?_, treeOf_none⟩
  match hr : remaining document with
  | [] => rfl
  | [n] =>
    rw [treeOf_single hr, elementTree_eq_give, run'_give] at h
    split at h <;> simp at h
  | m :: n :: ns =>
    rw [treeOf_several (by simp [hr]), mapM_elementTree, run'_giveAll] at h
    split at h <;> simp [Except.map] at h

/-- The common root is told from an element by its name: the name of an element with children is
never the first. -/
theorem named_first_iff {document : Node} {t : Tree} (h : treeOf document = .ok t) :
    t.id = nameIn "node" 0 ∧ t.children ≠ [] ↔ 2 ≤ (remaining document).length := by
  match hr : remaining document with
  | [] =>
    rw [treeOf_none hr] at h
    cases h
  | [n] =>
    rw [treeOf_single hr, elementTree_eq_give, run'_give] at h
    split at h
    · obtain rfl := Except.ok.inj h
      refine ⟨fun ⟨h1, h2⟩ => ?_, fun h2 => absurd h2 (by simp)⟩
      rw [named_id] at h1
      have h3 := nameIn_injective h1
      rw [named_children, ne_eq, namedAll_eq_nil_iff] at h2
      exact absurd (countAll_eq_zero_iff.mp (by omega)) h2
    · cases h
  | m :: n :: ns =>
    rw [treeOf_several (by simp [hr]), mapM_elementTree, run'_giveAll, hr] at h
    split at h
    · obtain rfl := Except.ok.inj h
      simp [namedAll]
    · cases h

/-- The body of a document holds the elements that remain when its beginning of metadata is dropped;
without any the document fails, one of them is the root, and several get a common root. -/
theorem body_selection (document : Node) :
    Body.elements document = remaining document ∧
      (treeOf document = .error .noElements ↔ remaining document = []) ∧
      (∀ n, remaining document = [n] → treeOf document = (elementTree 0 n).run' 0) ∧
      (2 ≤ (remaining document).length →
        treeOf document = (((remaining document).mapM (elementTree 1)).run' 1).map fun ts =>
          ⟨nameIn "node" 0, rootTag, ts, some 0, none⟩) ∧
      ∀ t, treeOf document = .ok t →
        (t.id = nameIn "node" 0 ∧ t.children ≠ [] ↔ 2 ≤ (remaining document).length) :=
  ⟨Body.elements_eq_remaining document, treeOf_eq_noElements_iff document, fun _ => treeOf_single,
    treeOf_several, fun _ => named_first_iff⟩

/-- A title is dropped before a body has begun and kept after. -/
theorem body_selection_title :
    let element (tag : String) (children : List Node) : Node :=
      .branch .element (.branch .startTag [.leaf .tagName tag] :: children)
    let title := element "title" []
    let nav := element "NAV" []
    let short : Node := .branch .document [element "html" [element "head" [title], nav]]
    let long : Node := .branch .document [.branch .error [title, element "body" [title]], nav]
    let tree : Tree := ⟨"node-0", "root",
      [⟨"node-1", "title", [], some 1, none⟩, ⟨"node-2", "nav", [], some 1, none⟩], some 0, none⟩
    (remaining short = [nav] ∧ treeOf short = (elementTree 0 nav).run' 0) ∧
      (2 ≤ (remaining long).length ∧
        treeOf long = (((remaining long).mapM (elementTree 1)).run' 1).map fun ts =>
          ⟨nameIn "node" 0, rootTag, ts, some 0, none⟩) ∧
      treeOf long = .ok tree ∧ tree.id = nameIn "node" 0 ∧ tree.children ≠ [] := by
  intro element title nav short long tree
  have h1 : remaining short = [nav] := rfl
  have h2 : 2 ≤ (remaining long).length := Nat.le_refl 2
  have h3 : treeOf long = .ok tree := by cbv
  obtain ⟨-, -, hs, -, -⟩ := body_selection short
  obtain ⟨-, -, -, hl, ht⟩ := body_selection long
  exact ⟨⟨h1, hs nav h1⟩, ⟨h2, hl h2⟩, h3, (ht tree h3).mpr h2⟩

end MarkupNesting.Html
