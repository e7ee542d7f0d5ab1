import MarkupNesting.Proofs.Findings
import MarkupNesting.Proofs.Html.ElementOrder
import MarkupNesting.Proofs.Html.OpenTag
import MarkupNesting.Proofs.Limits

/-! Which wrappers an analysis says can be removed. In HTML they are those that hold a single
element and whose tag has no attribute. JSX records no attributes, and there a tag may have some all
the same. -/

namespace MarkupNesting

open MarkupNesting.Tree

def Tree.wrappers (t : Tree) : List Visit := (t.walk 0 []).filter (Advice.isWrapper ·.node.tag)

def Html.wrapperElements (document : Node) : List Node :=
  (bodyElements document).filter (Advice.isWrapper ·.tag)

theorem filterMap_wrappers (t : Tree) :
    t.wrappers.filterMap (fun v => Advice.singleChildWrapper v.path v.node) =
      (t.walk 0 []).filterMap fun v => Advice.singleChildWrapper v.path v.node := by
  rw [wrappers, List.filterMap_filter]
  congr 1
  funext v
  split
  · rfl
  · next hw =>
    have h := mt (Advice.singleChildWrapper_isSome v.path v.node).mp fun h => hw h.2.1
    exact (Option.not_isSome_iff_eq_none.mp h).symm

theorem isWrapper_of_mem_wrappers {v : Visit} {t : Tree} (h : v ∈ t.wrappers) :
    Advice.isWrapper v.node.tag = true := (List.mem_filter.mp h).2

theorem Html.forall₂_wrappers {document : Node} {t : Tree} (h : wholeTree document = some t) :
    List.Forall₂ (fun v n => v.node.tag = n.tag ∧ v.node.attributes = n.attributes) t.wrappers
      (wrapperElements document) := by
  have hl := labels_wholeTree h (p := Advice.isWrapper) (by decide) (by decide)
  rw [← map_walk 0 [], List.filter_map, List.filter_map, ← List.forall₂_eq_eq_eq,
    List.forall₂_map_left_iff, List.forall₂_map_right_iff] at hl
  exact hl.imp fun v n h => Prod.mk.inj h

namespace Jsx

theorem attributes_labels_shape (depth : Nat) (n : Node) :
    ∀ l ∈ (shape depth n).labels, l.2 = none := by
  refine shape_induction (P := fun _ t => ∀ l ∈ t.labels, l.2 = none) ?_ depth n
  intro depth tag children h l hl
  rw [labels_mk, labelsAll_eq_flatMap, List.mem_cons, List.mem_flatMap] at hl
  rcases hl with rfl | ⟨t, ht, hl⟩
  · rfl
  · exact h t ht l hl

theorem attributes_of_mem_walk {top : Node} {t : Tree} (h : wholeTree top = some t) {v : Visit}
    (hv : v ∈ t.walk 0 []) : v.node.attributes = none := by
  have hl : (v.node.tag, v.node.attributes) ∈ t.labels := by
    rw [← map_walk 0 []]
    exact List.mem_map_of_mem hv
  obtain ⟨n, -, rfl⟩ | ⟨-, rfl⟩ := wholeTree_cases h
  · rw [labels_named] at hl
    exact attributes_labels_shape 0 n _ hl
  · rw [labels_named, labels_mk, labelsAll_eq_flatMap, List.flatMap_map, List.mem_cons,
      List.mem_flatMap] at hl
    rcases hl with hl | ⟨n, -, hl⟩
    · exact (Prod.mk.inj hl).2
    · exact attributes_labels_shape 0 n _ hl

end Jsx

/-- The findings on wrappers of a single child, in order, are what the rule says of the wrappers. In
HTML the wrappers are those of the source, and the rule flags the ones that hold a single element
and whose tag has no attribute; in the other dialects it flags all that hold a single element. -/
theorem flagged_wrappers {source : String} {d : Dialect} {a : Analysis}
    (h : analyze source d = .ok a) :
    a.advice.suggestions.filter (·.finding = .singleChildWrapper) =
        a.tree.wrappers.filterMap (fun v => Advice.singleChildWrapper v.path v.node) ∧
      (d = .html → List.Forall₂
        (fun v n => v.node.tag = n.tag ∧
          ((Advice.singleChildWrapper v.path v.node).isSome = true ↔
            v.node.children.length = 1 ∧ ¬ n.HasAttribute))
        a.tree.wrappers (Html.wrapperElements (Html.documentOf (trim source)))) ∧
      (d ≠ .html → ∀ v ∈ a.tree.wrappers,
        ((Advice.singleChildWrapper v.path v.node).isSome = true ↔ v.node.children.length = 1)) := by
  obtain ⟨t, hb, -, rfl⟩ := analyze_eq_ok_iff.mp h
  have hw := (buildTree_eq_ok_iff.mp hb).2.1
  refine ⟨?_, fun hd => ?_, fun hd v hv => ?_⟩
  · rw [filterMap_wrappers]
    exact Advice.suggestions_singleChildWrapper t _
  · subst hd
    rw [wholeTree_html] at hw
    have hwrappers : ∀ v ∈ t.wrappers, Advice.isWrapper v.node.tag = true :=
      fun v => isWrapper_of_mem_wrappers
    refine List.Forall₂.imp ?_
      ((List.forall₂_and_left _ _).mpr ⟨hwrappers, Html.forall₂_wrappers hw⟩)
    rintro v n ⟨hv, htag, hattributes⟩
    refine ⟨htag, ?_⟩
    rw [Advice.singleChildWrapper_isSome, hasAttributes, hattributes, ← Html.Node.any_attributes]
    simp [hv]
  · rw [wholeTree_jsx _ hd] at hw
    have hattributes := Jsx.attributes_of_mem_walk hw (List.mem_filter.mp hv).1
    rw [Advice.singleChildWrapper_isSome, hasAttributes, hattributes]
    simp [isWrapper_of_mem_wrappers hv]

/-- Of two wrappers of a single element HTML flags the one without an attribute, JSX both. -/
theorem flagged_wrappers_nested :
    let html := "<div id=x><nav><p></p></nav></div>"
    let tsx := "const v = <div><nav><p/></nav></div>;"
    let nav : Suggestion := ⟨.singleChildWrapper, ["div", "nav"],
      "<nav> wraps only <p> and has no attributes. It can be removed.", 1⟩
    let div : Suggestion := ⟨.singleChildWrapper, ["div"],
      "<div> wraps only <nav> and has no attributes. It can be removed.", 1⟩
    (∃ a, analyze html .html = .ok a ∧
        a.advice.suggestions.filter (·.finding = .singleChildWrapper) = [nav] ∧
        List.Forall₂
          (fun v n => v.node.tag = n.tag ∧
            ((Advice.singleChildWrapper v.path v.node).isSome = true ↔
              v.node.children.length = 1 ∧ ¬ n.HasAttribute))
          a.tree.wrappers (Html.wrapperElements (Html.documentOf (trim html)))) ∧
      ∃ a, analyze tsx .tsx = .ok a ∧
        a.advice.suggestions.filter (·.finding = .singleChildWrapper) = [div, nav] ∧
        Dialect.tsx ≠ .html ∧
        ∀ v ∈ a.tree.wrappers,
          ((Advice.singleChildWrapper v.path v.node).isSome = true ↔ v.node.children.length = 1) := by
  intro html tsx nav div
  let tree (attributes : Option Attributes) : Tree := ⟨"node-2", "div", [⟨"node-1", "nav",
    [⟨"node-0", "p", [], some 2, none⟩], some 1, none⟩], some 0, attributes⟩
  have hb : buildTree html .html = .ok (tree (some (.ofFirst [("id", "x")]))) := by decide +kernel
  have ha := analyze_eq_ok_iff.mpr ⟨_, hb, by decide, rfl⟩
  have hb' : buildTree tsx .tsx = .ok (tree none) := by decide +kernel
  have ha' := analyze_eq_ok_iff.mpr ⟨_, hb', by decide, rfl⟩
  obtain ⟨hs, hwrappers, -⟩ := flagged_wrappers ha
  obtain ⟨hs', -, hflagged⟩ := flagged_wrappers ha'
  exact ⟨⟨_, ha, hs.trans (by decide), hwrappers rfl⟩, _, ha', hs'.trans (by decide),
    by decide, hflagged (by decide)⟩

/-- In JSX a wrapper is said to have no attributes although the reader has met one in its tag. -/
theorem flagged_with_attribute :
    let source := "const v = <div id=\"x\"><p/></div>;"
    let flagged : Suggestion := ⟨.singleChildWrapper, ["div"],
      "<div> wraps only <p> and has no attributes. It can be removed.", 1⟩
    (∃ name, (("const v = <div id".toList).foldl Jsx.Reader.State.step .start).mode =
        .attributeName none name ['d', 'i']) ∧
      ∀ d, d ≠ .html → ∃ a, analyze source d = .ok a ∧ flagged ∈ a.advice.suggestions := by
  intro source flagged
  let t : Tree := ⟨"node-1", "div", [⟨"node-0", "p", [], some 1, none⟩], some 0, none⟩
  have ht : ∀ d, d ≠ .html → buildTree source d = .ok t := by
    intro d hd
    cases d with
    | html => exact absurd rfl hd
    | jsx => decide +kernel
    | tsx => decide +kernel
  have hf : flagged ∈ (t.walk 0 []).filterMap fun v => Advice.singleChildWrapper v.path v.node := by
    decide
  refine ⟨⟨Jsx.Reader.nameNode none ['v', 'i', 'd'], by rfl⟩, fun d hd => ?_⟩
  refine ⟨_, analyze_eq_ok_iff.mpr ⟨t, ht d hd, by decide, rfl⟩, ?_⟩
  rw [← Advice.suggestions_singleChildWrapper t (Statistics.ofTree t).maxDepth] at hf
  exact (List.mem_filter.mp hf).1

end MarkupNesting
