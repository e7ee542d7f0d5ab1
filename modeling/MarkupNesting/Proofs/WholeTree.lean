import MarkupNesting.Analysis
import MarkupNesting.Proofs.Html.BodySelection
import MarkupNesting.Proofs.Jsx.Conversion

/-! The tree of a source as it would be if elements could be as deep as they like. A source that has
elements is given this tree, unless a depth recorded in it is past the limit. -/

namespace MarkupNesting

open MarkupNesting.Tree

namespace Tree

mutual

theorem deepest_named (n : Nat) : (t : Tree) → (t.named n).deepest = t.deepest
  | ⟨_, _, children, _, _⟩ => by simp only [named, deepest, deepestAll_namedAll n children]

theorem deepestAll_namedAll (n : Nat) : (ts : List Tree) →
    deepestAll (namedAll n ts) = deepestAll ts
  | [] => rfl
  | t :: ts => by
    simp only [namedAll, deepestAll, deepest_named n t, deepestAll_namedAll (n + t.count) ts]

end

end Tree

/-- A tree, unless a depth recorded in it is past the limit. -/
def withinLimit (t : Tree) : Except Failure Tree :=
  if t.deepest ≤ nestingLimit then .ok t else .error (.nestingTooDeep nestingLimit)

theorem withinLimit_named (n : Nat) (t : Tree) :
    withinLimit (t.named n) = (Builder.give t).run' n := by
  rw [withinLimit, deepest_named, Builder.run'_give]

theorem withinLimit_eq_ok_iff {s t : Tree} :
    withinLimit s = .ok t ↔ s = t ∧ t.deepest ≤ nestingLimit := by
  rw [withinLimit]
  split
  · next h => exact ⟨fun hs => ⟨Except.ok.inj hs, Except.ok.inj hs ▸ h⟩, fun hs => congrArg _ hs.1⟩
  · next h => exact ⟨fun hs => (nomatch hs), fun hs => absurd (hs.1 ▸ hs.2) h⟩

namespace Html

/-- The tree of a document, whatever its depth; none if its body has no element. -/
def wholeTree (document : Node) : Option Tree :=
  match Body.elements document with
  | [] => none
  | [n] => some ((shape 0 n).named 0)
  | ns => some ⟨nameIn "node" 0, rootTag, namedAll 1 (ns.map (shape 1)), some 0, none⟩

theorem wholeTree_eq_none_iff {document : Node} :
    wholeTree document = none ↔ Body.elements document = [] := by
  rw [wholeTree]
  split <;> simp_all

theorem wholeTree_cases {document : Node} {t : Tree} (h : wholeTree document = some t) :
    (∃ n, Body.elements document = [n] ∧ t = (shape 0 n).named 0) ∨
      (2 ≤ (Body.elements document).length ∧
        t = ⟨nameIn "node" 0, rootTag, namedAll 1 ((Body.elements document).map (shape 1)), some 0,
          none⟩) := by
  rw [wholeTree] at h
  match hr : Body.elements document with
  | [] => rw [hr] at h; cases h
  | [n] =>
    rw [hr] at h
    exact .inl ⟨n, rfl, (Option.some.inj h).symm⟩
  | m :: n :: ns =>
    rw [hr] at h
    exact .inr ⟨by simp, (Option.some.inj h).symm⟩

theorem treeOf_eq_withinLimit {document : Node} {t : Tree} (h : wholeTree document = some t) :
    treeOf document = withinLimit t := by
  have he := Body.elements_eq_remaining document
  obtain ⟨n, hn, rfl⟩ | ⟨hl, rfl⟩ := wholeTree_cases h
  · rw [treeOf_single (he ▸ hn), elementTree_eq_give, withinLimit_named]
  · have hd : ∀ ts : List Tree,
        (⟨nameIn "node" 0, rootTag, namedAll 1 ts, some 0, none⟩ : Tree).deepest =
          deepestAll ts := by
      intro ts
      rw [deepest, deepestAll_namedAll, Option.getD_some, Nat.zero_max]
    rw [treeOf_several (he ▸ hl), mapM_elementTree, Builder.run'_giveAll, withinLimit, hd, ← he]
    split <;> rfl

theorem treeOf_eq_ok_iff {document : Node} {t : Tree} :
    treeOf document = .ok t ↔ wholeTree document = some t ∧ t.deepest ≤ nestingLimit := by
  cases hw : wholeTree document with
  | none =>
    have hr := wholeTree_eq_none_iff.mp hw
    rw [Body.elements_eq_remaining] at hr
    simp [treeOf_none hr]
  | some s => rw [treeOf_eq_withinLimit hw, withinLimit_eq_ok_iff, Option.some.injEq]

end Html

namespace Jsx

/-- The tree of a module, whatever its depth; none if it holds no JSX. -/
def wholeTree (top : Node) : Option Tree :=
  match outermost top with
  | [] => none
  | [n] => some ((shape 0 n).named 0)
  | ns => some ((⟨"", rootTag, ns.map (shape 0), some 0, none⟩ : Tree).named 0)

theorem wholeTree_eq_none_iff {top : Node} : wholeTree top = none ↔ outermost top = [] := by
  rw [wholeTree]
  split <;> simp_all

theorem wholeTree_cases {top : Node} {t : Tree} (h : wholeTree top = some t) :
    (∃ n, outermost top = [n] ∧ t = (shape 0 n).named 0) ∨
      (2 ≤ (outermost top).length ∧
        t = (⟨"", rootTag, (outermost top).map (shape 0), some 0, none⟩ : Tree).named 0) := by
  rw [wholeTree] at h
  match hr : outermost top with
  | [] => rw [hr] at h; cases h
  | [n] =>
    rw [hr] at h
    exact .inl ⟨n, rfl, (Option.some.inj h).symm⟩
  | m :: n :: ns =>
    rw [hr] at h
    exact .inr ⟨by simp, (Option.some.inj h).symm⟩

theorem treeOf_none {top : Node} (h : outermost top = []) :
    treeOf top = .error (if top.hasFault then .syntaxFault (faultFrom (.start top)) else .noJsx) := by
  rw [treeOf, moduleTree, rootsFrom_start, h, List.map_nil, Builder.giveAll_nil]
  rfl

theorem treeOf_eq_withinLimit {top : Node} {t : Tree} (h : wholeTree top = some t) :
    treeOf top = withinLimit t := by
  obtain ⟨n, hn, rfl⟩ | ⟨hl, rfl⟩ := wholeTree_cases h
  · rw [treeOf_single hn, withinLimit_named]
  · rw [treeOf_several hl, withinLimit_named]

theorem treeOf_eq_ok_iff {top : Node} {t : Tree} :
    treeOf top = .ok t ↔ wholeTree top = some t ∧ t.deepest ≤ nestingLimit := by
  cases hw : wholeTree top with
  | none => simp [treeOf_none (wholeTree_eq_none_iff.mp hw)]
  | some s => rw [treeOf_eq_withinLimit hw, withinLimit_eq_ok_iff, Option.some.injEq]

end Jsx

/-- The tree of a source in a dialect, whatever its depth; none if the source has no element. -/
def wholeTree (source : String) : Dialect → Option Tree
  | .html => Html.wholeTree (Html.documentOf source)
  | d => Jsx.wholeTree (Jsx.moduleOf d.isTyped source)

theorem wholeTree_html (source : String) :
    wholeTree source .html = Html.wholeTree (Html.documentOf source) := rfl

theorem wholeTree_jsx (source : String) {d : Dialect} (hd : d ≠ .html) :
    wholeTree source d = Jsx.wholeTree (Jsx.moduleOf d.isTyped source) := by
  cases d with
  | html => exact absurd rfl hd
  | jsx => rfl
  | tsx => rfl

theorem buildTree_blank {source : String} (h : trim source = "") (d : Dialect) :
    buildTree source d = .error .emptyInput := by
  simp [buildTree, h]

theorem buildTree_html {source : String} (h : trim source ≠ "") :
    buildTree source .html = Html.treeOf (Html.documentOf (trim source)) :=
  if_neg (by simpa using h)

theorem buildTree_jsx {source : String} (h : trim source ≠ "") {d : Dialect} (hd : d ≠ .html) :
    buildTree source d = Jsx.treeOf (Jsx.moduleOf d.isTyped (trim source)) := by
  cases d with
  | html => exact absurd rfl hd
  | jsx => exact if_neg (by simpa using h)
  | tsx => exact if_neg (by simpa using h)

theorem buildTree_eq_withinLimit {source : String} (h : trim source ≠ "") {d : Dialect} {t : Tree}
    (ht : wholeTree (trim source) d = some t) : buildTree source d = withinLimit t := by
  by_cases hd : d = .html
  · subst hd
    rw [wholeTree_html] at ht
    rw [buildTree_html h, Html.treeOf_eq_withinLimit ht]
  · rw [wholeTree_jsx _ hd] at ht
    rw [buildTree_jsx h hd, Jsx.treeOf_eq_withinLimit ht]

theorem buildTree_eq_ok_iff {source : String} {d : Dialect} {t : Tree} :
    buildTree source d = .ok t ↔
      trim source ≠ "" ∧ wholeTree (trim source) d = some t ∧ t.deepest ≤ nestingLimit := by
  by_cases h : trim source = ""
  · simp [buildTree_blank h, h]
  · rw [and_iff_right h]
    by_cases hd : d = .html
    · subst hd
      rw [buildTree_html h, wholeTree_html, Html.treeOf_eq_ok_iff]
    · rw [buildTree_jsx h hd, wholeTree_jsx _ hd, Jsx.treeOf_eq_ok_iff]

end MarkupNesting
