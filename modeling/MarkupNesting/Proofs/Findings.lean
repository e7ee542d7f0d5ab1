import MarkupNesting.Proofs.Walk
import MarkupNesting.Tree.Advice

/-! What is said of the nodes of a tree. Each rule raises findings of its own kind, about exactly
the nodes that are as it asks, and a scan says of every node, parents first, what there is to say,
rule by rule. -/

namespace MarkupNesting.Advice

open MarkupNesting.Tree

/-- What a node is like for a finding to be raised. A depth that is not recorded counts as none. -/
def Applies (t : Tree) : Finding → Prop
  | .singleChildWrapper =>
    t.children.length = 1 ∧ t.tag ∈ wrapperTags ∧ (t.attributes = none ∨ t.attributes = some .empty)
  | .redundantWrapper => t.children.map Tree.tag = [t.tag] ∧ t.tag ∈ wrapperTags
  | .deepNesting => t.children ≠ [] ∧ 10 ≤ t.depth.getD 0

instance (t : Tree) : DecidablePred (Applies t)
  | .singleChildWrapper => inferInstanceAs (Decidable (_ ∧ _ ∧ _))
  | .redundantWrapper => inferInstanceAs (Decidable (_ ∧ _))
  | .deepNesting => inferInstanceAs (Decidable (_ ∧ _))

/-- How many levels a finding says could be taken off. -/
def gain (t : Tree) : Finding → Nat
  | .singleChildWrapper => 1
  | .redundantWrapper => 1
  | .deepNesting => max 1 (t.depth.getD 0 - 10)

def remark (t : Tree) : Finding → String
  | .singleChildWrapper => singleChildText t.tag ((t.children.map Tree.tag).headD "")
  | .redundantWrapper => redundantText t.tag
  | .deepNesting => deepText (t.depth.getD 0)

def said (path : List String) (t : Tree) (f : Finding) : Suggestion := ⟨f, path, remark t f, gain t f⟩

/-- The kinds of findings in the order in which they are raised about one node. -/
def inOrder : List Finding := [.singleChildWrapper, .redundantWrapper, .deepNesting]

/-- All that there is to say of a node that a path leads to. -/
def findingsAt (path : List String) (t : Tree) : List Suggestion :=
  (inOrder.filter (Applies t)).map (said path t)

theorem children_ne_nil_of_applies {t : Tree} {f : Finding} (h : Applies t f) : t.children ≠ [] := by
  intro hc
  cases f <;> simp [Applies, hc] at h

theorem gain_pos (t : Tree) (f : Finding) : 0 < gain t f := by
  cases f
  · exact Nat.one_pos
  · exact Nat.one_pos
  · exact lt_max_of_lt_left Nat.one_pos

theorem isWrapper_iff {tag : String} : isWrapper tag = true ↔ tag ∈ wrapperTags := by
  rw [isWrapper, List.contains_iff_mem]

theorem hasAttributes_eq_false_iff {t : Tree} :
    t.hasAttributes = false ↔ t.attributes = none ∨ t.attributes = some .empty := by
  rw [hasAttributes]
  cases t.attributes with
  | none => simp
  | some a =>
    have hempty : a.isEmpty = true ↔ a = .empty := by
      rw [Attributes.isEmpty, List.isEmpty_iff]
      exact ⟨fun h => Attributes.ext_entries h, fun h => h ▸ rfl⟩
    simp [hempty]

theorem onlyChild_eq_some_iff {t c : Tree} : onlyChild t = some c ↔ t.children = [c] := by
  rw [onlyChild]
  split
  · next h => simp [h]
  · next h =>
    constructor
    · simp
    · intro hc
      exact absurd hc (h c)

theorem onlyChild_eq_none_iff {t : Tree} : onlyChild t = none ↔ t.children.length ≠ 1 := by
  rw [← not_iff_not, not_not, ← ne_eq, Option.ne_none_iff_exists', List.length_eq_one_iff]
  simp only [onlyChild_eq_some_iff]

theorem singleChildWrapper_eq (path : List String) (t : Tree) :
    singleChildWrapper path t =
      if Applies t .singleChildWrapper then some (said path t .singleChildWrapper) else none := by
  rw [singleChildWrapper]
  cases hc : onlyChild t with
  | none => exact (if_neg fun h => onlyChild_eq_none_iff.mp hc h.1).symm
  | some child =>
    have hchildren := onlyChild_eq_some_iff.mp hc
    have happlies : (isWrapper t.tag && !t.hasAttributes) = true ↔ Applies t .singleChildWrapper := by
      rw [Bool.and_eq_true, Bool.not_eq_true', isWrapper_iff, hasAttributes_eq_false_iff]
      simp [Applies, hchildren]
    refine if_congr happlies ?_ rfl
    rw [said, gain, remark, hchildren, List.map_cons, List.headD_cons]

theorem redundantWrapper_eq (path : List String) (t : Tree) :
    redundantWrapper path t =
      if Applies t .redundantWrapper then some (said path t .redundantWrapper) else none := by
  rw [redundantWrapper]
  cases hc : onlyChild t with
  | none =>
    refine (if_neg fun h => onlyChild_eq_none_iff.mp hc ?_).symm
    simpa using congrArg List.length h.1
  | some child =>
    have happlies : (decide (child.tag = t.tag) && isWrapper t.tag) = true ↔
        Applies t .redundantWrapper := by
      rw [Bool.and_eq_true, decide_eq_true_eq, isWrapper_iff]
      simp [Applies, onlyChild_eq_some_iff.mp hc]
    refine if_congr happlies ?_ rfl
    rw [said, gain, remark]

theorem deepNesting_eq (path : List String) (t : Tree) :
    deepNesting path t =
      if Applies t .deepNesting then some (said path t .deepNesting) else none := by
  have happlies : ¬ (decide (t.depth.getD 0 < deepFrom) || t.children.isEmpty) = true ↔
      Applies t .deepNesting := by
    rw [Bool.or_eq_true, decide_eq_true_eq, List.isEmpty_iff, not_or, Nat.not_lt, and_comm]
    rfl
  simp only [deepNesting]
  rw [← ite_not]
  refine if_congr happlies ?_ rfl
  rw [said, gain, remark, deepFrom, max_comm]

theorem filterMap_rules (path : List String) (t : Tree) :
    (rules.filterMap fun rule => rule path t) = findingsAt path t := by
  simp only [rules, findingsAt, inOrder, List.filterMap_cons, List.filterMap_nil, List.filter_cons,
    List.filter_nil, singleChildWrapper_eq, redundantWrapper_eq, deepNesting_eq, decide_eq_true_eq]
  by_cases h1 : Applies t .singleChildWrapper <;> by_cases h2 : Applies t .redundantWrapper <;>
    by_cases h3 : Applies t .deepNesting <;> simp [h1, h2, h3]

/-- A scan with any rules asks them about every node, parents first, with the tags down to it. -/
theorem scan_eq_flatMap (t : Tree) (rules : List Rule) :
    scan t rules = (t.walk 0 []).flatMap fun v => rules.filterMap fun rule => rule v.path v.node := by
  rw [scan, visits_eq_walk]

theorem suggestions_eq (t : Tree) (depth : Nat) :
    (ofTree t depth).suggestions =
      dedupe [] ((t.walk 0 []).flatMap fun v => rules.filterMap fun rule => rule v.path v.node) :=
  congrArg (dedupe []) (scan_eq_flatMap t rules)

theorem mem_scan_iff {t : Tree} {s : Suggestion} :
    s ∈ scan t rules ↔ ∃ v ∈ t.walk 0 [], ∃ f, Applies v.node f ∧ s = said v.path v.node f := by
  have horder : ∀ f : Finding, f ∈ inOrder := by
    intro f
    cases f <;> decide
  simp only [scan_eq_flatMap, filterMap_rules, findingsAt, List.mem_flatMap, List.mem_map,
    List.mem_filter, horder, true_and, decide_eq_true_eq, eq_comm (a := s)]

/-- A scan says of every node of a tree, parents first and children in order, what there is to say
of it: each finding exactly if the node is as it asks, with the tags from the root down to the node. -/
theorem scan_findings (t : Tree) :
    scan t rules = (t.walk 0 []).flatMap fun v => findingsAt v.path v.node := by
  simp only [scan_eq_flatMap, filterMap_rules]

theorem singleChildWrapper_isSome (path : List String) (t : Tree) :
    (singleChildWrapper path t).isSome = true ↔
      t.children.length = 1 ∧ isWrapper t.tag = true ∧ t.hasAttributes = false := by
  rw [singleChildWrapper_eq, isWrapper_iff, hasAttributes_eq_false_iff]
  by_cases h : Applies t .singleChildWrapper
  · rw [if_pos h]
    exact iff_of_true rfl h
  · rw [if_neg h]
    exact iff_of_false Bool.false_ne_true h

theorem filter_findingsAt (path : List String) (t : Tree) :
    (findingsAt path t).filter (·.finding = .singleChildWrapper) =
      (singleChildWrapper path t).toList := by
  rw [findingsAt, singleChildWrapper_eq, List.filter_map, List.filter_filter, inOrder]
  by_cases h : Applies t .singleChildWrapper <;> simp [said, h]

theorem filter_dedupe {p : Suggestion → Bool} (hp : ∀ s, p s = true → s.finding ≠ .deepNesting)
    (seen : List String) (ss : List Suggestion) : (dedupe seen ss).filter p = ss.filter p := by
  induction ss generalizing seen with
  | nil => rfl
  | cons s ss ih =>
    by_cases hd : s.finding = .deepNesting
    · have hs : ¬ p s = true := fun h => hp s h hd
      simp only [dedupe, hd, if_pos]
      split <;> simp [hs, ih]
    · simp [dedupe, hd, List.filter_cons, ih]

theorem suggestions_singleChildWrapper (t : Tree) (maxDepth : Nat) :
    (ofTree t maxDepth).suggestions.filter (·.finding = .singleChildWrapper) =
      (t.walk 0 []).filterMap fun v => singleChildWrapper v.path v.node := by
  have hp : ∀ s : Suggestion, decide (s.finding = .singleChildWrapper) = true →
      s.finding ≠ .deepNesting := by
    intro s hs
    rw [of_decide_eq_true hs]
    decide
  have hs : (ofTree t maxDepth).suggestions = dedupe [] (scan t rules) := rfl
  rw [hs, filter_dedupe hp, scan_eq_flatMap, List.filter_flatMap, List.filterMap_eq_flatMap_toList]
  simp only [filterMap_rules, filter_findingsAt]

end MarkupNesting.Advice
