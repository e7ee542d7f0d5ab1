import MarkupNesting.Proofs.DepthStatistics
import MarkupNesting.Proofs.WholeTree

/-! The depths recorded in the tree of a source. Every node of an HTML tree records its distance
from the root, and so does every node under a single JSX root; below the common root of several JSX
roots every node records one less. -/

namespace MarkupNesting

open MarkupNesting.Tree

namespace Tree

mutual

theorem height_named (n : Nat) : (t : Tree) → (t.named n).height = t.height
  | ⟨_, _, children, _, _⟩ => heightBelow_namedAll n children

theorem heightBelow_namedAll (n : Nat) : (ts : List Tree) →
    heightBelow (namedAll n ts) = heightBelow ts
  | [] => rfl
  | t :: ts => by
    simp only [namedAll, heightBelow, height_named n t, heightBelow_namedAll (n + t.count) ts]

end

mutual

theorem depth_of_mem_walk {d k level : Nat} (h : d + k = level) (n : Nat) (above : List String)
    {v : Visit} : (t : Tree) → v ∈ ((t.leveled d).named n).walk level above →
    ∃ e, v.node.depth = some e ∧ e + k = v.level
  | ⟨_, tag, children, _, attributes⟩, hv => by
    rw [leveled, named, walk, List.mem_cons] at hv
    rcases hv with rfl | hv
    · exact ⟨d, rfl, h⟩
    · exact depth_of_mem_walkAll (by omega) n _ children hv

theorem depth_of_mem_walkAll {d k level : Nat} (h : d + k = level) (n : Nat) (above : List String)
    {v : Visit} : (ts : List Tree) → v ∈ walkAll level above (namedAll n (leveledAll d ts)) →
    ∃ e, v.node.depth = some e ∧ e + k = v.level
  | [], hv => by simp [leveledAll, namedAll, walkAll] at hv
  | t :: ts, hv => by
    rw [leveledAll, namedAll, walkAll, List.mem_append] at hv
    rcases hv with hv | hv
    · exact depth_of_mem_walk h n above t hv
    · exact depth_of_mem_walkAll h _ above ts hv

end

theorem heightBelow_eq_deepestAll {ts : List Tree} (h : ts ≠ []) :
    heightBelow ts = deepestAll (leveledAll 0 ts) + 1 := by
  induction ts with
  | nil => exact absurd rfl h
  | cons t ts ih =>
    have ht := deepest_leveled 0 t
    simp only [heightBelow, leveledAll, deepestAll]
    cases ts with
    | nil =>
      simp only [heightBelow, leveledAll, deepestAll]
      omega
    | cons u us =>
      have hu := ih (by simp)
      omega

/-- Every node of a tree records its distance from the root. -/
def RecordsLevels (t : Tree) : Prop := ∀ v ∈ t.walk 0 [], v.node.depth = some v.level

theorem recordsLevels_named (n : Nat) {t : Tree} (h : t.leveled 0 = t) :
    (t.named n).RecordsLevels := by
  intro v hv
  rw [← h] at hv
  obtain ⟨e, he, hl⟩ := depth_of_mem_walk (Nat.add_zero 0) n [] t hv
  rw [he, ← hl, Nat.add_zero]

theorem deepest_named_of_leveled (n : Nat) {t : Tree} (h : t.leveled 0 = t) :
    (t.named n).deepest = (t.named n).height := by
  have hd := deepest_leveled 0 t
  rw [h] at hd
  rw [deepest_named, height_named, hd, Nat.zero_add]

end Tree

namespace Html

mutual

/-- An element's tree records the levels of its nodes, those of implied table bodies and of the rows
in them too. -/
theorem leveled_shape (depth : Nat) : (n : Node) → (shape depth n).leveled depth = shape depth n
  | ⟨kind, text, children⟩ => by
    rw [shape, leveled, leveledAll_shapes _ depth children rfl]

theorem leveledAll_shapes (table : Bool) (depth : Nat) : (ns : List Node) → {rows : List Tree} →
    leveledAll (depth + 2) rows = rows →
    leveledAll (depth + 1) (shapes table depth rows ns) = shapes table depth rows ns
  | [], rows, hr => leveledAll_rowsShape hr
  | n :: ns, rows, hr => by
    rw [shapes]
    split
    · exact leveledAll_shapes table depth ns hr
    · split
      · have hn := leveled_shape (depth + 2) n
        apply leveledAll_shapes table depth ns
        simp only [leveledAll_eq_map] at hr
        simp [leveledAll_eq_map, hr, hn]
      · have hn := leveled_shape (depth + 1) n
        have hns : leveledAll (depth + 1) (shapes table depth [] ns) = shapes table depth [] ns :=
          leveledAll_shapes table depth ns rfl
        have hb := leveledAll_rowsShape hr
        simp only [leveledAll_eq_map] at hb hns
        simp [leveledAll_eq_map, hb, hn, hns]
where
  leveledAll_rowsShape {depth : Nat} {rows : List Tree} (hr : leveledAll (depth + 1) rows = rows) :
      leveledAll depth (rowsShape depth rows) = rowsShape depth rows := by
    rw [rowsShape]
    split
    · rfl
    · simp [leveledAll, leveled, hr]

end

theorem leveledAll_map_shape (depth : Nat) (ns : List Node) :
    leveledAll depth (ns.map (shape depth)) = ns.map (shape depth) := by
  simp [leveledAll_eq_map, leveled_shape]

theorem wholeTree_recordsLevels {document : Node} {t : Tree} (h : wholeTree document = some t) :
    t.RecordsLevels := by
  obtain ⟨n, -, rfl⟩ | ⟨-, rfl⟩ := wholeTree_cases h
  · exact recordsLevels_named 0 (leveled_shape 0 n)
  · intro v hv
    rw [← leveledAll_map_shape, walk, List.mem_cons] at hv
    rcases hv with rfl | hv
    · rfl
    · obtain ⟨e, he, hl⟩ := depth_of_mem_walkAll (Nat.add_zero 1) 1 _ _ hv
      rw [he, ← hl, Nat.add_zero]

theorem deepest_wholeTree {document : Node} {t : Tree} (h : wholeTree document = some t) :
    t.deepest = t.height := by
  obtain ⟨n, -, rfl⟩ | ⟨-, rfl⟩ := wholeTree_cases h
  · exact deepest_named_of_leveled 0 (leveled_shape 0 n)
  · have hd := deepestAll_leveledAll 0 ((Body.elements document).map (shape 1))
    rw [leveledAll_map_shape] at hd
    rw [deepest, height, deepestAll_namedAll, heightBelow_namedAll, Option.getD_some, hd,
      Nat.zero_add]

end Html

namespace Jsx

theorem leveled_shape (depth : Nat) (n : Node) : (shape depth n).leveled depth = shape depth n := by
  refine shape_induction (P := fun depth t => t.leveled depth = t) ?_ depth n
  intro depth tag children h
  rw [leveled, leveledAll_eq_map, List.map_congr_left h, List.map_id']

theorem leveledAll_map_shape (depth : Nat) (ns : List Node) :
    leveledAll depth (ns.map (shape depth)) = ns.map (shape depth) := by
  simp [leveledAll_eq_map, leveled_shape]

theorem wholeTree_records {top : Node} {t : Tree} (h : wholeTree top = some t) :
    ((outermost top).length = 1 ∧ t.RecordsLevels ∧ t.deepest = t.height) ∨
      (2 ≤ (outermost top).length ∧ t.tag = rootTag ∧ t.depth = some 0 ∧
        (∀ v ∈ (t.walk 0 []).tail, ∃ e, v.node.depth = some e ∧ e + 1 = v.level) ∧
        t.deepest + 1 = t.height) := by
  obtain ⟨n, hn, rfl⟩ | ⟨hl, rfl⟩ := wholeTree_cases h
  · exact .inl ⟨by rw [hn, List.length_singleton], recordsLevels_named 0 (leveled_shape 0 n),
      deepest_named_of_leveled 0 (leveled_shape 0 n)⟩
  have hne : (outermost top).map (shape 0) ≠ [] := by
    intro hn
    simp [List.map_eq_nil_iff.mp hn] at hl
  refine .inr ⟨hl, rfl, rfl, fun v hv => ?_, ?_⟩
  · rw [named, ← leveledAll_map_shape, walk, List.tail_cons] at hv
    exact depth_of_mem_walkAll (Nat.zero_add 1) 0 _ _ hv
  · have hb := heightBelow_eq_deepestAll hne
    rw [leveledAll_map_shape] at hb
    rw [deepest_named, height_named, deepest, height, hb, Option.getD_some, Nat.zero_max]

end Jsx

/-- No node lies more than one level further down than it records. -/
theorem level_le_of_mem_walk {source : String} {d : Dialect} {t : Tree}
    (h : wholeTree source d = some t) {v : Visit} (hv : v ∈ t.walk 0 []) :
    ∃ e, v.node.depth = some e ∧ v.level ≤ e + 1 := by
  have hlevels (hr : t.RecordsLevels) : ∃ e, v.node.depth = some e ∧ v.level ≤ e + 1 :=
    ⟨v.level, hr v hv, Nat.le_succ _⟩
  by_cases hd : d = .html
  · subst hd
    exact hlevels (Html.wholeTree_recordsLevels h)
  · rw [wholeTree_jsx source hd] at h
    obtain ⟨-, hr, -⟩ | ⟨-, -, hroot, hbelow, -⟩ := Jsx.wholeTree_records h
    · exact hlevels hr
    · rw [walk_eq_cons, List.mem_cons] at hv
      rcases hv with rfl | hv
      · exact ⟨0, hroot, Nat.zero_le _⟩
      · obtain ⟨e, he, hl⟩ := hbelow v (by rw [walk_eq_cons]; exact hv)
        exact ⟨e, he, Nat.le_of_eq hl.symm⟩

/-- The depths recorded in a tree agree with it: they are the distances from the root, and one less
below the common root of several JSX roots. So the greatest depth that is counted is the greatest
one recorded, or one more. -/
theorem recorded_depths (source : String) :
    (∀ t, Html.parse source = .ok t →
      t.RecordsLevels ∧ (Statistics.ofTree t).maxDepth = t.deepest) ∧
    ∀ typed t, Jsx.parse typed source = .ok t →
      ((Jsx.outermost (Jsx.moduleOf typed source)).length = 1 →
        t.RecordsLevels ∧ (Statistics.ofTree t).maxDepth = t.deepest) ∧
      (2 ≤ (Jsx.outermost (Jsx.moduleOf typed source)).length →
        t.tag = rootTag ∧ t.depth = some 0 ∧
          (∀ v ∈ (t.walk 0 []).tail, ∃ e, v.node.depth = some e ∧ e + 1 = v.level) ∧
          (Statistics.ofTree t).maxDepth = t.deepest + 1) := by
  constructor
  · intro t ht
    have hw := (Html.treeOf_eq_ok_iff.mp ht).1
    exact ⟨Html.wholeTree_recordsLevels hw,
      (Statistics.ofTree_maxDepth t).trans (Html.deepest_wholeTree hw).symm⟩
  · intro typed t ht
    have hw := (Jsx.treeOf_eq_ok_iff.mp ht).1
    have hm := Statistics.ofTree_maxDepth t
    obtain ⟨hl, hlevels, hd⟩ | ⟨hl, htag, hdepth, hlevels, hd⟩ := Jsx.wholeTree_records hw
    · exact ⟨fun _ => ⟨hlevels, hm.trans hd.symm⟩, fun h2 => by omega⟩
    · exact ⟨fun h1 => by omega, fun _ => ⟨htag, hdepth, hlevels, hm.trans hd.symm⟩⟩

/-- A table with a row, one JSX root and two of them. -/
theorem recorded_depths_row :
    let table : Tree := ⟨"node-3", "table", [⟨"node-2", "tbody", [⟨"node-1", "tr",
      [⟨"node-0", "td", [], some 3, none⟩], some 2, none⟩], some 1, none⟩], some 0, none⟩
    let item : Tree := ⟨"node-1", "A", [⟨"node-0", "B", [], some 1, none⟩], some 0, none⟩
    let both : Tree := ⟨"node-3", "root", [item, ⟨"node-2", "C", [], some 0, none⟩], some 0, none⟩
    let single := "const v = <A>{(<B/>)}</A>;"
    let several := single ++ "const w = <C/>;"
    (Html.parse "<table><tr><td>x</table>" = .ok table ∧
        table.RecordsLevels ∧ (Statistics.ofTree table).maxDepth = table.deepest) ∧
      (Jsx.parse true single = .ok item ∧ (Jsx.outermost (Jsx.moduleOf true single)).length = 1 ∧
        item.RecordsLevels ∧ (Statistics.ofTree item).maxDepth = item.deepest) ∧
      (Jsx.parse false several = .ok both ∧ 2 ≤ (Jsx.outermost (Jsx.moduleOf false several)).length ∧
        both.tag = rootTag ∧ both.depth = some 0 ∧
        (∀ v ∈ (both.walk 0 []).tail, ∃ e, v.node.depth = some e ∧ e + 1 = v.level) ∧
        (Statistics.ofTree both).maxDepth = both.deepest + 1) := by
  intro table item both single several
  have ht : Html.parse "<table><tr><td>x</table>" = .ok table := by decide +kernel
  have hi : Jsx.parse true single = .ok item := by decide +kernel
  have h1 : (Jsx.outermost (Jsx.moduleOf true single)).length = 1 := by decide +kernel
  have hb : Jsx.parse false several = .ok both := by decide +kernel
  have h2 : (Jsx.outermost (Jsx.moduleOf false several)).length = 2 := by decide +kernel
  exact ⟨⟨ht, (recorded_depths _).1 table ht⟩,
    ⟨hi, h1, ((recorded_depths single).2 true item hi).1 h1⟩, hb, Nat.le_of_eq h2.symm, ((recorded_depths several).2 false both hb).2 (Nat.le_of_eq h2.symm)⟩

end MarkupNesting
