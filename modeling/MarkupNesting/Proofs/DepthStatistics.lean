import MarkupNesting.Proofs.Walk
import MarkupNesting.Tree.Statistics

/-! What is counted of a tree. The tally that is kept from visit to visit holds, after any visits,
how many there were, the sum and the greatest of their levels and the path of the first visit on the
greatest level; after the visits to all nodes it holds this of the tree. -/

namespace MarkupNesting.Statistics

open MarkupNesting.Tree

/-- What a tally holds after some visits. -/
structure Tally.Covers (s : Tally) (vs : List Visit) : Prop where
  total : s.totalNodes = vs.length
  sum : s.depthSum = (vs.map Visit.level).sum
  level_le : ∀ v ∈ vs, v.level ≤ s.maxDepth
  first : ∃ v, vs.find? (·.level = s.maxDepth) = some v ∧ v.path = s.deepestPath

theorem Tally.add_of_lt {s : Tally} {v : Visit} (h : s.maxDepth < v.level) :
    s.add v = ⟨v.level, s.totalNodes + 1, s.depthSum + v.level, v.path⟩ := by
  simp [Tally.add, h]

theorem Tally.add_of_le {s : Tally} {v : Visit} (h : v.level ≤ s.maxDepth) (hp : s.deepestPath ≠ []) :
    s.add v = ⟨s.maxDepth, s.totalNodes + 1, s.depthSum + v.level, s.deepestPath⟩ := by
  simp [Tally.add, Nat.not_lt.mpr h, hp]

theorem Tally.covers_first (v : Visit) : (Tally.add {} v).Covers [v] := by
  have h : Tally.add {} v = ⟨v.level, 1, v.level, v.path⟩ := by simp [Tally.add]
  rw [h]
  exact ⟨rfl, by simp, by simp, v, by simp, rfl⟩

/-- One visit more. On the greatest level so far it is not the first, so the path stays. -/
theorem Tally.Covers.add {s : Tally} {vs : List Visit} (h : s.Covers vs)
    (hp : ∀ v ∈ vs, v.path ≠ []) (v : Visit) : (s.add v).Covers (vs ++ [v]) := by
  obtain ⟨w, hw, hpath⟩ := h.first
  by_cases hd : s.maxDepth < v.level
  · have hnone : vs.find? (·.level = v.level) = none := by
      rw [List.find?_eq_none]
      intro u hu
      have hle := h.level_le u hu
      simp only [decide_eq_true_eq]
      omega
    rw [Tally.add_of_lt hd]
    refine ⟨by simp [h.total], by simp [h.sum], ?_, v, by simp [hnone], rfl⟩
    rw [List.forall_mem_append, List.forall_mem_singleton]
    exact ⟨fun u hu => (h.level_le u hu).trans hd.le, Nat.le_refl _⟩
  · have hle := Nat.le_of_not_lt hd
    have hne : s.deepestPath ≠ [] := hpath ▸ hp w (List.mem_of_find?_eq_some hw)
    rw [Tally.add_of_le hle hne]
    refine ⟨by simp [h.total], by simp [h.sum], ?_, w, by simp [hw], hpath⟩
    rw [List.forall_mem_append, List.forall_mem_singleton]
    exact ⟨h.level_le, hle⟩

theorem Tally.Covers.foldl {s : Tally} {vs ws : List Visit} (h : s.Covers vs)
    (hp : ∀ v ∈ vs ++ ws, v.path ≠ []) : (ws.foldl Tally.add s).Covers (vs ++ ws) := by
  induction ws generalizing s vs with
  | nil => rwa [List.append_nil]
  | cons w ws ih =>
    have hvs : ∀ v ∈ vs, v.path ≠ [] := fun v hv => hp v (List.mem_append_left _ hv)
    have hstep := h.add hvs w
    rw [List.append_cons] at hp ⊢
    exact ih hstep hp

theorem covers_walk (t : Tree) : ((t.walk 0 []).foldl Tally.add {}).Covers (t.walk 0 []) := by
  have hp : ∀ v ∈ t.walk 0 [], v.path ≠ [] := fun v hv => path_ne_nil_of_mem_walk hv
  rw [walk_eq_cons] at hp ⊢
  exact (Tally.covers_first _).foldl hp

theorem ofTree_totalNodes (t : Tree) : (ofTree t).totalNodes = t.count := by
  rw [← length_walk 0 [] t, ← (covers_walk t).total, ofTree, visits_eq_walk]

theorem ofTree_depthSum (t : Tree) :
    (ofTree t).depthSum = ((t.walk 0 []).map Visit.level).sum := by
  rw [← (covers_walk t).sum, ofTree, visits_eq_walk]

theorem ofTree_first (t : Tree) :
    ((t.walk 0 []).find? (·.level = (ofTree t).maxDepth)).map Visit.path =
      some (ofTree t).deepestPath := by
  obtain ⟨v, hv, hpath⟩ := (covers_walk t).first
  simp only [ofTree, visits_eq_walk]
  rw [hv, Option.map_some, hpath]

theorem ofTree_maxDepth (t : Tree) : (ofTree t).maxDepth = t.height := by
  have hcovers := covers_walk t
  obtain ⟨v, hv, -⟩ := hcovers.first
  have hgreatest : IsGreatest {level | ∃ v ∈ t.walk 0 [], v.level = level}
      ((t.walk 0 []).foldl Tally.add {}).maxDepth := by
    refine ⟨⟨v, List.mem_of_find?_eq_some hv, by simpa using List.find?_some hv⟩, ?_⟩
    rintro level ⟨w, hw, rfl⟩
    exact hcovers.level_le w hw
  simp only [ofTree, visits_eq_walk]
  exact hgreatest.unique t.isGreatest_level

theorem foldl_add_congr {vs ws : List Visit}
    (h : vs.map (fun v => (v.level, v.path)) = ws.map fun v => (v.level, v.path)) (s : Tally) :
    vs.foldl Tally.add s = ws.foldl Tally.add s := by
  induction vs generalizing ws s with
  | nil =>
    rw [List.map_nil, eq_comm, List.map_eq_nil_iff] at h
    rw [h]
  | cons v vs ih =>
    cases ws with
    | nil => cases h
    | cons w ws =>
      simp only [List.map_cons, List.cons.injEq, Prod.mk.injEq] at h
      have hstep : s.add v = s.add w := by simp only [Tally.add, h.1.1, h.1.2]
      rw [List.foldl_cons, List.foldl_cons, hstep, ih h.2]

theorem ofTree_plain (t : Tree) : ofTree t.plain = ofTree t := by
  simp only [ofTree, visits_eq_walk, foldl_add_congr (places_walk_plain 0 [] t)]

/-- The statistics of a tree are those of its nodes: their number, the sum of their distances from
the root, the greatest distance, and the tags down to the first node, parents first, at that
distance. Only tags and shape of the tree matter. -/
theorem ofTree_statistics (t : Tree) :
    (ofTree t).totalNodes = t.count ∧
      (ofTree t).depthSum = ((t.walk 0 []).map Visit.level).sum ∧
      IsGreatest {level | ∃ v ∈ t.walk 0 [], v.level = level} (ofTree t).maxDepth ∧
      ((t.walk 0 []).find? (·.level = (ofTree t).maxDepth)).map Visit.path =
        some (ofTree t).deepestPath ∧
      (ofTree t).deepestPath.length = (ofTree t).maxDepth + 1 ∧
      ofTree t.plain = ofTree t := by
  have hfirst := ofTree_first t
  refine ⟨ofTree_totalNodes t, ofTree_depthSum t, ?_, hfirst, ?_, ofTree_plain t⟩
  · rw [ofTree_maxDepth]
    exact t.isGreatest_level
  · obtain ⟨v, hv, hpath⟩ := Option.map_eq_some_iff.mp hfirst
    have hlevel : v.level = (ofTree t).maxDepth := by simpa using List.find?_some hv
    rw [← hpath, ← hlevel]
    exact length_path_of_mem_walk List.length_nil (List.mem_of_find?_eq_some hv)

end MarkupNesting.Statistics
