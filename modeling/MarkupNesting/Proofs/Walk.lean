import MarkupNesting.Proofs.Naming
import MarkupNesting.Tree.Visit

/-! The nodes of a tree, parents first, by recursion on the tree, each with its distance from the
root and the tags down to it. The visits, which keep a list of the trees still to come, are these. -/

namespace MarkupNesting

namespace Tree

mutual

/-- The nodes of a tree whose root has a level and stands below the given tags, parents first. -/
def walk (level : Nat) (above : List String) : Tree → List Visit
  | ⟨id, tag, children, depth, attributes⟩ =>
    ⟨level, above ++ [tag], ⟨id, tag, children, depth, attributes⟩⟩ ::
      walkAll (level + 1) (above ++ [tag]) children

def walkAll (level : Nat) (above : List String) : List Tree → List Visit
  | [] => []
  | t :: ts => t.walk level above ++ walkAll level above ts

end

theorem walk_eq_cons (level : Nat) (above : List String) (t : Tree) :
    t.walk level above =
      ⟨level, above ++ [t.tag], t⟩ :: walkAll (level + 1) (above ++ [t.tag]) t.children := by
  cases t
  rfl

theorem walkAll_eq_flatMap (level : Nat) (above : List String) (ts : List Tree) :
    walkAll level above ts = ts.flatMap (walk level above) := by
  induction ts with
  | nil => rfl
  | cons t ts ih => rw [walkAll, ih, List.flatMap_cons]

/-- Of the path to the last node only what leads to the next one matters. -/
theorem visitsFrom_take {k : Nat} {pending : List (Nat × Tree)} (h : ∀ p ∈ pending, p.1 ≤ k)
    (path : List String) : visitsFrom (path.take k) pending = visitsFrom path pending := by
  cases pending with
  | nil => rw [visitsFrom, visitsFrom]
  | cons p pending =>
    have hp := h p (by simp)
    rw [visitsFrom, visitsFrom, List.take_take, Nat.min_eq_left hp]

mutual

theorem visitsFrom_cons {level : Nat} {path : List String} {pending : List (Nat × Tree)}
    (hl : level ≤ path.length) (h : ∀ p ∈ pending, p.1 ≤ level) : (t : Tree) →
    visitsFrom path ((level, t) :: pending) =
      t.walk level (path.take level) ++ visitsFrom path pending
  | ⟨id, tag, children, depth, attributes⟩ => by
    have hlen : (path.take level ++ [tag]).length = level + 1 := by simp [hl]
    have hnext : ∀ p ∈ pending, p.1 ≤ level + 1 := fun p hp => Nat.le_succ_of_le (h p hp)
    have hc := visitsFrom_children (Nat.le_of_eq hlen.symm) hnext children
    have htake : (path.take level ++ [tag]).take level = path.take level := by simp [hl]
    rw [visitsFrom, hc, List.take_of_length_le (Nat.le_of_eq hlen), walk, List.cons_append,
      ← visitsFrom_take h (path.take level ++ [tag]), htake, visitsFrom_take h]

theorem visitsFrom_children {level : Nat} {path : List String} {pending : List (Nat × Tree)}
    (hl : level ≤ path.length) (h : ∀ p ∈ pending, p.1 ≤ level) : (ts : List Tree) →
    visitsFrom path (ts.map (fun c => (level, c)) ++ pending) =
      walkAll level (path.take level) ts ++ visitsFrom path pending
  | [] => rfl
  | t :: ts => by
    have hrest : ∀ p ∈ ts.map (fun c => (level, c)) ++ pending, p.1 ≤ level := by
      intro p hp
      rcases List.mem_append.mp hp with hp | hp
      · obtain ⟨c, -, rfl⟩ := List.mem_map.mp hp
        exact Nat.le_refl level
      · exact h p hp
    rw [List.map_cons, List.cons_append, visitsFrom_cons hl hrest t, visitsFrom_children hl h ts,
      walkAll, List.append_assoc]

end

theorem visits_eq_walk (t : Tree) : t.visits = t.walk 0 [] := by
  have h : visitsFrom [] [(0, t)] = t.walk 0 [] ++ visitsFrom [] [] :=
    visitsFrom_cons (Nat.le_refl 0) (by simp) t
  rw [visits, h, visitsFrom, List.append_nil]

mutual

/-- What passes on from a node to its children holds of all nodes of a tree, each with the tags
above it. -/
theorem walk_induction {P : Nat → List String → Tree → Prop}
    (hstep : ∀ level above t, P level above t → ∀ c ∈ t.children,
      P (level + 1) (above ++ [t.tag]) c) {v : Visit} {level : Nat} {above : List String} :
    (t : Tree) → P level above t → v ∈ t.walk level above →
    ∃ parents, v.path = parents ++ [v.node.tag] ∧ P v.level parents v.node
  | ⟨id, tag, children, depth, attributes⟩, h, hv => by
    rw [walk, List.mem_cons] at hv
    rcases hv with rfl | hv
    · exact ⟨above, rfl, h⟩
    · exact walkAll_induction hstep children (hstep level above _ h) hv

theorem walkAll_induction {P : Nat → List String → Tree → Prop}
    (hstep : ∀ level above t, P level above t → ∀ c ∈ t.children,
      P (level + 1) (above ++ [t.tag]) c) {v : Visit} {level : Nat} {above : List String} :
    (ts : List Tree) → (∀ t ∈ ts, P level above t) → v ∈ walkAll level above ts →
    ∃ parents, v.path = parents ++ [v.node.tag] ∧ P v.level parents v.node
  | [], _, hv => by simp [walkAll] at hv
  | t :: ts, h, hv => by
    rw [List.forall_mem_cons] at h
    rw [walkAll, List.mem_append] at hv
    rcases hv with hv | hv
    · exact walk_induction hstep t h.1 hv
    · exact walkAll_induction hstep ts h.2 hv

end

theorem length_path_of_mem_walk {level : Nat} {above : List String} {v : Visit}
    (h : above.length = level) {t : Tree} (hv : v ∈ t.walk level above) :
    v.path.length = v.level + 1 := by
  obtain ⟨parents, hpath, hlen⟩ := walk_induction (P := fun level above _ => above.length = level)
    (fun level above t h c hc => by simp [h]) t h hv
  rw [hpath, List.length_append, hlen, List.length_singleton]

theorem path_ne_nil_of_mem_walk {t : Tree} {v : Visit} (hv : v ∈ t.walk 0 []) : v.path ≠ [] := by
  intro hnil
  have hlen := length_path_of_mem_walk List.length_nil hv
  rw [hnil] at hlen
  cases hlen

theorem mem_path_of_mem_walk {p : String → Prop} {t : Tree} (hp : ∀ v ∈ t.walk 0 [], p v.node.tag)
    {v : Visit} (hv : v ∈ t.walk 0 []) : ∀ tag ∈ v.path, p tag := by
  have hstep : ∀ (level : Nat) (above : List String) (u : Tree),
      (∀ tag ∈ above, p tag) ∧ (∀ w ∈ u.walk level above, p w.node.tag) → ∀ c ∈ u.children,
      (∀ tag ∈ above ++ [u.tag], p tag) ∧
        ∀ w ∈ c.walk (level + 1) (above ++ [u.tag]), p w.node.tag := by
    intro level above u ⟨habove, hwalk⟩ c hc
    rw [walk_eq_cons, List.forall_mem_cons, walkAll_eq_flatMap] at hwalk
    refine ⟨List.forall_mem_append.mpr ⟨habove, List.forall_mem_singleton.mpr hwalk.1⟩, ?_⟩
    intro w hw
    exact hwalk.2 w (List.mem_flatMap_of_mem hc hw)
  obtain ⟨parents, hpath, habove, -⟩ := walk_induction hstep t ⟨by simp, hp⟩ hv
  rw [hpath]
  exact List.forall_mem_append.mpr ⟨habove, List.forall_mem_singleton.mpr (hp v hv)⟩

mutual

theorem length_walk (level : Nat) (above : List String) : (t : Tree) →
    (t.walk level above).length = t.count
  | ⟨_, tag, children, _, _⟩ => by
    rw [walk, count, List.length_cons, length_walkAll (level + 1) (above ++ [tag]) children]

theorem length_walkAll (level : Nat) (above : List String) : (ts : List Tree) →
    (walkAll level above ts).length = countAll ts
  | [] => rfl
  | t :: ts => by
    rw [walkAll, countAll, List.length_append, length_walk level above t, length_walkAll level above ts]

end

mutual

/-- Names, recorded depths and attributes have no part in where the nodes of a tree are. -/
theorem places_walk_plain (level : Nat) (above : List String) : (t : Tree) →
    (t.plain.walk level above).map (fun v => (v.level, v.path)) =
      (t.walk level above).map fun v => (v.level, v.path)
  | ⟨_, tag, children, _, _⟩ => by
    have h := places_walkAll_plainAll (level + 1) (above ++ [tag]) children
    simp only [plain, walk, List.map_cons, h]

theorem places_walkAll_plainAll (level : Nat) (above : List String) : (ts : List Tree) →
    (walkAll level above (plainAll ts)).map (fun v => (v.level, v.path)) =
      (walkAll level above ts).map fun v => (v.level, v.path)
  | [] => rfl
  | t :: ts => by
    simp only [plainAll, walkAll, List.map_append, places_walk_plain level above t,
      places_walkAll_plainAll level above ts]

end

theorem height_lt_of_mem_children {t c : Tree} (h : c ∈ t.children) : c.height < t.height := by
  have hbelow : ∀ ts : List Tree, c ∈ ts → c.height < heightBelow ts := by
    intro ts hc
    induction ts with
    | nil => cases hc
    | cons u us ih =>
      rw [heightBelow]
      rcases List.mem_cons.mp hc with rfl | hc
      · omega
      · have hu := ih hc
        omega
  cases t
  exact hbelow _ h

theorem height_eq_zero_iff {t : Tree} : t.height = 0 ↔ t.children = [] := by
  obtain ⟨id, tag, children, depth, attributes⟩ := t
  cases children <;> simp [height, heightBelow]

mutual

/-- On every level down to the deepest one there is a node on the way to a deepest node. -/
theorem exists_on_level {k : Nat} (level : Nat) (above : List String) : (t : Tree) →
    k ≤ t.height →
    ∃ v ∈ t.walk level above, v.level = level + k ∧ k + v.node.height = t.height
  | ⟨id, tag, children, depth, attributes⟩, h => by
    rw [walk]
    cases k with
    | zero => exact ⟨_, List.mem_cons_self, rfl, Nat.zero_add _⟩
    | succ k =>
      obtain ⟨v, hv, hl, hk⟩ := exists_below_on_level (level + 1) (above ++ [tag]) children h
      exact ⟨v, List.mem_cons_of_mem _ hv, by omega, hk⟩

theorem exists_below_on_level {k : Nat} (level : Nat) (above : List String) : (ts : List Tree) →
    k + 1 ≤ heightBelow ts →
    ∃ v ∈ walkAll level above ts, v.level = level + k ∧ k + 1 + v.node.height = heightBelow ts
  | [], h => by simp [heightBelow] at h
  | t :: ts, h => by
    simp only [walkAll, List.mem_append]
    rw [heightBelow] at h ⊢
    rcases Nat.le_total (heightBelow ts) (t.height + 1) with hle | hle
    · rw [Nat.max_eq_left hle] at h ⊢
      obtain ⟨v, hv, hl, hk⟩ := exists_on_level level above t (Nat.le_of_succ_le_succ h)
      exact ⟨v, .inl hv, hl, by omega⟩
    · rw [Nat.max_eq_right hle] at h ⊢
      obtain ⟨v, hv, hl, hk⟩ := exists_below_on_level level above ts h
      exact ⟨v, .inr hv, hl, hk⟩

end

theorem exists_parent {k : Nat} {t : Tree} (h : k < t.height) :
    ∃ v ∈ t.walk 0 [], v.level = k ∧ v.node.children ≠ [] := by
  obtain ⟨v, hv, hl, hk⟩ := exists_on_level 0 [] t h.le
  refine ⟨v, hv, hl.trans (Nat.zero_add k), fun hc => ?_⟩
  have h0 := height_eq_zero_iff.mpr hc
  omega

theorem isGreatest_level (t : Tree) :
    IsGreatest {level | ∃ v ∈ t.walk 0 [], v.level = level} t.height := by
  constructor
  · obtain ⟨v, hv, hl, -⟩ := exists_on_level 0 [] t (Nat.le_refl _)
    exact ⟨v, hv, hl.trans (Nat.zero_add _)⟩
  · rintro level ⟨v, hv, rfl⟩
    obtain ⟨parents, -, hle⟩ := walk_induction (P := fun level _ u => level + u.height ≤ t.height)
      (fun level above u h c hc => by
        have hlt := height_lt_of_mem_children hc
        omega) t (Nat.le_of_eq (Nat.zero_add _)) hv
    exact (Nat.le_add_right _ _).trans hle

end Tree

end MarkupNesting
