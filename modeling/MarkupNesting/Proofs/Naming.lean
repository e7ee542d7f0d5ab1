import Mathlib
import MarkupNesting.Numbering
import MarkupNesting.Proofs.Number.Digits
import MarkupNesting.Tree

/-! What a builder makes: a tree whose nodes are named children first, in one series, unless some
recorded depth is past the limit. -/

namespace MarkupNesting

theorem nameIn_eq (series : String) (n : Nat) : nameIn series n = series ++ "-" ++ toString n := by
  rw [nameIn, Decimal.text_eq_toString]

theorem nameIn_injective {series : String} {m n : Nat} (h : nameIn series m = nameIn series n) :
    m = n := by
  apply Decimal.text_injective
  have hl := congrArg String.toList h
  simp only [nameIn, String.toList_append] at hl
  exact String.toList_injective (List.append_cancel_left hl)

theorem firstNames_nodup (series : String) (count : Nat) : (firstNames series count).Nodup :=
  (List.nodup_range).map fun _ _ h => nameIn_injective h

theorem firstNames_eq (series : String) (count : Nat) :
    firstNames series count = (List.range count).map fun n => series ++ "-" ++ toString n :=
  List.map_congr_left fun n _ => nameIn_eq series n

namespace Tree

mutual

/-- A tree with its nodes named from `n` on, all children before their parents. -/
def named (n : Nat) : Tree → Tree
  | ⟨_, tag, children, depth, attributes⟩ =>
    ⟨nameIn "node" (n + countAll children), tag, namedAll n children, depth, attributes⟩

def namedAll (n : Nat) : List Tree → List Tree
  | [] => []
  | t :: ts => t.named n :: namedAll (n + t.count) ts

end

theorem named_id (n : Nat) (t : Tree) : (t.named n).id = nameIn "node" (n + countAll t.children) := by
  cases t
  rfl

theorem named_children (n : Nat) (t : Tree) : (t.named n).children = namedAll n t.children := by
  cases t
  rfl

theorem namedAll_append (n : Nat) (ss ts : List Tree) :
    namedAll n (ss ++ ts) = namedAll n ss ++ namedAll (n + countAll ss) ts := by
  induction ss generalizing n with
  | nil => simp [namedAll, countAll]
  | cons s ss ih => simp [namedAll, countAll, ih, Nat.add_assoc]

theorem namedAll_eq_nil_iff {n : Nat} {ts : List Tree} : namedAll n ts = [] ↔ ts = [] := by
  cases ts <;> simp [namedAll]

theorem countAll_eq_zero_iff {ts : List Tree} : countAll ts = 0 ↔ ts = [] := by
  cases ts with
  | nil => simp [countAll]
  | cons t ts =>
    have h := t.count_pos
    simp only [countAll, reduceCtorEq, iff_false]
    omega

mutual

/-- The greatest depth recorded in a tree. -/
def deepest : Tree → Nat
  | ⟨_, _, children, depth, _⟩ => max (depth.getD 0) (deepestAll children)

def deepestAll : List Tree → Nat
  | [] => 0
  | t :: ts => max t.deepest (deepestAll ts)

end

theorem deepestAll_append (ss ts : List Tree) :
    deepestAll (ss ++ ts) = max (deepestAll ss) (deepestAll ts) := by
  induction ss with
  | nil => simp [deepestAll]
  | cons s ss ih => simp [deepestAll, ih, Nat.max_assoc]

theorem lt_deepestAll_iff {k : Nat} {ts : List Tree} :
    k < deepestAll ts ↔ ∃ t ∈ ts, k < t.deepest := by
  induction ts with
  | nil => simp [deepestAll]
  | cons t ts ih => rw [deepestAll, lt_max_iff, ih, List.exists_mem_cons_iff]

theorem deepestAll_le {ts : List Tree} {k : Nat} (h : ∀ t ∈ ts, t.deepest ≤ k) :
    deepestAll ts ≤ k := by
  by_contra hk
  obtain ⟨t, ht, hlt⟩ := lt_deepestAll_iff.mp (Nat.lt_of_not_le hk)
  exact Nat.not_le_of_lt hlt (h t ht)

mutual

/-- A tree without names whose nodes record their level, the root's being `d`. -/
def leveled (d : Nat) : Tree → Tree
  | ⟨_, tag, children, _, attributes⟩ =>
    ⟨"", tag, leveledAll (d + 1) children, some d, attributes⟩

def leveledAll (d : Nat) : List Tree → List Tree
  | [] => []
  | t :: ts => t.leveled d :: leveledAll d ts

end

@[simp] theorem leveled_tag (d : Nat) (t : Tree) : (t.leveled d).tag = t.tag := by
  cases t
  rfl

theorem leveledAll_eq_map (d : Nat) (ts : List Tree) : leveledAll d ts = ts.map (leveled d) := by
  induction ts with
  | nil => rfl
  | cons t ts ih => simp [leveledAll, ih]

mutual

/-- How far the deepest node of a tree is from the root. -/
def height : Tree → Nat
  | ⟨_, _, children, _, _⟩ => heightBelow children

def heightBelow : List Tree → Nat
  | [] => 0
  | t :: ts => max (t.height + 1) (heightBelow ts)

end

mutual

/-- The tags and the shape of a tree, with nothing else recorded. -/
def plain : Tree → Tree
  | ⟨_, tag, children, _, _⟩ => ⟨"", tag, plainAll children, none, none⟩

def plainAll : List Tree → List Tree
  | [] => []
  | t :: ts => t.plain :: plainAll ts

end

theorem plainAll_eq_map (ts : List Tree) : plainAll ts = ts.map plain := by
  induction ts with
  | nil => rfl
  | cons t ts ih => simp [plainAll, ih]

mutual

theorem height_plain : (t : Tree) → t.plain.height = t.height
  | ⟨_, _, children, _, _⟩ => heightBelow_plainAll children

theorem heightBelow_plainAll : (ts : List Tree) → heightBelow (plainAll ts) = heightBelow ts
  | [] => rfl
  | t :: ts => by rw [plainAll, heightBelow, heightBelow, height_plain t, heightBelow_plainAll ts]

end

mutual

theorem deepest_leveled (d : Nat) : (t : Tree) → (t.leveled d).deepest = d + t.height
  | ⟨_, _, children, _, _⟩ => by
    have h := deepestAll_leveledAll d children
    simp only [leveled, deepest, height, Option.getD_some]
    omega

theorem deepestAll_leveledAll (d : Nat) : (ts : List Tree) →
    max d (deepestAll (leveledAll (d + 1) ts)) = d + heightBelow ts
  | [] => by simp [leveledAll, deepestAll, heightBelow]
  | t :: ts => by
    have h1 := deepest_leveled (d + 1) t
    have h2 := deepestAll_leveledAll d ts
    simp only [leveledAll, deepestAll, heightBelow]
    omega

end

end Tree

namespace Builder

open MarkupNesting.Tree

/-- Gives a tree with its nodes named, if no depth recorded in it is past the limit. -/
def give (t : Tree) : Builder Tree := fun n =>
  if t.deepest ≤ nestingLimit then .ok (t.named n, n + t.count)
  else .error (.nestingTooDeep nestingLimit)

def giveAll (ts : List Tree) : Builder (List Tree) := fun n =>
  if deepestAll ts ≤ nestingLimit then .ok (namedAll n ts, n + countAll ts)
  else .error (.nestingTooDeep nestingLimit)

theorem run'_give (t : Tree) (n : Nat) :
    (give t).run' n =
      if t.deepest ≤ nestingLimit then .ok (t.named n) else .error (.nestingTooDeep nestingLimit) := by
  simp only [StateT.run', give]
  split <;> rfl

theorem run'_giveAll (ts : List Tree) (n : Nat) :
    (giveAll ts).run' n =
      if deepestAll ts ≤ nestingLimit then .ok (namedAll n ts)
      else .error (.nestingTooDeep nestingLimit) := by
  simp only [StateT.run', giveAll]
  split <;> rfl

theorem give_of_le {t : Tree} (h : t.deepest ≤ nestingLimit) (n : Nat) :
    give t n = .ok (t.named n, n + t.count) := if_pos h

theorem give_of_lt {t : Tree} (h : nestingLimit < t.deepest) (n : Nat) :
    give t n = .error (.nestingTooDeep nestingLimit) := if_neg (Nat.not_le.mpr h)

theorem giveAll_of_le {ts : List Tree} (h : deepestAll ts ≤ nestingLimit) (n : Nat) :
    giveAll ts n = .ok (namedAll n ts, n + countAll ts) := if_pos h

theorem giveAll_of_lt {ts : List Tree} (h : nestingLimit < deepestAll ts) (n : Nat) :
    giveAll ts n = .error (.nestingTooDeep nestingLimit) := if_neg (Nat.not_le.mpr h)

theorem give_fails_iff {t : Tree} {k : Nat} : (∃ e, give t k = .error e) ↔ nestingLimit < t.deepest := by
  by_cases h : t.deepest ≤ nestingLimit
  · simp [give_of_le h, h]
  · simp [give_of_lt (Nat.lt_of_not_le h), Nat.lt_of_not_le h]

theorem giveAll_fails_iff {ts : List Tree} {k : Nat} :
    (∃ e, giveAll ts k = .error e) ↔ ∃ t ∈ ts, nestingLimit < t.deepest := by
  rw [← lt_deepestAll_iff]
  by_cases h : deepestAll ts ≤ nestingLimit
  · simp [giveAll_of_le h, h]
  · simp [giveAll_of_lt (Nat.lt_of_not_le h), Nat.lt_of_not_le h]

theorem check_of_le {depth : Nat} (h : depth ≤ nestingLimit) (n : Nat) :
    check depth n = .ok ((), n) := by
  simp [check, checkNesting, Nat.not_lt.mpr h, Except.map]

theorem check_of_lt {depth : Nat} (h : nestingLimit < depth) (n : Nat) :
    check depth n = .error (.nestingTooDeep nestingLimit) := by
  simp [check, checkNesting, h, Except.map]

theorem bind_apply {α β : Type} (x : Builder α) (f : α → Builder β) (n : Nat) :
    (x >>= f) n = match x n with
      | .ok (a, m) => f a m
      | .error e => .error e := by
  simp only [bind, StateT.bind, Except.bind]
  cases x n <;> rfl

theorem pure_apply {α : Type} (a : α) (n : Nat) : (pure a : Builder α) n = .ok (a, n) := rfl

theorem fresh_apply (n : Nat) : fresh n = .ok (nameIn "node" n, n + 1) := rfl

theorem giveAll_nil : giveAll [] = pure [] := by
  funext n
  exact giveAll_of_le (Nat.zero_le _) n

theorem giveAll_append (ss ts : List Tree) :
    giveAll (ss ++ ts) = do
      let a ← giveAll ss
      let b ← giveAll ts
      return a ++ b := by
  funext n
  have hd := deepestAll_append ss ts
  simp only [bind_apply, pure_apply]
  by_cases hs : deepestAll ss ≤ nestingLimit
  · by_cases ht : deepestAll ts ≤ nestingLimit
    · rw [giveAll_of_le hs, giveAll_of_le (by omega)]
      simp [giveAll_of_le ht, namedAll_append, Nat.add_assoc]
    · rw [giveAll_of_le hs, giveAll_of_lt (by omega)]
      simp [giveAll_of_lt (Nat.lt_of_not_le ht)]
  · rw [giveAll_of_lt (Nat.lt_of_not_le hs), giveAll_of_lt (by omega)]

theorem giveAll_singleton (t : Tree) : giveAll [t] = (fun t => [t]) <$> give t := by
  funext n
  have hd : deepestAll [t] = t.deepest := Nat.max_zero _
  simp only [map_eq_pure_bind, bind_apply, pure_apply]
  by_cases h : t.deepest ≤ nestingLimit
  · rw [give_of_le h, giveAll_of_le (by omega)]
    rfl
  · rw [give_of_lt (Nat.lt_of_not_le h), giveAll_of_lt (by omega)]

theorem giveAll_cons (t : Tree) (ts : List Tree) :
    giveAll (t :: ts) = do
      let a ← give t
      let b ← giveAll ts
      return a :: b := by
  have h := giveAll_append [t] ts
  simpa [giveAll_singleton] using h

/-- A node is given by giving its children and then naming it. -/
theorem give_mk (tag : String) (children : List Tree) (depth : Nat)
    (attributes : Option Attributes) :
    give ⟨"", tag, children, some depth, attributes⟩ = do
      check depth
      let cs ← giveAll children
      return ⟨← fresh, tag, cs, some depth, attributes⟩ := by
  funext n
  have hd : (⟨"", tag, children, some depth, attributes⟩ : Tree).deepest =
    max depth (deepestAll children) := rfl
  simp only [bind_apply]
  by_cases h1 : depth ≤ nestingLimit
  · rw [check_of_le h1]
    by_cases h2 : deepestAll children ≤ nestingLimit
    · rw [give_of_le (by omega)]
      simp only [giveAll_of_le h2]
      rfl
    · rw [give_of_lt (by omega)]
      simp only [giveAll_of_lt (Nat.lt_of_not_le h2)]
  · rw [check_of_lt (Nat.lt_of_not_le h1), give_of_lt (by omega)]

theorem mapM_give {α : Type} (f : α → Tree) (xs : List α) :
    xs.mapM (fun x => give (f x)) = giveAll (xs.map f) := by
  induction xs with
  | nil => simp [giveAll_nil]
  | cons x xs ih => simp [giveAll_cons, ih]

end Builder

end MarkupNesting
