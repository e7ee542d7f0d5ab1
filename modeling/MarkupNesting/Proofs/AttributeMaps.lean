import Mathlib
import MarkupNesting.Attributes

/-! Maps of attributes: what is found under a name in the map of a list, and the map of a list whose
names are already in order. -/

namespace MarkupNesting.Attributes

variable {keep : String → String → String}

theorem insertEntry_last {name value : String} {es : List (String × String)}
    (h : ∀ e ∈ es, e.1 < name) : insertEntry keep name value es = es ++ [(name, value)] := by
  induction es with
  | nil => rfl
  | cons e es ih =>
    have h1 : e.1 < name := h e (by simp)
    have h2 : ¬ name < e.1 := fun h2 => String.lt_irrefl name (String.lt_trans h2 h1)
    rw [insertEntry, if_neg h2, if_pos h1, ih fun x hx => h x (by simp [hx])]
    rfl

/-- Adding names in order adds them at the end, whichever value of a name stays. -/
theorem entries_foldl {add : Attributes → String → String → Attributes}
    (hadd : ∀ a name value, (add a name value).entries = insertEntry keep name value a.entries)
    {a : Attributes} {es : List (String × String)} (h : (a.entries ++ es).Pairwise (·.1 < ·.1)) :
    (es.foldl (fun a e => add a e.1 e.2) a).entries = a.entries ++ es := by
  induction es generalizing a with
  | nil => simp
  | cons e es ih =>
    have hlast : ∀ x ∈ a.entries, x.1 < e.1 := fun x hx =>
      (List.pairwise_append.mp h).2.2 x hx e (by simp)
    have hone : (add a e.1 e.2).entries = a.entries ++ [e] :=
      (hadd a e.1 e.2).trans (insertEntry_last hlast)
    rw [List.foldl_cons, ih (by rw [hone]; simpa using h), hone]
    simp

theorem ofFirst_entries (a : Attributes) : ofFirst a.entries = a :=
  ext_entries (entries_foldl (fun _ _ _ => rfl) a.sorted)

theorem ofLast_entries (a : Attributes) : ofLast a.entries = a :=
  ext_entries (entries_foldl (fun _ _ _ => rfl) a.sorted)

theorem lookup_cons_eq (k n v : String) (es : List (String × String)) :
    List.lookup k ((n, v) :: es) = if k = n then some v else es.lookup k := by
  rw [List.lookup_cons]
  by_cases h : k = n
  · simp [h]
  · rw [if_neg h, beq_false_of_ne h]

theorem lookup_eq_none {k : String} {es : List (String × String)} (h : ∀ e ∈ es, k < e.1) :
    es.lookup k = none := by
  rw [List.lookup_eq_none_iff]
  intro e he
  have hne : k ≠ e.1 := fun heq => String.lt_irrefl k (heq.symm ▸ h e he : k < k)
  simp [hne]

/-- Of two values of a name the one that was there stays. -/
theorem lookup_insertEntry (name value k : String) {es : List (String × String)}
    (h : es.Pairwise (·.1 < ·.1)) :
    (insertEntry (fun old _ => old) name value es).lookup k =
      (es.lookup k).or (if k = name then some value else none) := by
  induction es with
  | nil => rw [insertEntry, lookup_cons_eq]; rfl
  | cons e es ih =>
    obtain ⟨n, v⟩ := e
    rw [List.pairwise_cons] at h
    rw [insertEntry]
    split
    · next hlt =>
      by_cases hk : k = name
      · subst hk
        have hnone : List.lookup k ((n, v) :: es) = none := lookup_eq_none
          (List.forall_mem_cons.mpr ⟨hlt, fun e he => String.lt_trans hlt (h.1 e he)⟩)
        simp [hnone]
      · rw [lookup_cons_eq, if_neg hk, if_neg hk, Option.or_none]
    · split
      · rw [lookup_cons_eq, lookup_cons_eq, ih h.2]
        split <;> simp
      · next h1 h2 =>
        have hn : n = name := String.le_antisymm (String.not_lt.mp h1) (String.not_lt.mp h2)
        subst hn
        rw [lookup_cons_eq]
        split
        · rfl
        · exact Option.or_none.symm

theorem get?_addFirst (a : Attributes) (name value k : String) :
    (a.addFirst name value).get? k = (a.get? k).or (if k = name then some value else none) :=
  lookup_insertEntry name value k a.sorted

/-- The map of a list has the first value of every name. -/
theorem get?_ofFirst (es : List (String × String)) (k : String) : (ofFirst es).get? k = es.lookup k := by
  have h (a : Attributes) : (es.foldl (fun a e => a.addFirst e.1 e.2) a).get? k =
      (a.get? k).or (es.lookup k) := by
    induction es generalizing a with
    | nil => exact Option.or_none.symm
    | cons e es ih =>
      rw [List.foldl_cons, ih, get?_addFirst, Option.or_assoc, lookup_cons_eq]
      split <;> simp
  exact h empty

def names (a : Attributes) : List String := a.entries.map (·.1)

theorem get?_eq_some_iff {a : Attributes} {k v : String} : a.get? k = some v ↔ (k, v) ∈ a.entries := by
  obtain ⟨es, h⟩ := a
  rw [get?]
  induction es with
  | nil => simp
  | cons e es ih =>
    obtain ⟨n, w⟩ := e
    rw [List.pairwise_cons] at h
    have hv : (n, v) ∉ es := fun hm => String.lt_irrefl n (h.1 _ hm)
    rw [lookup_cons_eq, List.mem_cons, Prod.mk.injEq]
    split
    · next hk => subst hk; simp [hv, eq_comm]
    · next hk => simpa [hk] using ih h.2

theorem mem_names_iff {a : Attributes} {k : String} : k ∈ a.names ↔ (a.get? k).isSome = true := by
  simp [names, Option.isSome_iff_exists, get?_eq_some_iff]

theorem ext_get? {a b : Attributes} (h : ∀ k, a.get? k = b.get? k) : a = b := by
  have hne {e f : String × String} (hlt : e.1 < f.1) : e ≠ f := fun heq =>
    String.lt_irrefl f.1 (heq ▸ hlt)
  have hnodup (c : Attributes) : c.entries.Nodup := c.sorted.imp hne
  have hperm : a.entries.Perm b.entries := by
    refine (List.perm_ext_iff_of_nodup (hnodup a) (hnodup b)).mpr fun e => ?_
    rw [← get?_eq_some_iff, ← get?_eq_some_iff, h]
  refine ext_entries (hperm.eq_of_pairwise (fun e f _ _ h1 h2 => ?_) a.sorted b.sorted)
  exact absurd (String.lt_trans h1 h2) (String.lt_irrefl _)

end MarkupNesting.Attributes
