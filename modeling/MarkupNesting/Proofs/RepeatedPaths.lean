import MarkupNesting.Proofs.Findings
import MarkupNesting.Proofs.Html.TagNames
import MarkupNesting.Proofs.Limits

/-! Which suggestions are left out because one before them is about the same path. Paths are
compared as they are written out, with a slash between the tags; so two paths are taken for one only
if a tag holds a slash, which no tag of an HTML document does. -/

namespace MarkupNesting.Advice

open MarkupNesting.Tree

section

variable {α : Type} [DecidableEq α] (view : List String → α)

/-- Whether a suggestion repeats one of those before it: both are about deep nestings, and in the
given view their paths are the same. -/
def Repeats (before : List Suggestion) (s : Suggestion) : Prop :=
  s.finding = .deepNesting ∧ ∃ r ∈ before, r.finding = .deepNesting ∧ view r.path = view s.path

instance (before : List Suggestion) (s : Suggestion) : Decidable (Repeats view before s) :=
  inferInstanceAs (Decidable (_ ∧ _))

/-- Suggestions in their order, but for those that repeat one of the suggestions before them. -/
def withoutRepeats (ss : List Suggestion) : List Suggestion :=
  ((ss.inits.zip ss).filter fun p => ¬ Repeats view p.1 p.2).map Prod.snd

variable {view}

theorem withoutRepeats_congr {β : Type} [DecidableEq β] {other : List String → β}
    {ss : List Suggestion}
    (h : ∀ r ∈ ss, ∀ s ∈ ss, view r.path = view s.path ↔ other r.path = other s.path) :
    withoutRepeats view ss = withoutRepeats other ss := by
  have hrepeats : ∀ p ∈ ss.inits.zip ss, Repeats view p.1 p.2 ↔ Repeats other p.1 p.2 := by
    rintro ⟨before, s⟩ hp
    obtain ⟨hbefore, hs⟩ := List.of_mem_zip hp
    have hsub := ((List.mem_inits _ _).mp hbefore).subset
    refine and_congr_right fun _ => exists_congr fun r => and_congr_right fun hr => ?_
    rw [h r (hsub hr) s hs]
  rw [withoutRepeats, withoutRepeats]
  congr 1
  apply List.filter_congr
  intro p hp
  simp only [hrepeats p hp]

end

/-- The paths seen are those of the deep nestings among some suggestions, written out. -/
def HasSeen (seen : List String) (before : List Suggestion) : Prop :=
  ∀ path, path ∈ seen ↔ ∃ r ∈ before, r.finding = .deepNesting ∧ "/".intercalate r.path = path

variable {seen : List String} {before : List Suggestion} {s : Suggestion}

theorem hasSeen_nil : HasSeen [] [] := by simp [HasSeen]

theorem HasSeen.append (h : HasSeen seen before)
    (hs : s.finding = .deepNesting → "/".intercalate s.path ∈ seen) : HasSeen seen (before ++ [s]) := by
  intro path
  simp only [List.mem_append, List.mem_singleton, or_and_right, exists_or, exists_eq_left, ← h path,
    iff_self_or]
  rintro ⟨hd, rfl⟩
  exact hs hd

theorem HasSeen.cons_append (h : HasSeen seen before) (hd : s.finding = .deepNesting) :
    HasSeen ("/".intercalate s.path :: seen) (before ++ [s]) := by
  intro path
  rw [List.mem_cons, h path, or_comm, eq_comm (a := path)]
  simp only [List.mem_append, List.mem_singleton, or_and_right, exists_or, exists_eq_left, hd,
    true_and]

theorem HasSeen.repeats_iff (h : HasSeen seen before) :
    Repeats ("/".intercalate ·) before s ↔
      s.finding = .deepNesting ∧ "/".intercalate s.path ∈ seen := by
  rw [Repeats, h]

theorem dedupe_eq_filter (h : HasSeen seen before) (ss : List Suggestion) :
    dedupe seen ss = (((ss.inits.map (before ++ ·)).zip ss).filter
      fun p => ¬ Repeats ("/".intercalate ·) p.1 p.2).map Prod.snd := by
  induction ss generalizing seen before with
  | nil => rfl
  | cons s ss ih =>
    have hrest : (ss.inits.map (s :: ·)).map (before ++ ·) = ss.inits.map ((before ++ [s]) ++ ·) := by
      simp [Function.comp_def]
    rw [List.inits_cons, List.map_cons, hrest, List.append_nil, List.zip_cons_cons, List.filter_cons]
    by_cases hd : s.finding = .deepNesting
    · by_cases hs : "/".intercalate s.path ∈ seen
      · have hih := ih (h.append fun _ => hs)
        simp [dedupe, hd, hs, h.repeats_iff, hih]
      · have hih := ih (h.cons_append hd)
        simp [dedupe, hd, hs, h.repeats_iff, hih]
    · have hih := ih (h.append fun hd' => absurd hd' hd)
      simp [dedupe, hd, h.repeats_iff, hih]

theorem dedupe_sublist (seen : List String) (ss : List Suggestion) : (dedupe seen ss).Sublist ss := by
  induction ss generalizing seen with
  | nil => exact .slnil
  | cons s ss ih =>
    rw [dedupe]
    dsimp only
    split_ifs
    · exact .cons s (ih seen)
    · exact .cons_cons s (ih _)
    · exact .cons_cons s (ih seen)

theorem exists_kept (seen : List String) {ss : List Suggestion} {s : Suggestion} (hs : s ∈ ss)
    (hf : s.finding = .deepNesting) (hseen : "/".intercalate s.path ∉ seen) :
    ∃ r ∈ dedupe seen ss, r.finding = .deepNesting ∧
      "/".intercalate r.path = "/".intercalate s.path := by
  induction ss generalizing seen with
  | nil => cases hs
  | cons q ss ih =>
    rw [dedupe]
    dsimp only
    by_cases hq : q.finding = .deepNesting
    · by_cases hpath : "/".intercalate q.path = "/".intercalate s.path
      · have hnew : ¬ seen.contains ("/".intercalate q.path) = true := by
          rw [hpath]
          simpa using hseen
        rw [if_pos hq, if_neg hnew]
        exact ⟨q, List.mem_cons_self, hq, hpath⟩
      · have hrest : s ∈ ss := by
          rcases List.mem_cons.mp hs with rfl | h
          · exact absurd rfl hpath
          · exact h
        rw [if_pos hq]
        split
        · exact ih seen hrest hseen
        · obtain ⟨r, hr, h1, h2⟩ := ih ("/".intercalate q.path :: seen) hrest
            (by simpa [hseen] using Ne.symm hpath)
          exact ⟨r, List.mem_cons_of_mem _ hr, h1, h2⟩
    · have hrest : s ∈ ss := by
        rcases List.mem_cons.mp hs with rfl | h
        · exact absurd hf hq
        · exact h
      rw [if_neg hq]
      obtain ⟨r, hr, h1, h2⟩ := ih seen hrest hseen
      exact ⟨r, List.mem_cons_of_mem _ hr, h1, h2⟩

theorem dedupe_eq_withoutRepeats (ss : List Suggestion) :
    dedupe [] ss = withoutRepeats ("/".intercalate ·) ss := by
  rw [dedupe_eq_filter hasSeen_nil, withoutRepeats]
  simp

theorem joined_injective {p q : List String} (hp : p ≠ []) (hq : q ≠ [])
    (hps : ∀ tag ∈ p, '/' ∉ tag.toList) (hqs : ∀ tag ∈ q, '/' ∉ tag.toList)
    (h : "/".intercalate p = "/".intercalate q) : p = q := by
  have hsplit : ∀ r : List String, r ≠ [] → (∀ tag ∈ r, '/' ∉ tag.toList) →
      ("/".intercalate r).toList.splitOn '/' = r.map String.toList := by
    intro r hr hrs
    rw [String.toList_intercalate]
    exact List.splitOn_intercalate '/' (by simpa using hrs) (by simpa using hr)
  have h1 : p.map String.toList = q.map String.toList := by
    rw [← hsplit p hp hps, h, hsplit q hq hqs]
  exact List.map_injective_iff.mpr (fun _ _ => String.toList_inj.mp) h1

section

variable {t : Tree} (ht : ∀ v ∈ t.walk 0 [], '/' ∉ v.node.tag.toList)

include ht

theorem path_eq_of_joined {v w : Visit} (hv : v ∈ t.walk 0 []) (hw : w ∈ t.walk 0 [])
    (h : "/".intercalate v.path = "/".intercalate w.path) : v.path = w.path := by
  have hslash : ∀ u ∈ t.walk 0 [], ∀ tag ∈ u.path, '/' ∉ tag.toList := fun u hu =>
    mem_path_of_mem_walk ht hu
  exact joined_injective (path_ne_nil_of_mem_walk hv) (path_ne_nil_of_mem_walk hw) (hslash v hv)
    (hslash w hw) h

theorem dedupe_scan : dedupe [] (scan t rules) = withoutRepeats (fun path => path) (scan t rules) := by
  rw [dedupe_eq_withoutRepeats]
  apply withoutRepeats_congr
  intro r hr s hs
  obtain ⟨v, hv, f, -, rfl⟩ := mem_scan_iff.mp hr
  obtain ⟨w, hw, g, -, rfl⟩ := mem_scan_iff.mp hs
  exact ⟨path_eq_of_joined ht hv hw, congrArg _⟩

end

/-- The suggestions on a tree are those of the scan in their order, and all of those on wrappers. A
deep nesting is left out exactly if an earlier one has the same path, written out with slashes
between the tags; where no tag holds a slash, exactly if an earlier one has the same tags as its path. -/
theorem kept_suggestions (t : Tree) (maxDepth : Nat) :
    (ofTree t maxDepth).suggestions = withoutRepeats ("/".intercalate ·) (scan t rules) ∧
      ((∀ v ∈ t.walk 0 [], '/' ∉ v.node.tag.toList) →
        (ofTree t maxDepth).suggestions = withoutRepeats (fun path => path) (scan t rules)) :=
  ⟨dedupe_eq_withoutRepeats _, fun ht => dedupe_scan ht⟩

/-- Two deep items of one list, of which the first has the same tags above it as the second. -/
theorem kept_suggestions_items :
    let item : Tree := ⟨"", "li", [⟨"", "a", [], some 11, none⟩], some 10, none⟩
    let list : Tree := ⟨"", "ul", [item, item], some 9, none⟩
    (∀ v ∈ list.walk 0 [], '/' ∉ v.node.tag.toList) ∧
      (scan list rules).map Suggestion.path = [["ul", "li"], ["ul", "li"]] ∧
      (ofTree list 2).suggestions = withoutRepeats (fun path => path) (scan list rules) ∧
      (ofTree list 2).suggestions.map Suggestion.path = [["ul", "li"]] := by
  intro item list
  have ht : ∀ v ∈ list.walk 0 [], '/' ∉ v.node.tag.toList := by decide
  refine ⟨ht, ?_, (kept_suggestions list 2).2 ht, ?_⟩
  · rw [scan_eq_flatMap]
    decide
  · rw [suggestions_eq]
    decide

/-- Two paths that differ are written out alike, and the suggestion on the second one is left out. -/
theorem slash_hides_suggestion :
    let leaf : Tree := ⟨"", "i", [], none, none⟩
    let list : Tree := ⟨"", "ul", [⟨"", "a/b", [leaf], some 10, none⟩,
      ⟨"", "a", [⟨"", "b", [leaf], some 10, none⟩], none, none⟩], none, none⟩
    (ofTree list 3).suggestions.map Suggestion.path = [["ul", "a/b"]] ∧
      (withoutRepeats (fun path => path) (scan list rules)).map Suggestion.path =
        [["ul", "a/b"], ["ul", "a", "b"]] := by
  intro leaf list
  rw [suggestions_eq, scan_eq_flatMap]
  decide

theorem suggestions_html {source : String} {a : Analysis} (h : analyze source .html = .ok a) :
    a.advice.suggestions = withoutRepeats (fun path => path) (scan a.tree rules) := by
  obtain ⟨t, hb, -, rfl⟩ := analyze_eq_ok_iff.mp h
  have hw := (buildTree_eq_ok_iff.mp hb).2.1
  rw [wholeTree_html] at hw
  exact dedupe_scan (Html.slash_not_mem_tag hw)

end MarkupNesting.Advice
