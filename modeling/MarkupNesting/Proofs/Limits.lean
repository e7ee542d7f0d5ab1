import MarkupNesting.Proofs.EncodedHeight
import MarkupNesting.Proofs.Html.RoundTrip
import MarkupNesting.Proofs.RecordedDepths

/-! What the two limits on the size of a tree let through: every tree whose nodes record no depth
past the first and whose binary form is no higher than the second, as it is, and no other. -/

namespace MarkupNesting

namespace Tree

/-- Whether some node of a tree records a depth past a limit. -/
def RecordsPast (t : Tree) (limit : Nat) : Prop :=
  ∃ v ∈ t.walk 0 [], ∃ e, v.node.depth = some e ∧ limit < e

mutual

theorem exists_mem_walk_iff (limit level : Nat) (above : List String) : (t : Tree) →
    ((∃ v ∈ t.walk level above, ∃ e, v.node.depth = some e ∧ limit < e) ↔ limit < t.deepest)
  | ⟨_, tag, children, depth, _⟩ => by
    have h := exists_mem_walkAll_iff limit (level + 1) (above ++ [tag]) children
    simp only [walk, List.exists_mem_cons_iff, h, deepest, lt_max_iff]
    cases depth <;> simp

theorem exists_mem_walkAll_iff (limit level : Nat) (above : List String) : (ts : List Tree) →
    ((∃ v ∈ walkAll level above ts, ∃ e, v.node.depth = some e ∧ limit < e) ↔
      limit < deepestAll ts)
  | [] => by simp [walkAll, deepestAll]
  | t :: ts => by
    have ht := exists_mem_walk_iff limit level above t
    have hts := exists_mem_walkAll_iff limit level above ts
    simp only [walkAll, List.mem_append, or_and_right, exists_or, ht, hts, deepestAll, lt_max_iff]

end

theorem recordsPast_iff {t : Tree} {limit : Nat} : t.RecordsPast limit ↔ limit < t.deepest :=
  exists_mem_walk_iff limit 0 [] t

mutual

theorem formHeight_leveled (d : Nat) : (t : Tree) → (t.leveled d).formHeight = t.formHeight
  | ⟨_, _, children, _, _⟩ => formHeightAll_leveledAll (d + 1) children

theorem formHeightAll_leveledAll (d : Nat) : (ts : List Tree) →
    formHeightAll (leveledAll d ts) = formHeightAll ts
  | [] => rfl
  | t :: ts => by
    rw [leveledAll, formHeightAll, formHeightAll, formHeight_leveled d t, formHeightAll_leveledAll d ts]

end

mutual

theorem formHeight_named (n : Nat) : (t : Tree) → (t.named n).formHeight = t.formHeight
  | ⟨_, _, children, _, _⟩ => formHeightAll_namedAll n children

theorem formHeightAll_namedAll (n : Nat) : (ts : List Tree) →
    formHeightAll (namedAll n ts) = formHeightAll ts
  | [] => rfl
  | t :: ts => by
    rw [namedAll, formHeightAll, formHeightAll, formHeight_named n t,
      formHeightAll_namedAll (n + t.count) ts]

end

end Tree

open MarkupNesting.Tree

theorem analyze_of_error {source : String} {d : Dialect} {e : Failure}
    (h : buildTree source d = .error e) : analyze source d = .error e := by
  rw [analyze, h]
  rfl

theorem analyze_of_ok {source : String} {d : Dialect} {t : Tree} (h : buildTree source d = .ok t) :
    analyze source d =
      if heightLimit < t.encode.height then .error (.encodingTooDeep heightLimit)
      else .ok ⟨t, t.encode, .ofTree t, .ofTree t (Statistics.ofTree t).maxDepth⟩ := by
  rw [analyze, h, height_encode]
  by_cases hh : heightLimit < t.encodedHeight
  · have hc : checkHeight t = .error (.encodingTooDeep heightLimit) := if_pos hh
    rw [if_pos hh]
    simp only [bind, Except.bind, hc]
  · have hc : checkHeight t = .ok () := if_neg hh
    rw [if_neg hh]
    simp only [bind, Except.bind, hc]
    rfl

theorem analyze_eq_ok_iff {source : String} {d : Dialect} {a : Analysis} :
    analyze source d = .ok a ↔
      ∃ t, buildTree source d = .ok t ∧ t.encode.height ≤ heightLimit ∧
        a = ⟨t, t.encode, .ofTree t, .ofTree t (Statistics.ofTree t).maxDepth⟩ := by
  cases h : buildTree source d with
  | error e => simp [analyze_of_error h]
  | ok t =>
    rw [analyze_of_ok h]
    split
    · next hl => simp [Nat.not_le.mpr hl]
    · next hl => simp [Nat.le_of_not_lt hl, eq_comm]

namespace Html

theorem wholeTree_written {t : Tree} {source : String} (h : Written [t] source.toList)
    (hroom : t.height < 1018) : wholeTree (documentOf source) = some ((t.leveled 0).named 0) := by
  obtain ⟨ns, hns, hd⟩ := readDocument_written h (by simp only [heightBelow]; omega)
  have hremaining := remaining_holds hns fun u hu => isBodyTag_flow u.tag (h.tag_mem u hu)
  obtain ⟨n, hn, hshape⟩ := List.map_eq_singleton_iff.mp (hns.shapes 0)
  rw [documentOf, hd, wholeTree, Body.elements_eq_remaining, hremaining, hn]
  exact congrArg (fun u : Tree => some (u.named 0)) hshape

def enclosed (tag : String) (inner : List Char) : List Char :=
  startTagText tag none ++ inner ++ endTagText tag

theorem trim_enclosed (tag : String) (inner : List Char) :
    trim (String.ofList (enclosed tag inner)) = String.ofList (enclosed tag inner) := by
  have h : enclosed tag inner =
      '<' :: (tag.toList ++ '>' :: (inner ++ '<' :: '/' :: tag.toList)) ++ ['>'] := by
    simp [enclosed, startTagText, endTagText, entriesOf]
  have hfirst : isBlank '<' = false := by decide
  have hlast : isBlank '>' = false := by decide
  rw [trim, String.toList_ofList, h, trimChars]
  simp [hfirst, hlast]

theorem Written.enclosed {tag : String} {children rest : List Tree} {inner after : List Char}
    (htag : tag ∈ flowTags) (h : Written children inner) (hrest : Written rest after) :
    Written (⟨"", tag, children, none, none⟩ :: rest) (enclosed tag inner ++ after) := by
  have hempty : IsPlainText [] := by decide
  have hnone : Writable none := by simp [Writable]
  exact .element hempty htag hnone h hrest

def nested : Nat → List Tree
  | 0 => []
  | n + 1 => [⟨"", "b", nested n, none, none⟩]

def nestedText : Nat → List Char
  | 0 => []
  | n + 1 => enclosed "b" (nestedText n)

theorem written_nested (n : Nat) : Written (nested n) (nestedText n) := by
  have hend : Written [] [] := .text (by decide)
  induction n with
  | zero => exact hend
  | succ n ih =>
    have h := ih.enclosed (by decide : "b" ∈ flowTags) hend
    rwa [List.append_nil] at h

theorem heightBelow_nested (n : Nat) : heightBelow (nested n) = n := by
  induction n with
  | zero => rfl
  | succ n ih => rw [nested, heightBelow, heightBelow, height, ih, Nat.max_zero]

theorem formHeightAll_nested (n : Nat) : formHeightAll (nested n) = n := by
  induction n with
  | zero => rfl
  | succ n ih => rw [nested, formHeightAll, formHeightAll, formHeight, ih, Nat.max_zero]

def row (n : Nat) : List Tree := List.replicate n ⟨"", "b", [], none, none⟩

def rowText (n : Nat) : List Char := (List.replicate n (enclosed "b" [])).flatten

theorem written_row (n : Nat) : Written (row n) (rowText n) := by
  have hend : Written [] [] := .text (by decide)
  induction n with
  | zero => exact hend
  | succ n ih =>
    rw [row, rowText, List.replicate_succ, List.replicate_succ, List.flatten_cons]
    exact hend.enclosed (by decide) ih

theorem heightBelow_row_le (n : Nat) : heightBelow (row n) ≤ 1 := by
  induction n with
  | zero => exact Nat.zero_le 1
  | succ n ih => exact Nat.max_le.mpr ⟨Nat.le_refl 1, ih⟩

theorem formHeightAll_row (n : Nat) : formHeightAll (row n) = n := by
  induction n with
  | zero => rfl
  | succ n ih =>
    have hone : formHeightAll (row (n + 1)) = max 0 (formHeightAll (row n)) + 1 := rfl
    rw [hone, ih, Nat.zero_max]

/-- The tree of a list of some elements, however deep they are. -/
def listTree (children : List Tree) : Tree :=
  ((⟨"", "ul", children, none, none⟩ : Tree).leveled 0).named 0

theorem list_read {children : List Tree} {inner : List Char} (h : Written children inner)
    (hroom : heightBelow children < 1018) :
    let source := String.ofList (enclosed "ul" inner)
    trim source ≠ "" ∧ MarkupNesting.wholeTree (trim source) .html = some (listTree children) ∧
      ((listTree children).RecordsPast 512 ↔ 512 < heightBelow children) ∧
      (listTree children).encode.height = formHeightAll children := by
  intro source
  have hend : Written [] [] := .text (by decide)
  have hs := h.enclosed (by decide : "ul" ∈ flowTags) hend
  rw [List.append_nil, ← String.toList_ofList (l := enclosed "ul" inner)] at hs
  have hne : source ≠ "" := by simp [source, enclosed, startTagText]
  have hdeepest : (listTree children).deepest = heightBelow children := by
    rw [listTree, deepest_named, deepest_leveled, Nat.zero_add, height]
  refine ⟨?_, ?_, ?_, ?_⟩
  · rwa [trim_enclosed]
  · rw [trim_enclosed, wholeTree_html]
    exact wholeTree_written hs hroom
  · rw [recordsPast_iff, hdeepest]
  · rw [height_encode, encodedHeight_eq, listTree, formHeight_named, formHeight_leveled, formHeight]

end Html

/-- The two limits, 512 levels and 2048 links, are exact. A source with elements fails for its depth
exactly when its tree would record a depth past the first, else for its height exactly when the
binary form of the tree would be higher than the second, and else gives that tree. -/
theorem analyze_limits {source : String} (hs : trim source ≠ "") (d : Dialect) :
    (∀ t, wholeTree (trim source) d = some t →
      (analyze source d = .error (.nestingTooDeep 512) ↔ t.RecordsPast 512) ∧
      (¬ t.RecordsPast 512 →
        (analyze source d = .error (.encodingTooDeep 2048) ↔ 2048 < t.encode.height) ∧
        (t.encode.height ≤ 2048 → ∃ a, analyze source d = .ok a ∧ a.tree = t))) ∧
    ∀ a, analyze source d = .ok a →
      (∀ v ∈ a.tree.walk 0 [], v.level ≤ 513 ∧ ∀ e, v.node.depth = some e → e ≤ 512) ∧
      a.binary.height ≤ 2048 := by
  constructor
  · intro t ht
    have hb := buildTree_eq_withinLimit hs ht
    rw [withinLimit, nestingLimit] at hb
    rw [recordsPast_iff]
    split at hb
    · next hl =>
      rw [analyze_of_ok hb, heightLimit]
      refine ⟨?_, fun _ => ⟨?_, fun hh => ?_⟩⟩
      · split <;> simp [Nat.not_lt.mpr hl]
      · split <;> simp_all
      · exact ⟨_, if_neg (Nat.not_lt.mpr hh), rfl⟩
    · next hl =>
      have hl := Nat.lt_of_not_le hl
      exact ⟨⟨fun _ => hl, fun _ => analyze_of_error hb⟩, fun hn => absurd hl hn⟩
  · intro a ha
    obtain ⟨t, hb, hh, rfl⟩ := analyze_eq_ok_iff.mp ha
    obtain ⟨-, hw, hd⟩ := buildTree_eq_ok_iff.mp hb
    refine ⟨fun v hv => ?_, hh⟩
    have hdepth : ∀ e, v.node.depth = some e → e ≤ 512 := fun e he =>
      Nat.le_of_not_lt fun hlt => Nat.not_lt.mpr hd (recordsPast_iff.mp ⟨v, hv, e, he, hlt⟩)
    obtain ⟨e, he, hl⟩ := level_le_of_mem_walk hw hv
    have hle := hdepth e he
    exact ⟨by omega, hdepth⟩

/-- Lists at both limits and just past them: of 512 and 513 elements one in the other, and of 2048
and 2049 elements one after the other. -/
theorem analyze_limits_lists :
    let deep (n : Nat) := String.ofList (Html.enclosed "ul" (Html.nestedText n))
    let wide (n : Nat) := String.ofList (Html.enclosed "ul" (Html.rowText n))
    let deepTree (n : Nat) := Html.listTree (Html.nested n)
    let wideTree (n : Nat) := Html.listTree (Html.row n)
    (trim (deep 512) ≠ "" ∧ wholeTree (trim (deep 512)) .html = some (deepTree 512) ∧
        ¬ (deepTree 512).RecordsPast 512 ∧ (deepTree 512).encode.height ≤ 2048 ∧
        ∃ a, analyze (deep 512) .html = .ok a ∧ a.tree = deepTree 512 ∧
          (∀ v ∈ a.tree.walk 0 [], v.level ≤ 513 ∧ ∀ e, v.node.depth = some e → e ≤ 512) ∧
          a.binary.height ≤ 2048) ∧
      (trim (deep 513) ≠ "" ∧ wholeTree (trim (deep 513)) .html = some (deepTree 513) ∧
        (deepTree 513).RecordsPast 512 ∧
        analyze (deep 513) .html = .error (.nestingTooDeep 512)) ∧
      (trim (wide 2048) ≠ "" ∧ wholeTree (trim (wide 2048)) .html = some (wideTree 2048) ∧
        ¬ (wideTree 2048).RecordsPast 512 ∧ (wideTree 2048).encode.height ≤ 2048 ∧
        ∃ a, analyze (wide 2048) .html = .ok a ∧ a.tree = wideTree 2048) ∧
      (trim (wide 2049) ≠ "" ∧ wholeTree (trim (wide 2049)) .html = some (wideTree 2049) ∧
        ¬ (wideTree 2049).RecordsPast 512 ∧ 2048 < (wideTree 2049).encode.height ∧
        analyze (wide 2049) .html = .error (.encodingTooDeep 2048)) := by
  intro deep wide deepTree wideTree
  have hdeep (n : Nat) (hn : n < 1018) :=
    Html.list_read (Html.written_nested n) ((Html.heightBelow_nested n).trans_lt hn)
  have hwide (n : Nat) :=
    Html.list_read (Html.written_row n) ((Html.heightBelow_row_le n).trans_lt (by decide))
  simp only [Html.heightBelow_nested, Html.formHeightAll_nested] at hdeep
  simp only [Html.formHeightAll_row] at hwide
  have hflat (n : Nat) : ¬ (wideTree n).RecordsPast 512 := by
    obtain ⟨-, -, hr, -⟩ := hwide n
    have hle := Html.heightBelow_row_le n
    rw [hr]
    omega
  refine ⟨?_, ?_, ?_, ?_⟩
  · obtain ⟨hs, hw, hr, hh⟩ := hdeep 512 (by decide)
    obtain ⟨hlimits, hbounds⟩ := analyze_limits hs .html
    have hshallow := hr.not.mpr (by decide)
    have hlow := hh.trans_le (by decide : 512 ≤ 2048)
    obtain ⟨a, ha, ht⟩ := ((hlimits _ hw).2 hshallow).2 hlow
    exact ⟨hs, hw, hshallow, hlow, a, ha, ht, hbounds a ha⟩
  · obtain ⟨hs, hw, hr, -⟩ := hdeep 513 (by decide)
    have hpast := hr.mpr (by decide)
    exact ⟨hs, hw, hpast, ((analyze_limits hs .html).1 _ hw).1.mpr hpast⟩
  · obtain ⟨hs, hw, -, hh⟩ := hwide 2048
    have hlow := Nat.le_of_eq hh
    exact ⟨hs, hw, hflat 2048, hlow, (((analyze_limits hs .html).1 _ hw).2 (hflat 2048)).2 hlow⟩
  · obtain ⟨hs, hw, -, hh⟩ := hwide 2049
    have hhigh := Nat.lt_of_lt_of_eq (Nat.lt_succ_self 2048) hh.symm
    exact ⟨hs, hw, hflat 2049, hhigh, (((analyze_limits hs .html).1 _ hw).2 (hflat 2049)).1.mpr hhigh⟩

end MarkupNesting
