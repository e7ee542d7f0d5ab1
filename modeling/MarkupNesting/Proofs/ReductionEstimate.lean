import MarkupNesting.Proofs.Number.TwiceRounded
import MarkupNesting.Proofs.RepeatedPaths

/-! How much an HTML document's depth is estimated to be reduced. Every deep level above the deepest
node has a node whose suggestion is kept, so from some depth on the suggestions together take off
more than there is; and no suggestion is rounded away. -/

namespace MarkupNesting

namespace Advice

open MarkupNesting.Tree

theorem reduction_pos {t : Tree} {s : Suggestion} (h : s ∈ scan t rules) : 0 < s.reduction := by
  obtain ⟨v, -, f, -, rfl⟩ := mem_scan_iff.mp h
  exact gain_pos v.node f

theorem scan_of_height_zero {t : Tree} (h : t.height = 0) : scan t rules = [] := by
  have hc : t.children = [] := height_eq_zero_iff.mp h
  rw [List.eq_nil_iff_forall_not_mem]
  intro s hs
  obtain ⟨v, hv, f, hf, -⟩ := mem_scan_iff.mp hs
  rw [walk_eq_cons, hc, walkAll, List.mem_singleton] at hv
  subst hv
  exact children_ne_nil_of_applies hf hc

/-- On every deep level above the deepest one a suggestion is kept that takes off what is deep there. -/
theorem exists_kept_level {t : Tree} (hl : t.RecordsLevels)
    (ht : ∀ v ∈ t.walk 0 [], '/' ∉ v.node.tag.toList) {k : Nat} (hk : deepFrom ≤ k)
    (hh : k < t.height) :
    ∃ s ∈ dedupe [] (scan t rules), s.path.length = k + 1 ∧ s.reduction = max (k - deepFrom) 1 := by
  obtain ⟨v, hv, hlevel, hc⟩ := exists_parent hh
  have hdepth : v.node.depth.getD 0 = k := by rw [hl v hv, Option.getD_some, hlevel]
  have hmem : said v.path v.node .deepNesting ∈ scan t rules :=
    mem_scan_iff.mpr ⟨v, hv, .deepNesting, ⟨hc, hdepth ▸ hk⟩, rfl⟩
  -- the suggestion that is kept may be about another node, with the same path
  obtain ⟨r, hr, hf, hjoin⟩ := exists_kept [] hmem rfl (by simp)
  obtain ⟨w, hw, f, -, rfl⟩ := mem_scan_iff.mp ((dedupe_sublist [] _).subset hr)
  obtain rfl : f = .deepNesting := hf
  have hsame : w.path = v.path := path_eq_of_joined ht hw hv hjoin
  have hlength := length_path_of_mem_walk List.length_nil hv
  have hlevels : w.level = k := by
    have h1 := length_path_of_mem_walk List.length_nil hw
    rw [hsame] at h1
    omega
  refine ⟨_, hr, ?_, ?_⟩
  · rw [said, hsame, hlength, hlevel]
  · rw [said, gain, hl w hw, Option.getD_some, hlevels, max_comm, deepFrom]

theorem le_totalReduction {ss : List Suggestion} {s : Suggestion} (h : s ∈ ss) :
    s.reduction ≤ totalReduction ss := by
  induction ss with
  | nil => cases h
  | cons r ss ih =>
    rw [totalReduction]
    rcases List.mem_cons.mp h with rfl | h
    · omega
    · have hs := ih h
      omega

theorem totalReduction_filter_le (p : Suggestion → Bool) (ss : List Suggestion) :
    totalReduction (ss.filter p) ≤ totalReduction ss := by
  induction ss with
  | nil => exact Nat.le_refl _
  | cons s ss ih =>
    rw [List.filter_cons]
    split <;> simp only [totalReduction] <;> omega

theorem totalReduction_succ (n : Nat) (ss : List Suggestion) :
    totalReduction (ss.filter fun s => s.path.length ≤ n + 1) =
      totalReduction (ss.filter fun s => s.path.length ≤ n) +
        totalReduction (ss.filter fun s => s.path.length = n + 1) := by
  induction ss with
  | nil => rfl
  | cons s ss ih =>
    rcases Nat.lt_trichotomy s.path.length (n + 1) with hs | hs | hs
    · have h1 : s.path.length ≤ n + 1 := by omega
      have h2 : s.path.length ≤ n := by omega
      have h3 : ¬ s.path.length = n + 1 := by omega
      simp only [List.filter_cons, h1, h2, h3, decide_true, decide_false, Bool.false_eq_true,
        ↓reduceIte, totalReduction, ih]
      omega
    · have h2 : ¬ n + 1 ≤ n := by omega
      simp only [List.filter_cons, hs, h2, le_refl, decide_true, decide_false, Bool.false_eq_true,
        ↓reduceIte, totalReduction, ih]
      omega
    · have h1 : ¬ s.path.length ≤ n + 1 := by omega
      have h2 : ¬ s.path.length ≤ n := by omega
      have h3 : ¬ s.path.length = n + 1 := by omega
      simp only [List.filter_cons, h1, h2, h3, decide_false, Bool.false_eq_true, ↓reduceIte, ih]

theorem sum_levels_le {ss : List Suggestion} {n : Nat}
    (h : ∀ k, deepFrom ≤ k → k < n →
      ∃ s ∈ ss, s.path.length = k + 1 ∧ s.reduction = max (k - deepFrom) 1) :
    ∑ k ∈ Finset.Ico deepFrom n, max (k - deepFrom) 1 ≤
      totalReduction (ss.filter fun s => s.path.length ≤ n) := by
  induction n with
  | zero => exact Nat.zero_le _
  | succ n ih =>
    have hn := ih fun k h1 h2 => h k h1 (Nat.lt_succ_of_lt h2)
    rw [totalReduction_succ]
    by_cases hd : deepFrom ≤ n
    · obtain ⟨s, hs, hlen, hred⟩ := h n hd (Nat.lt_succ_self n)
      have hmem : s ∈ ss.filter fun s => s.path.length = n + 1 := by simp [hs, hlen]
      have hle := le_totalReduction hmem
      rw [Finset.sum_Ico_succ_top hd]
      omega
    · rw [Finset.Ico_eq_empty (by omega), Finset.sum_empty]
      exact Nat.zero_le _

/-- From sixteen levels on the deep levels take off more than there are levels. -/
theorem le_sum_levels {n : Nat} (h : 16 ≤ n) :
    n ≤ ∑ k ∈ Finset.Ico deepFrom n, max (k - deepFrom) 1 := by
  induction n, h using Nat.le_induction with
  | base => decide
  | succ n hn ih =>
    have hd : deepFrom ≤ n := by
      rw [deepFrom]
      omega
    rw [Finset.sum_Ico_succ_top hd]
    omega

open Binary64 in
theorem percentage_of_le {part whole : Nat} (h0 : 0 < whole) (h53 : whole < twoTo 53)
    (h : whole ≤ part) : percentage part whole = 100 := by
  have hwhole : (ofNat whole).magnitude = whole := magnitude_ofNat h53
  have hpos : (0 : ℚ) < whole := Nat.cast_pos.mpr h0
  have hpart : (whole : ℚ) ≤ (ofNat part).magnitude := by
    apply le_magnitude_nearest h53 Nat.one_pos
    rw [quotient_one]
    exact_mod_cast h
  have hone : (1 : ℚ) ≤ ((ofNat part).div (ofNat whole)).magnitude := by
    obtain ⟨a, b, hb, hq, he⟩ := magnitude_div (ofNat part) (hwhole ▸ hpos.ne')
    have hle : ((1 : Nat) : ℚ) ≤ quotient (a, b) := by
      rw [hq, hwhole, Nat.cast_one, one_le_div hpos]
      exact hpart
    rw [he, ← Nat.cast_one]
    exact le_magnitude_nearest (by decide) hb hle
  have hhundred : ((100 : Nat) : ℚ) ≤
      (((ofNat part).div (ofNat whole)).mul (ofNat 100)).magnitude := by
    obtain ⟨a, b, hb, hq, he⟩ := magnitude_mul ((ofNat part).div (ofNat whole)) (ofNat 100)
    have hm : (ofNat 100).magnitude = ((100 : Nat) : ℚ) := magnitude_ofNat (by decide)
    rw [he]
    apply le_magnitude_nearest (by decide) hb
    rw [hq, hm]
    exact le_mul_of_one_le_left (Nat.cast_nonneg _) hone
  rw [percentage, if_neg h0.ne']
  exact Nat.min_eq_left (le_rounded hhundred)

open Binary64 in
theorem percentage_eq {part whole : Nat} (h0 : 0 < whole) :
    percentage part whole = min 100 (hundredfold part whole).rounded :=
  if_neg h0.ne'

open Binary64 in
theorem percentage_pos_of_lt {part whole : Nat} (hwhole : whole < 16) (hpart : part < whole)
    (h0 : 0 < part) : 0 < percentage part whole := by
  have h53 : whole < twoTo 53 := hwhole.trans (by decide)
  obtain ⟨-, hnear⟩ := rounded_near (hpart.trans h53) h53 (h0.trans hpart) hpart.le
  have htwo : 2 ≤ roundUp (100 * part) whole := by
    rw [roundUp_hundred, Nat.le_div_iff_mul_le (by omega)]
    omega
  rw [percentage_eq (h0.trans hpart)]
  omega

open Binary64 in
theorem percentage_zero {whole : Nat} (h53 : whole < twoTo 53) : percentage 0 whole = 0 := by
  by_cases h0 : whole = 0
  · rw [percentage, if_pos h0]
  have hwhole : (ofNat whole).magnitude ≠ 0 := by
    rw [magnitude_ofNat h53]
    exact Nat.cast_ne_zero.mpr h0
  have hpart : (ofNat 0).magnitude = 0 := (magnitude_ofNat (by decide)).trans Nat.cast_zero
  have hnone : ((ofNat 0).div (ofNat whole)).magnitude ≤ 0 := by
    obtain ⟨a, b, hb, hq, he⟩ := magnitude_div (ofNat 0) hwhole
    rw [he, ← Nat.cast_zero]
    apply magnitude_nearest_le (by decide) hb
    rw [hq, hpart, zero_div, Nat.cast_zero]
  have hproduct : (((ofNat 0).div (ofNat whole)).mul (ofNat 100)).magnitude ≤ (0 : Nat) := by
    obtain ⟨a, b, hb, hq, he⟩ := magnitude_mul ((ofNat 0).div (ofNat whole)) (ofNat 100)
    have hm : (ofNat 100).magnitude = ((100 : Nat) : ℚ) := magnitude_ofNat (by decide)
    rw [he]
    apply magnitude_nearest_le (by decide) hb
    rw [hq, hm, Nat.cast_zero]
    exact mul_nonpos_of_nonpos_of_nonneg hnone (Nat.cast_nonneg _)
  rw [percentage, if_neg h0, Nat.le_zero.mp (rounded_le hproduct)]
  rfl

def emptyReport : String := "(0% reduction)"

theorem toList_text (n : Nat) : (Decimal.text n).toList = Decimal.digits n := String.toList_ofList

theorem not_mem_digits {c : Char} (h : c.isDigit = false) (n : Nat) : c ∉ Decimal.digits n := by
  intro hc
  rw [Decimal.isDigit_of_mem_digits hc] at h
  cases h

/-- Only one place of a summary has a bracket, and the percentage follows it. -/
theorem infix_summaryOf {count maxDepth optimized percent : Nat} (h : count ≠ 0)
    (hi : emptyReport.toList <:+: (summaryOf count maxDepth optimized percent).toList) :
    percent = 0 := by
  obtain ⟨before, after, heq⟩ := hi
  obtain ⟨plural, hplural⟩ : ∃ plural : String, plural = if 1 < count then "s" else "" := ⟨_, rfl⟩
  have hp : '(' ∉ plural.toList := by
    rw [hplural]
    split <;> decide
  have hd := not_mem_digits (c := '(') (by decide)
  have hfront : '(' ∉ ("Found " ++ Decimal.text count ++ " optimization" ++ plural ++
      " that could reduce depth from " ++ Decimal.text maxDepth ++ " to ~" ++ Decimal.text optimized ++
      " ").toList := by
    simp only [String.toList_append, toList_text, List.mem_append, hd, hp, or_false]
    decide
  have hback : '(' ∉ Decimal.digits percent ++ "% reduction).".toList := by
    simp only [List.mem_append, hd, false_or]
    decide
  have hsum : (summaryOf count maxDepth optimized percent).toList =
      ("Found " ++ Decimal.text count ++ " optimization" ++ plural ++
        " that could reduce depth from " ++ Decimal.text maxDepth ++ " to ~" ++
        Decimal.text optimized ++ " ").toList ++
        '(' :: (Decimal.digits percent ++ "% reduction).".toList) := by
    simp [summaryOf, h, hplural, toList_text]
  have hempty : before ++ emptyReport.toList ++ after =
      before ++ '(' :: ('0' :: ("% reduction)".toList ++ after)) := by
    simp [emptyReport]
  rw [hsum, hempty, eq_comm, List.append_cons_inj_of_notMem hfront hback] at heq
  have hdigits : (Decimal.digits percent ++ "% reduction).".toList).takeWhile Char.isDigit = ['0'] := by
    rw [heq.2.2]
    rfl
  have hall : ∀ c ∈ Decimal.digits percent, c.isDigit = true := fun c hc =>
    Decimal.isDigit_of_mem_digits hc
  have hrest : "% reduction).".toList.takeWhile Char.isDigit = [] := by decide
  have hzero : Decimal.digits 0 = ['0'] := by
    rw [Decimal.digits]
    rfl
  rw [List.takeWhile_append_of_pos hall, hrest, List.append_nil, ← hzero] at hdigits
  exact Decimal.digits_injective hdigits

theorem emptyReport_not_infix {count maxDepth optimized percent : Nat}
    (h : count ≠ 0 → percent ≠ 0) :
    ¬ emptyReport.toList <:+: (summaryOf count maxDepth optimized percent).toList := by
  by_cases hc : count = 0
  · have hbracket : '(' ∈ emptyReport.toList := by simp [emptyReport]
    have hclean : '(' ∉ cleanSummary.toList := by simp [cleanSummary]
    rw [summaryOf, if_pos hc]
    exact fun hi => hclean (hi.subset hbracket)
  · exact fun hi => h hc (infix_summaryOf hc hi)

section

variable {t : Tree} (hl : t.RecordsLevels) (ht : ∀ v ∈ t.walk 0 [], '/' ∉ v.node.tag.toList)

include hl ht

/-- The suggestions on a deep tree together take off its whole depth. -/
theorem height_le_totalReduction (h : 16 ≤ t.height) :
    t.height ≤ totalReduction (dedupe [] (scan t rules)) := by
  have hlevels := sum_levels_le (n := t.height) fun k hk hh => exists_kept_level hl ht hk hh
  have hsum := le_sum_levels h
  have hfilter := totalReduction_filter_le (fun s => s.path.length ≤ t.height)
    (dedupe [] (scan t rules))
  omega

theorem percentage_pos (hh : t.height < Binary64.twoTo 53) (h : dedupe [] (scan t rules) ≠ []) :
    0 < percentage (totalReduction (dedupe [] (scan t rules))) t.height := by
  obtain ⟨s, hs⟩ := List.exists_mem_of_ne_nil _ h
  have hpart : 0 < totalReduction (dedupe [] (scan t rules)) :=
    Nat.lt_of_lt_of_le (reduction_pos ((dedupe_sublist [] _).subset hs)) (le_totalReduction hs)
  have hwhole : 0 < t.height := by
    rw [Nat.pos_iff_ne_zero]
    intro h0
    rw [scan_of_height_zero h0] at h
    exact h rfl
  by_cases hle : t.height ≤ totalReduction (dedupe [] (scan t rules))
  · rw [percentage_of_le hwhole hh hle]
    decide
  · have hsmall : t.height < 16 := by
      by_contra h16
      exact hle (height_le_totalReduction hl ht (Nat.le_of_not_lt h16))
    exact percentage_pos_of_lt hsmall (Nat.lt_of_not_le hle) hpart

end

end Advice

open Advice MarkupNesting.Tree in
/-- What is estimated of an HTML document. From sixteen levels on the whole depth can be taken off,
whatever else the document holds; the estimate is zero only if there is nothing to suggest, and so
no summary speaks of a reduction to nothing. -/
theorem html_reduction_estimate {source : String} {a : Analysis} (h : analyze source .html = .ok a) :
    (16 ≤ a.statistics.maxDepth → a.advice.estimatedReduction = 100 ∧ a.advice.optimizedDepth = 1) ∧
    (a.advice.estimatedReduction = 0 ↔ a.advice.suggestions = []) ∧
    ¬ emptyReport.toList <:+: a.advice.summary.toList := by
  obtain ⟨t, hb, -, rfl⟩ := analyze_eq_ok_iff.mp h
  obtain ⟨-, hw, hd⟩ := buildTree_eq_ok_iff.mp hb
  rw [wholeTree_html] at hw
  have hl : t.RecordsLevels := Html.wholeTree_recordsLevels hw
  have ht := Html.slash_not_mem_tag hw
  have hlimit : t.height ≤ nestingLimit := Html.deepest_wholeTree hw ▸ hd
  have hh : t.height < Binary64.twoTo 53 := Nat.lt_of_le_of_lt hlimit (by decide)
  have hpos := percentage_pos hl ht hh
  simp only [Statistics.ofTree_maxDepth, Advice.ofTree]
  refine ⟨fun h16 => ?_, ⟨fun h0 => ?_, fun hnil => ?_⟩, emptyReport_not_infix fun hc h0 => ?_⟩
  · have hle := height_le_totalReduction hl ht h16
    refine ⟨percentage_of_le (by omega) hh hle, ?_⟩
    omega
  · by_contra hne
    exact absurd h0 (hpos hne).ne'
  · rw [hnil]
    exact percentage_zero hh
  · exact absurd h0 (hpos fun hnil => hc (by rw [hnil]; rfl)).ne'

open Advice MarkupNesting.Tree in
/-- Seventeen elements, each within the one before. -/
theorem html_reduction_estimate_nested :
    let source := String.join (List.replicate 17 "<div>" ++ List.replicate 17 "</div>")
    ∃ a, analyze source .html = .ok a ∧ a.statistics.maxDepth = 16 ∧
      a.advice.estimatedReduction = 100 ∧ a.advice.optimizedDepth = 1 ∧
      (a.advice.estimatedReduction = 0 ↔ a.advice.suggestions = []) ∧
      ¬ emptyReport.toList <:+: a.advice.summary.toList := by
  intro source
  -- the characters are told from the strings once, and only the reading of them is evaluated
  let tags := (List.replicate 17 ['<', 'd', 'i', 'v', '>'] ++
    List.replicate 17 ['<', '/', 'd', 'i', 'v', '>']).flatten
  have hsource : source.toList = tags := by
    rw [String.toList_join, List.flatMap_def, List.map_append, List.map_replicate, List.map_replicate]
    simp only [String.reduceToList, tags]
  have htrim : trim source = source := by
    have htags : trimChars tags = tags := by decide +kernel
    rw [trim, hsource, htags, ← hsource, String.ofList_toList]
  have hne : trim source ≠ "" := by
    intro h
    have hnil := congrArg String.toList h
    rw [htrim, hsource] at hnil
    exact absurd hnil (by decide)
  have hr : (Html.readDocument source).map (fun n =>
      (Html.treeOf n).map fun t => (t.height, t.encode.height)) = some (.ok (16, 16)) := by
    rw [Html.readDocument, hsource]
    decide +kernel
  have hb : (buildTree source .html).map (fun t => (t.height, t.encode.height)) = .ok (16, 16) := by
    rw [buildTree_html hne, htrim, Html.documentOf]
    cases hn : Html.readDocument source with
    | none => rw [hn] at hr; cases hr
    | some n => rw [hn] at hr; exact Option.some.inj hr
  cases ht : buildTree source .html with
  | error e => rw [ht] at hb; cases hb
  | ok t =>
    rw [ht, Except.map, Except.ok.injEq, Prod.mk.injEq] at hb
    obtain ⟨hheight, hencode⟩ := hb
    have hlimit : t.encode.height ≤ heightLimit := by
      rw [hencode]
      decide
    have ha := analyze_eq_ok_iff.mpr ⟨t, ht, hlimit, rfl⟩
    have hmax := (Statistics.ofTree_maxDepth t).trans hheight
    obtain ⟨hdeep, hzero, hsummary⟩ := html_reduction_estimate ha
    obtain ⟨h100, h1⟩ := hdeep hmax.ge
    exact ⟨_, ha, hmax, h100, h1, hzero, hsummary⟩

end MarkupNesting
