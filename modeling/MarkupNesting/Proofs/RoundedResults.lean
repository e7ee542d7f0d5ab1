import MarkupNesting.Codec
import MarkupNesting.Proofs.DepthStatistics
import MarkupNesting.Proofs.Number.Hundredths
import MarkupNesting.Proofs.ReductionEstimate

/-! The two rounded numbers of an analysis: the estimate, a percentage, and the average depth, a
number of hundredths. Each is the exact value rounded half up, but for some that lie in the middle
between two values: those are rounded down. -/

namespace MarkupNesting

open Binary64

namespace Advice

/-- The percentages with a half that are rounded down, doubled: 14.5, 28.5, 56.5 and 57.5. -/
def lostHalves : List Nat := [29, 57, 113, 115]

set_option maxRecDepth 8000 in
theorem fallsShort_iff_mem : ∀ n ≤ 200, FallsShort n ↔ n ∈ lostHalves := by
  decide

theorem lt_of_mem_lostHalves : ∀ n ∈ lostHalves, n < 200 := by
  decide

section Percentage

variable {part whole : Nat} (h0 : 0 < whole)

include h0

theorem le_hundred_of_le (h : part ≤ whole) : (200 * part + whole) / (2 * whole) ≤ 100 := by
  rw [← Nat.lt_succ_iff, Nat.div_lt_iff_lt_mul (by omega)]
  omega

theorem hundred_le_of_le (h : whole ≤ part) : 100 ≤ (200 * part + whole) / (2 * whole) := by
  rw [Nat.le_div_iff_mul_le (by omega)]
  omega

theorem percentage_of_le_pow (hp : part ≤ 2 ^ 44) (hw : whole < twoTo 53) :
    percentage part whole =
      if whole ∣ 200 * part ∧ 200 * part / whole ∈ lostHalves then
        min 100 ((200 * part + whole) / (2 * whole)) - 1
      else min 100 ((200 * part + whole) / (2 * whole)) := by
  by_cases hle : part ≤ whole
  · have hn : 200 * part / whole ≤ 200 :=
      Nat.div_le_of_le_mul (by rw [Nat.mul_comm whole]; exact Nat.mul_le_mul_left 200 hle)
    have hmisses : MissesHalf part whole ↔ whole ∣ 200 * part ∧ 200 * part / whole ∈ lostHalves :=
      and_congr_right fun _ => fallsShort_iff_mem _ hn
    have hhundred := le_hundred_of_le h0 hle
    rw [percentage_eq h0, rounded_hundredfold hp hw h0, roundUp_hundred]
    simp only [hmisses]
    split <;> omega
  · have hge := Nat.le_of_not_le hle
    have hnone : ¬ (whole ∣ 200 * part ∧ 200 * part / whole ∈ lostHalves) := by
      rintro ⟨-, hm⟩
      have hlt := lt_of_mem_lostHalves _ hm
      rw [Nat.div_lt_iff_lt_mul h0] at hlt
      omega
    rw [percentage_of_le h0 hw hge, if_neg hnone, Nat.min_eq_left (hundred_le_of_le h0 hge)]

theorem percentage_of_far (hp : part < twoTo 53) (hw : whole < twoTo 53)
    (h : FarFromHalves part whole) :
    percentage part whole = min 100 ((200 * part + whole) / (2 * whole)) := by
  rw [percentage_eq h0, rounded_of_far hp hw h0 h, roundUp_hundred]

theorem percentage_near (hp : part < twoTo 53) (hw : whole < twoTo 53) :
    percentage part whole ≤ min 100 ((200 * part + whole) / (2 * whole)) + 1 ∧
      min 100 ((200 * part + whole) / (2 * whole)) ≤ percentage part whole + 1 := by
  by_cases hle : part ≤ whole
  · have hnear := rounded_near hp hw h0 hle
    rw [roundUp_hundred] at hnear
    rw [percentage_eq h0]
    omega
  · have hge := Nat.le_of_not_le hle
    rw [percentage_of_le h0 hw hge, Nat.min_eq_left (hundred_le_of_le h0 hge)]
    omega

end Percentage

/-- What is estimated of a tree, given its depth and what the suggestions take off it. What is left
is at least one level. In percent, the part that is taken off is rounded half up and is at most 100;
but of the parts that are exactly a half more than an integer, four are rounded down. A part of very
many levels may be missed by one, if it is very near to a half. -/
theorem estimate_rounding (root : Tree) {depth : Nat} (hd : depth < twoTo 53)
    (ht : totalReduction (ofTree root depth).suggestions < twoTo 53) :
    let advice := ofTree root depth
    let total := totalReduction advice.suggestions
    let halfUp := min 100 ((200 * total + depth) / (2 * depth))
    advice.optimizedDepth = max 1 (depth - total) ∧
      (depth = 0 → advice.estimatedReduction = 0) ∧
      (0 < depth → total ≤ 2 ^ 44 → advice.estimatedReduction =
        if depth ∣ 200 * total ∧ 200 * total / depth ∈ lostHalves then halfUp - 1 else halfUp) ∧
      (0 < depth → FarFromHalves total depth → advice.estimatedReduction = halfUp) ∧
      (0 < depth →
        advice.estimatedReduction ≤ halfUp + 1 ∧ halfUp ≤ advice.estimatedReduction + 1) := by
  intro advice total halfUp
  refine ⟨max_comm _ _, ?_, ?_, ?_, ?_⟩
  · rintro rfl
    exact (if_pos rfl : percentage total 0 = 0)
  · intro h0 h44
    exact percentage_of_le_pow h0 h44 hd
  · intro h0 hfar
    exact percentage_of_far h0 ht hd hfar
  · intro h0
    exact percentage_near h0 ht hd

/-- A wrapper around a deep list: of forty levels twenty-three are taken off, which is 57.5 percent. -/
theorem estimate_rounding_wrapper :
    let list : Tree := ⟨"", "ul", [⟨"", "li", [], some 33, none⟩], some 32, none⟩
    let root : Tree := ⟨"", "div", [list], some 0, none⟩
    40 < twoTo 53 ∧ totalReduction (ofTree root 40).suggestions = 23 ∧
      (ofTree root 40).optimizedDepth = 17 ∧ (ofTree root 40).estimatedReduction = 57 := by
  intro list root
  have htotal : totalReduction (ofTree root 40).suggestions = 23 := by
    rw [suggestions_eq]
    decide
  have hd : 40 < twoTo 53 := by decide
  obtain ⟨hoptimized, -, hestimate, -⟩ := estimate_rounding root hd (by rw [htotal]; decide)
  rw [htotal] at hoptimized hestimate
  exact ⟨hd, htotal, hoptimized, hestimate (by decide) (by decide)⟩

/-- The same part of the depth in one suggestion. It should be 58 percent. -/
theorem estimate_loses_half :
    let root : Tree := ⟨"", "ul", [⟨"", "li", [], none, none⟩], some 33, none⟩
    totalReduction (ofTree root 40).suggestions = 23 ∧
      min 100 ((200 * 23 + 40) / (2 * 40)) = 58 ∧ (ofTree root 40).estimatedReduction = 57 := by
  intro root
  have htotal : totalReduction (ofTree root 40).suggestions = 23 := by
    rw [suggestions_eq]
    decide
  have hestimate : (ofTree root 40).estimatedReduction =
      percentage (totalReduction (ofTree root 40).suggestions) 40 := rfl
  rw [hestimate, htotal, percentage_of_le_pow (by decide) (by decide) (by decide)]
  decide

end Advice

theorem average_eq {sum count : Nat} (hs : sum ≤ 2 ^ 44) (hc : count < twoTo 53) (h0 : 0 < count) :
    average sum count = nearest
      (if MissesHalf sum count then (200 * sum + count) / (2 * count) - 1
        else (200 * sum + count) / (2 * count)) 100 := by
  have hle : (200 * sum + count) / (2 * count) ≤ 200 * 2 ^ 44 + 1 := by
    apply Nat.div_le_of_le_mul
    nlinarith
  have h53 : (if MissesHalf sum count then (200 * sum + count) / (2 * count) - 1
      else (200 * sum + count) / (2 * count)) < twoTo 53 := by
    have hbound : 200 * 2 ^ 44 + 1 < twoTo 53 := by decide
    split <;> omega
  have haverage : average sum count =
      (ofNat (hundredfold sum count).rounded).div (ofNat 100) := if_neg h0.ne'
  rw [haverage, rounded_hundredfold hs hc h0, roundUp_hundred]
  exact div_ofNat h53 (by decide) (by decide)

namespace Statistics

theorem ofTree_totalNodes_pos (t : Tree) : 0 < (ofTree t).totalNodes :=
  ofTree_totalNodes t ▸ t.count_pos

/-- The average depth is written as a number of hundredths: the sum of the levels divided by the
number of nodes, rounded half up, or one hundredth less where the quotient misses its half. -/
theorem averageDepth_rounding (t : Tree) (hn : (ofTree t).totalNodes < twoTo 40)
    (hs : (ofTree t).depthSum < twoTo 40) :
    let s := ofTree t
    let halfUp := (200 * s.depthSum + s.totalNodes) / (2 * s.totalNodes)
    ∃ j whole fraction, s.toJson.field? "averageDepth" = some j ∧
      j.compact = String.ofList (whole ++ '.' :: fraction) ∧
      j.pretty = String.ofList (whole ++ '.' :: fraction) ∧
      IsDecimal (if MissesHalf s.depthSum s.totalNodes then halfUp - 1 else halfUp) whole fraction := by
  intro s halfUp
  have h0 : 0 < s.totalNodes := ofTree_totalNodes_pos t
  have hs44 : s.depthSum ≤ 2 ^ 44 := (Nat.le_of_lt hs).trans (by decide)
  have haverage : s.averageDepth = nearest
      (if MissesHalf s.depthSum s.totalNodes then halfUp - 1 else halfUp) 100 :=
    average_eq hs44 (hn.trans (by decide)) h0
  have hle : halfUp ≤ 100 * 2 ^ 40 + 1 := by
    apply Nat.div_le_of_le_mul
    have h40 : s.depthSum < 2 ^ 40 := hs
    nlinarith
  have hlimit : (if MissesHalf s.depthSum s.totalNodes then halfUp - 1 else halfUp) <
      hundredthsLimit := by
    have hbound : 100 * 2 ^ 40 + 1 < hundredthsLimit := by decide
    split <;> omega
  obtain ⟨whole, fraction, hchars, hdecimal⟩ := exists_chars hlimit
  rw [← haverage] at hchars
  refine ⟨.binary s.averageDepth, whole, fraction, rfl, ?_, ?_, hdecimal⟩
  · rw [Json.compact, Json.write, hchars, List.append_nil]
  · rw [Json.pretty, Json.writePretty, hchars, List.append_nil]

/-- Forty nodes with fifty-one levels in all: 1.275 on average. -/
theorem averageDepth_rounding_list :
    let leaf : Tree := ⟨"", "li", [], none, none⟩
    let item : Tree := ⟨"", "li", List.replicate 12 leaf, none, none⟩
    let s := ofTree ⟨"", "ul", item :: List.replicate 26 leaf, none, none⟩
    s.totalNodes < twoTo 40 ∧ s.depthSum < twoTo 40 ∧ MissesHalf s.depthSum s.totalNodes ∧
      ∃ j whole fraction, s.toJson.field? "averageDepth" = some j ∧
        j.compact = String.ofList (whole ++ '.' :: fraction) ∧ IsDecimal 127 whole fraction := by
  intro leaf item s
  have hn : s.totalNodes = 40 := (ofTree_totalNodes _).trans (by decide)
  have hs : s.depthSum = 51 := (ofTree_depthSum _).trans (by decide)
  have hm : MissesHalf s.depthSum s.totalNodes := by
    rw [hn, hs, missesHalf_iff (by decide)]
    exact ⟨127, by decide, by decide⟩
  have hn40 : s.totalNodes < twoTo 40 := by rw [hn]; decide
  have hs40 : s.depthSum < twoTo 40 := by rw [hs]; decide
  obtain ⟨j, whole, fraction, hj, hcompact, -, hdecimal⟩ := averageDepth_rounding _ hn40 hs40
  rw [if_pos hm, hn, hs] at hdecimal
  exact ⟨hn40, hs40, hm, j, whole, fraction, hj, hcompact, hdecimal⟩

/-- Forty nodes with forty-one levels in all: 1.025 on average, which should be 1.03. -/
theorem averageDepth_loses_half :
    let leaf : Tree := ⟨"", "li", [], none, none⟩
    let item : Tree := ⟨"", "li", [leaf, leaf], none, none⟩
    let s := ofTree ⟨"", "ul", item :: List.replicate 36 leaf, none, none⟩
    s.totalNodes = 40 ∧ s.depthSum = 41 ∧ (200 * 41 + 40) / (2 * 40) = 103 ∧
      (Json.binary s.averageDepth).compact = "1.02" := by
  intro leaf item s
  have hn : s.totalNodes = 40 := (ofTree_totalNodes _).trans (by decide)
  have hs : s.depthSum = 41 := (ofTree_depthSum _).trans (by decide)
  have haverage : s.averageDepth = average s.depthSum s.totalNodes := rfl
  refine ⟨hn, hs, by decide, ?_⟩
  rw [haverage, hn, hs]
  decide +kernel

end Statistics

end MarkupNesting
