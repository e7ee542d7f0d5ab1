import MarkupNesting.Proofs.Json.RoundTrip
import MarkupNesting.Proofs.ReductionEstimate

/-! The numbers in the response to a request. None is greater than a tree may be deep, but for the
number of elements and the sum of their levels; and the average of the levels has two decimal places. -/

namespace MarkupNesting

namespace Binary64

theorem magnitude_ofNat_bounds {n : Nat} (h : n ≠ 0) :
    (n / 2 : ℚ) ≤ (ofNat n).magnitude ∧ (ofNat n).magnitude ≤ 2 * n := by
  have hone : (1 : ℚ) ≤ n := Nat.one_le_cast.mpr (Nat.pos_of_ne_zero h)
  have hpos : (0 : ℚ) < n := zero_lt_one.trans_le hone
  have hlog : 0 ≤ Int.log 2 (n : ℚ) :=
    (Int.zpow_le_iff_le_log (by decide) hpos).mp (by simpa using hone)
  have hplace : place n ≤ Int.log 2 (n : ℚ) := by
    rw [place, leastExponent]
    omega
  have hunit := (two_zpow_le_of_le hplace).trans (two_zpow_log_le hpos)
  have hnear : |(ofNat n).magnitude - n| ≤ 2 ^ place n / 2 :=
    quotient_one n ▸ abs_magnitude_sub h Nat.one_pos
  obtain ⟨hlow, hhigh⟩ := abs_le.mp hnear
  exact ⟨by linarith, by linarith⟩

end Binary64

open Binary64

/-- An average of small numbers is a small number of hundredths, however many they are. -/
theorem average_eq_nearest {sum count n : Nat} (h : sum ≤ n * count)
    (hn : 400 * n < hundredthsLimit) : ∃ k < hundredthsLimit, average sum count = nearest k 100 := by
  have h53 : 400 * n < twoTo 53 := hn.trans (by decide)
  by_cases hc : count = 0
  · exact ⟨0, by decide, by rw [average, if_pos hc, nearest_zero]⟩
  have hpos : (0 : ℚ) < count := Nat.cast_pos.mpr (Nat.pos_of_ne_zero hc)
  have hcount := (magnitude_ofNat_bounds hc).1
  have hmag : 0 < (ofNat count).magnitude := by linarith
  have hsum : (ofNat sum).magnitude ≤ 2 * sum := by
    by_cases hs : sum = 0
    · rw [hs, magnitude_ofNat (by decide)]
      simp
    · exact (magnitude_ofNat_bounds hs).2
  have hle : (sum : ℚ) ≤ n * count := by exact_mod_cast h
  have hfour : (ofNat sum).magnitude / (ofNat count).magnitude ≤ (4 * n : Nat) := by
    rw [div_le_iff₀ hmag]
    push_cast
    nlinarith [Nat.cast_nonneg (α := ℚ) n]
  obtain ⟨a, b, hb, hab, hdiv⟩ := magnitude_div (ofNat sum) hmag.ne'
  have hquotient : ((ofNat sum).div (ofNat count)).magnitude ≤ (4 * n : Nat) :=
    hdiv ▸ magnitude_nearest_le (by omega) hb (hab ▸ hfour)
  obtain ⟨c, d, hd, hcd, hmul⟩ := magnitude_mul ((ofNat sum).div (ofNat count)) (ofNat 100)
  have hproduct : (((ofNat sum).div (ofNat count)).mul (ofNat 100)).magnitude ≤ (400 * n : Nat) := by
    rw [hmul]
    apply magnitude_nearest_le h53 hd
    rw [hcd, magnitude_ofNat (by decide)]
    push_cast at hquotient ⊢
    linarith
  have hk := rounded_le hproduct
  refine ⟨_, Nat.lt_of_le_of_lt hk hn, ?_⟩
  rw [average, if_neg hc]
  exact div_ofNat (Nat.lt_of_le_of_lt hk h53) (by decide) (by decide)

theorem Statistics.ofTree_depthSum_le {t : Tree} {n : Nat} (h : ∀ v ∈ t.walk 0 [], v.level ≤ n) :
    (ofTree t).depthSum ≤ n * (ofTree t).totalNodes := by
  have hsum := List.sum_le_card_nsmul ((t.walk 0 []).map Visit.level) n (by simpa using h)
  rw [List.length_map, Tree.length_walk, smul_eq_mul, Nat.mul_comm] at hsum
  rw [ofTree_depthSum, ofTree_totalNodes]
  exact hsum

namespace Tree

theorem height_le {t : Tree} {n : Nat} (h : ∀ v ∈ t.walk 0 [], v.level ≤ n) : t.height ≤ n := by
  obtain ⟨v, hv, hl⟩ := t.isGreatest_level.1
  exact hl ▸ h v hv

theorem depth_le_deepest {t : Tree} {v : Visit} (hv : v ∈ t.walk 0 []) :
    v.node.depth.getD 0 ≤ t.deepest := by
  cases hd : v.node.depth with
  | none => exact Nat.zero_le _
  | some e =>
    by_contra hlt
    exact Nat.lt_irrefl _ (recordsPast_iff.mp ⟨v, hv, e, hd, Nat.lt_of_not_le hlt⟩)

end Tree

open MarkupNesting.Tree Json

theorem Advice.reduction_le {t : Tree} {n : Nat} (hn : 1 ≤ n) (ht : t.deepest ≤ n) {s : Suggestion}
    (hs : s ∈ scan t rules) : s.reduction ≤ n := by
  obtain ⟨v, hv, f, -, rfl⟩ := mem_scan_iff.mp hs
  have hd := depth_le_deepest hv
  cases f <;> simp only [said, gain] <;> omega

variable {p : Json → Prop}

/-- A property of the numbers of an analysis: of the small ones, of the two that may be great, and
of those with two decimal places. -/
theorem Analysis.eachNumber_analyze {source : String} {d : Dialect} {a : Analysis}
    (h : analyze source d = .ok a) (hsmall : ∀ n ≤ nestingLimit + 1, p (.natural n))
    (htotal : p (.natural a.statistics.totalNodes)) (hsum : p (.natural a.statistics.depthSum))
    (haverage : ∀ k < hundredthsLimit, p (.binary (nearest k 100))) : a.toJson.EachNumber p := by
  obtain ⟨t, hb, -, rfl⟩ := analyze_eq_ok_iff.mp h
  obtain ⟨-, hw, hd⟩ := buildTree_eq_ok_iff.mp hb
  have hlevel : ∀ v ∈ t.walk 0 [], v.level ≤ nestingLimit + 1 := by
    intro v hv
    obtain ⟨e, he, hl⟩ := level_le_of_mem_walk hw hv
    have hle := depth_le_deepest hv
    rw [he, Option.getD_some] at hle
    omega
  have hheight : (Statistics.ofTree t).maxDepth ≤ nestingLimit + 1 :=
    Statistics.ofTree_maxDepth t ▸ height_le hlevel
  have hreduction : ∀ s ∈ (Advice.ofTree t (Statistics.ofTree t).maxDepth).suggestions,
      p (.natural s.reduction) := fun s hs =>
    hsmall _ (Advice.reduction_le (by decide) (hd.trans (Nat.le_succ _))
      ((Advice.dedupe_sublist [] _).subset hs))
  have hpercentage :
      Advice.percentage (Advice.totalReduction (Advice.dedupe [] (Advice.scan t Advice.rules)))
        (Statistics.ofTree t).maxDepth ≤ nestingLimit + 1 := by
    rw [Advice.percentage, nestingLimit]
    split <;> omega
  have hoptimized : max ((Statistics.ofTree t).maxDepth -
      Advice.totalReduction (Advice.dedupe [] (Advice.scan t Advice.rules))) 1 ≤ nestingLimit + 1 := by
    rw [nestingLimit] at hheight ⊢
    omega
  obtain ⟨k, hk, hx⟩ := average_eq_nearest (Statistics.ofTree_depthSum_le hlevel) (by decide)
  apply Analysis.eachNumber_toJson
  · exact Tree.eachNumber_toJson t fun n hn => hsmall n (hn.trans (hd.trans (Nat.le_succ _)))
  · refine Statistics.eachNumber_toJson ⟨hsmall _ hheight, htotal, hsum⟩ ?_
    exact (show (Statistics.ofTree t).averageDepth = nearest k 100 from hx) ▸ haverage k hk
  · exact Advice.eachNumber_toJson hreduction
      ⟨hsmall _ hpercentage, hsmall _ hheight, hsmall _ hoptimized⟩

namespace Request

variable (r : Request)

theorem exists_analyze {r : Request} {a : Analysis} (h : r.run = .ok a) :
    ∃ d, analyze r.source d = .ok a := by
  rw [run] at h
  split at h
  · cases h
  · cases hd : Dialect.ofName r.dialect with
    | error e =>
      rw [hd] at h
      cases h
    | ok d =>
      simp only [hd, bind, Except.bind] at h
      exact ⟨d, h⟩

theorem eachNumber_respond (h : ∀ a, r.run = .ok a → a.toJson.EachNumber p) :
    r.respond.toJson.EachNumber p := by
  apply Response.eachNumber_toJson
  intro a ha
  rw [respond] at ha
  split at ha
  · next b hb =>
    cases ha
    exact h a hb
  · cases ha

theorem isWritten_respond : r.respond.toJson.EachNumber IsWritten := by
  apply eachNumber_respond
  intro a ha
  obtain ⟨d, h⟩ := exists_analyze ha
  exact Analysis.eachNumber_analyze h (fun _ _ => trivial) trivial trivial fun k hk => ⟨k, hk, rfl⟩

/-- Whether the number of elements and the sum of their levels fit their fields. -/
def CountsFit : Prop :=
  ∀ a, r.run = .ok a →
    a.statistics.totalNodes < twoTo widths.general ∧ a.statistics.depthSum < twoTo widths.general

theorem isExact_respond {r : Request} (hr : r.CountsFit) : r.respond.toJson.EachNumber IsExact := by
  apply eachNumber_respond
  intro a ha
  obtain ⟨htotal, hsum⟩ := hr a ha
  obtain ⟨d, h⟩ := exists_analyze ha
  have hsmall : nestingLimit + 1 < twoTo widths.general := by decide
  exact Analysis.eachNumber_analyze h (fun _ hn => isExact_natural (Nat.lt_of_le_of_lt hn hsmall))
    (isExact_natural htotal) (isExact_natural hsum) fun k hk => ⟨k, hk, rfl⟩

end Request

end MarkupNesting
