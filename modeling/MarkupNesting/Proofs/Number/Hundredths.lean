import Mathlib
import MarkupNesting.Number.Shortest
import MarkupNesting.Proofs.Number.Digits
import MarkupNesting.Proofs.Number.Rounding

/-! The text of a number with two decimal places. The shortest digits that read as the number
nearest to `k / 100` are those of `k / 100` itself, as long as `k` is below `10 ^ 15`. -/

namespace MarkupNesting.Binary64

theorem ten_zpow_of_nonneg {p : Int} (h : 0 ≤ p) : (10 : ℚ) ^ p = (tenTo p.toNat : Nat) := by
  obtain ⟨n, rfl⟩ := Int.eq_ofNat_of_zero_le h
  simp

theorem ten_zpow_of_neg {p : Int} (h : ¬ 0 ≤ p) :
    (10 : ℚ) ^ p = ((tenTo (-p).toNat : Nat) : ℚ)⁻¹ := by
  rw [← ten_zpow_of_nonneg (by omega), zpow_neg, inv_inv]

theorem inUnits_snd_pos (d : Nat) (p e : Int) : 0 < (inUnits d p e).2 := by
  apply Nat.mul_pos
  · split
    · exact Nat.one_pos
    · exact Nat.pow_pos (by decide)
  · split
    · exact Nat.two_pow_pos _
    · exact Nat.one_pos

theorem quotient_inUnits (d : Nat) (p e : Int) : quotient (inUnits d p e) = d * 10 ^ p / 2 ^ e := by
  have hten : ((if 0 ≤ p then tenTo p.toNat else 1 : Nat) : ℚ) /
      (if 0 ≤ p then 1 else tenTo (-p).toNat : Nat) = 10 ^ p := by
    by_cases hp : 0 ≤ p
    · rw [if_pos hp, if_pos hp, Nat.cast_one, div_one, ten_zpow_of_nonneg hp]
    · rw [if_neg hp, if_neg hp, Nat.cast_one, one_div, ten_zpow_of_neg hp]
  have htwo : ((if 0 ≤ e then 1 else twoTo (-e).toNat : Nat) : ℚ) /
      (if 0 ≤ e then twoTo e.toNat else 1 : Nat) = (2 ^ e)⁻¹ := by
    by_cases he : 0 ≤ e
    · rw [if_pos he, if_pos he, Nat.cast_one, one_div, two_zpow_of_nonneg he]
    · rw [if_neg he, if_neg he, Nat.cast_one, div_one, two_zpow_of_neg he, inv_inv]
  rw [quotient, inUnits]
  simp only [Nat.cast_mul]
  rw [mul_div_mul_comm, mul_div_assoc, hten, htwo, div_eq_mul_inv]

/-- What reads as a number lies between the ends of its interval, or at one if that belongs to it. -/
theorem reads_iff (x : Binary64) (d : Nat) (p : Int) :
    x.reads d p = true ↔
      if x.interval.closed then
        (x.interval.lower : ℚ) ≤ d * 10 ^ p / 2 ^ (x.exponent - 2) ∧
          (d * 10 ^ p / 2 ^ (x.exponent - 2) : ℚ) ≤ x.interval.upper
      else
        (x.interval.lower : ℚ) < d * 10 ^ p / 2 ^ (x.exponent - 2) ∧
          (d * 10 ^ p / 2 ^ (x.exponent - 2) : ℚ) < x.interval.upper := by
  have hden : (0 : ℚ) < (inUnits d p (x.exponent - 2)).2 := Nat.cast_pos.mpr (inUnits_snd_pos d p _)
  have hq := quotient_inUnits d p (x.exponent - 2)
  rw [quotient] at hq
  rw [← hq, le_div_iff₀ hden, div_le_iff₀ hden, lt_div_iff₀ hden, div_lt_iff₀ hden]
  simp only [reads]
  split
  · rw [Bool.and_eq_true, decide_eq_true_eq, decide_eq_true_eq]
    exact_mod_cast Iff.rfl
  · rw [Bool.and_eq_true, decide_eq_true_eq, decide_eq_true_eq]
    exact_mod_cast Iff.rfl

theorem quarter (q : ℚ) (e : Int) : q / 2 ^ (e - 2) = 4 * (q / 2 ^ e) := by
  rw [zpow_sub₀ (by norm_num)]
  norm_num
  ring

theorem abs_sub_magnitude_of_reads {x : Binary64} {d : Nat} {p : Int} (h : x.reads d p = true) :
    |(d * 10 ^ p : ℚ) - x.magnitude| ≤ 2 ^ x.exponent / 2 := by
  have hpos := two_zpow_pos x.exponent
  have hlower : (4 * x.mantissa : ℚ) - 2 ≤ x.interval.lower := by
    have hnat : 4 * x.mantissa ≤ x.interval.lower + 2 := by
      simp only [interval]
      split <;> omega
    have hcast : (4 * x.mantissa : ℚ) ≤ x.interval.lower + 2 := by exact_mod_cast hnat
    linarith
  have hupper : (x.interval.upper : ℚ) = 4 * x.mantissa + 2 := by
    rw [interval]
    push_cast
    ring
  have hboth : (4 * x.mantissa : ℚ) - 2 ≤ 4 * (d * 10 ^ p / 2 ^ x.exponent) ∧
      4 * (d * 10 ^ p / 2 ^ x.exponent : ℚ) ≤ 4 * x.mantissa + 2 := by
    rw [← quarter]
    rw [reads_iff] at h
    split at h
    · exact ⟨hlower.trans h.1, h.2.trans_eq hupper⟩
    · exact ⟨hlower.trans h.1.le, h.2.le.trans_eq hupper⟩
  have hnear : |(d * 10 ^ p : ℚ) / 2 ^ x.exponent - x.mantissa| ≤ 1 / 2 := by
    rw [abs_le]
    constructor <;> linarith [hboth.1, hboth.2]
  have hsplit : (d * 10 ^ p : ℚ) - x.magnitude =
      ((d * 10 ^ p : ℚ) / 2 ^ x.exponent - x.mantissa) * 2 ^ x.exponent := by
    rw [magnitude, sub_mul, div_mul_cancel₀ _ hpos.ne']
  rw [hsplit, abs_mul, abs_of_pos hpos]
  linarith [mul_le_mul_of_nonneg_right hnear hpos.le]

theorem two_pow_le_div {q : ℚ} (hq : 0 < q) (h : leastExponent < place q) :
    (2 : ℚ) ^ 52 ≤ q / 2 ^ place q := by
  have hlog : 52 + place q = Int.log 2 q := by
    rw [place] at h ⊢
    omega
  have hsplit : (2 : ℚ) ^ 52 * 2 ^ place q = 2 ^ (52 + place q) := by
    rw [zpow_add₀ (by norm_num)]
    norm_num
  rw [le_div_iff₀ (two_zpow_pos _), hsplit, hlog]
  exact two_zpow_log_le hq

theorem div_lt_two_pow (q : ℚ) : q / 2 ^ place q < 2 ^ 53 := by
  have hle : Int.log 2 q + 1 ≤ 53 + place q := by
    rw [place]
    omega
  have hsplit : (2 : ℚ) ^ 53 * 2 ^ place q = 2 ^ (53 + place q) := by
    rw [zpow_add₀ (by norm_num)]
    norm_num
  rw [div_lt_iff₀ (two_zpow_pos _), hsplit]
  exact (lt_two_zpow_succ_log q).trans_le (zpow_le_zpow_right₀ (by norm_num) hle)

/-- Below a power of two the numbers are twice as close, but no quotient is rounded up to one from
there without a carry. -/
theorem lower_interval_le {q : ℚ} (hq : 0 < q) {m : Nat}
    (hm : |(m : ℚ) - q / 2 ^ place q| ≤ 1 / 2) :
    ((interval ⟨false, m, place q⟩).lower : ℚ) ≤ 4 * (q / 2 ^ place q) := by
  have hpos := div_pos hq (two_zpow_pos (place q))
  have hm' := abs_le.mp hm
  by_cases h52 : m = twoTo 52 ∧ leastExponent < place q
  · have hlow := two_pow_le_div hq h52.2
    have hl : ((interval ⟨false, m, place q⟩).lower : ℚ) = 2 ^ 54 - 1 := by
      simp only [interval, h52, and_self, if_true]
      norm_num
    rw [hl]
    linarith
  · have hl : (interval ⟨false, m, place q⟩).lower = 4 * m - 2 := by
      simp only [interval, h52, if_false]
    rw [hl]
    by_cases h0 : m = 0
    · rw [h0]
      simpa using hpos.le
    · rw [Nat.cast_sub (by omega)]
      push_cast
      linarith

section Reads

variable {q : ℚ} {d : Nat} {p : Int} (h : (d * 10 ^ p : ℚ) = q)

include h

/-- A mantissa that would have 54 digits is halved. -/
theorem reads_carried (hm : |(2 ^ 53 : ℚ) - q / 2 ^ place q| ≤ 1 / 2) :
    reads ⟨false, twoTo 52, place q + 1⟩ d p = true := by
  have hlt := div_lt_two_pow q
  have hleast : leastExponent < place q + 1 := Int.lt_add_one_of_le (le_max_right _ _)
  have hscale : q / 2 ^ (place q + 1 - 2) = 2 * (q / 2 ^ place q) := by
    rw [quarter, zpow_add_one₀ (by norm_num)]
    field_simp
    ring
  have hclosed : (interval ⟨false, twoTo 52, place q + 1⟩).closed = true :=
    decide_eq_true (show twoTo 52 % 2 = 0 by decide)
  have hlower : ((interval ⟨false, twoTo 52, place q + 1⟩).lower : ℚ) = 2 ^ 54 - 1 := by
    simp only [interval, hleast, and_self, if_true]
    norm_num
  have hupper : ((interval ⟨false, twoTo 52, place q + 1⟩).upper : ℚ) = 2 ^ 54 + 2 := by
    simp only [interval]
    norm_num
  rw [reads_iff, h, if_pos hclosed, hlower, hupper, hscale]
  constructor <;> linarith [(abs_le.mp hm).2]

theorem reads_mantissa (hq : 0 < q) {m : Nat} (hm : |(m : ℚ) - q / 2 ^ place q| ≤ 1 / 2)
    (hodd : m % 2 = 1 → |(m : ℚ) - q / 2 ^ place q| < 1 / 2) :
    reads ⟨false, m, place q⟩ d p = true := by
  have hlower := lower_interval_le hq hm
  have hupper : ((interval ⟨false, m, place q⟩).upper : ℚ) = 4 * m + 2 := by
    simp only [interval]
    push_cast
    ring
  rw [reads_iff, h, quarter, hupper]
  split
  · exact ⟨hlower, by linarith [(abs_le.mp hm).1]⟩
  · next hc =>
    have hmod : m % 2 = 1 := by
      simp only [interval, decide_eq_true_eq] at hc
      omega
    have hstrict := abs_lt.mp (hodd hmod)
    have hl : ((interval ⟨false, m, place q⟩).lower : ℚ) = 4 * m - 2 := by
      have h52 : m ≠ twoTo 52 := fun h52 => by
        rw [h52] at hmod
        cases hmod
      simp only [interval, h52, false_and, if_false]
      rw [Nat.cast_sub (by omega)]
      push_cast
      ring
    rw [hl]
    constructor <;> linarith [hstrict.1, hstrict.2]

end Reads

/-- A quotient reads as the number nearest to it. -/
theorem reads_nearest {num den d : Nat} {p : Int} (hn : num ≠ 0) (hd : 0 < den)
    (h : (d * 10 ^ p : ℚ) = quotient (num, den)) : (nearest num den).reads d p = true := by
  obtain ⟨m, hm, hodd, hx⟩ := exists_mantissa hn hd
  rw [hx]
  split
  · next h53 =>
    have hcast : (m : ℚ) = 2 ^ 53 := by
      rw [h53]
      norm_num
    exact reads_carried h (hcast ▸ hm)
  · exact reads_mantissa h (quotient_pos hn hd) hm hodd

theorem quotient_neighbours (x : Binary64) (p : Int) :
    quotient (x.ratio.1 * (if 0 ≤ p then 1 else tenTo (-p).toNat),
      x.ratio.2 * (if 0 ≤ p then tenTo p.toNat else 1)) = x.magnitude / 10 ^ p := by
  have hq := quotient_ratio x
  rw [quotient] at hq
  simp only [quotient, Nat.cast_mul]
  rw [mul_div_mul_comm, hq]
  by_cases hp : 0 ≤ p
  · rw [if_pos hp, if_pos hp, Nat.cast_one, ten_zpow_of_nonneg hp, mul_one_div]
  · rw [if_neg hp, if_neg hp, Nat.cast_one, ten_zpow_of_neg hp, div_one, div_inv_eq_mul]

theorem mem_neighbours {x : Binary64} {p : Int} {k : Nat} (h : |x.magnitude / 10 ^ p - k| < 1) :
    k ∈ x.neighbours p := by
  have hden : 0 < x.ratio.2 * (if 0 ≤ p then tenTo p.toNat else 1) := by
    apply Nat.mul_pos (ratio_snd_pos x)
    split
    · exact Nat.pow_pos (by decide)
    · exact Nat.one_pos
  have hq := quotient_neighbours x p
  simp only [neighbours]
  generalize x.ratio.1 * (if 0 ≤ p then 1 else tenTo (-p).toNat) = num at hq ⊢
  generalize x.ratio.2 * (if 0 ≤ p then tenTo p.toNat else 1) = den at hq hden ⊢
  rw [← hq, quotient, abs_lt] at h
  have hden' : (0 : ℚ) < den := Nat.cast_pos.mpr hden
  have hlow : ((num / den : Nat) : ℚ) ≤ num / den := Nat.cast_div_le
  have hhigh : (num / den : ℚ) < (num / den : Nat) + 1 := by
    rw [div_lt_iff₀ hden']
    have hlt : num < (num / den + 1) * den := 
      (Nat.div_lt_iff_lt_mul hden).mp (Nat.lt_succ_self _)
    exact_mod_cast hlt
  have h1 : (k : ℚ) < (num / den + 2 : Nat) := by
    push_cast
    linarith [h.1]
  have h2 : ((num / den : Nat) : ℚ) < (k + 1 : Nat) := by
    push_cast
    linarith [h.2]
  have h1' : k < num / den + 2 := by exact_mod_cast h1
  have h2' : num / den < k + 1 := by exact_mod_cast h2
  split
  · simp only [List.mem_cons, List.not_mem_nil, or_false]
    omega
  · simp only [List.mem_cons, List.not_mem_nil, or_false]
    omega

/-- Below this numerator a number with two decimal places is written out in full. -/
def hundredthsLimit : Nat := tenTo 15

theorem quotient_hundred (k : Nat) : quotient (k, 100) = k / 100 := by
  rw [quotient, Nat.cast_ofNat]

theorem place_hundredths {k : Nat} (h0 : k ≠ 0) (hk : k < hundredthsLimit) :
    place (quotient (k, 100)) ≤ -9 := by
  have hq : quotient (k, 100) < 2 ^ (44 : Int) := by
    have hk' : (k : ℚ) < 10 ^ 15 := by exact_mod_cast hk
    have h44 : (2 : ℚ) ^ (44 : Int) = 17592186044416 := by norm_num
    rw [quotient_hundred, h44]
    linarith
  have hlog : Int.log 2 (quotient (k, 100)) < 44 :=
    (Int.lt_zpow_iff_log_lt (by decide) (quotient_pos h0 (by decide))).mp (by exact_mod_cast hq)
  rw [place, leastExponent]
  omega

theorem exponent_hundredths {k : Nat} (h0 : k ≠ 0) (hk : k < hundredthsLimit) :
    (nearest k 100).exponent ≤ -8 := by
  have hp := place_hundredths h0 hk
  obtain ⟨m, -, -, hx⟩ := exists_mantissa h0 (show 0 < 100 by decide)
  rw [hx]
  split
  · exact Int.add_le_add_right hp 1
  · exact hp.trans (by decide)

theorem two_zpow_le_of_le {e b : Int} (h : e ≤ b) : (2 : ℚ) ^ e ≤ 2 ^ b :=
  zpow_le_zpow_right₀ (by norm_num) h

theorem abs_magnitude_sub_hundredths {k : Nat} (h0 : k ≠ 0) (hk : k < hundredthsLimit) :
    |(nearest k 100).magnitude - k / 100| ≤ 1 / 1024 := by
  have hnear := abs_magnitude_sub h0 (show 0 < 100 by decide)
  have hunit := two_zpow_le_of_le (place_hundredths h0 hk)
  have h9 : (2 : ℚ) ^ (-9 : Int) = 1 / 512 := by norm_num
  rw [h9] at hunit
  rw [quotient_hundred] at hnear hunit
  linarith

theorem eq_of_reads {k : Nat} (h0 : k ≠ 0) (hk : k < hundredthsLimit) {d : Nat} {p : Int}
    (hp : -2 ≤ p) (h : (nearest k 100).reads d p = true) : d * tenTo (p + 2).toNat = k := by
  have hreads := abs_le.mp (abs_sub_magnitude_of_reads h)
  have hnear := abs_le.mp (abs_magnitude_sub_hundredths h0 hk)
  have hunit := two_zpow_le_of_le (exponent_hundredths h0 hk)
  have h8 : (2 : ℚ) ^ (-8 : Int) = 1 / 256 := by norm_num
  rw [h8] at hunit
  have hscale : ((d * tenTo (p + 2).toNat : Nat) : ℚ) = 100 * (d * 10 ^ p) := by
    rw [Nat.cast_mul, ← ten_zpow_of_nonneg (by omega), zpow_add₀ (by norm_num)]
    norm_num
    ring
  have hlt1 : ((d * tenTo (p + 2).toNat : Nat) : ℚ) < (k + 1 : Nat) := by
    rw [hscale]
    push_cast
    linarith [hreads.2, hnear.2]
  have hlt2 : (k : ℚ) < (d * tenTo (p + 2).toNat + 1 : Nat) := by
    rw [Nat.cast_add, hscale]
    push_cast
    linarith [hreads.1, hnear.1]
  have h1 : d * tenTo (p + 2).toNat < k + 1 := by exact_mod_cast hlt1
  have h2 : k < d * tenTo (p + 2).toNat + 1 := by exact_mod_cast hlt2
  omega

theorem reads_hundredths {k : Nat} (h0 : k ≠ 0) : (nearest k 100).reads k (-2) = true := by
  apply reads_nearest h0 (by decide)
  have h2 : (10 : ℚ) ^ (-2 : Int) = 1 / 100 := by norm_num
  rw [quotient_hundred, h2, mul_one_div]

theorem mem_neighbours_hundredths {k : Nat} (h0 : k ≠ 0) (hk : k < hundredthsLimit) :
    k ∈ (nearest k 100).neighbours (-2) := by
  have hnear := abs_le.mp (abs_magnitude_sub_hundredths h0 hk)
  have h2 : (10 : ℚ) ^ (-2 : Int) = 1 / 100 := by norm_num
  apply mem_neighbours
  rw [h2, abs_lt]
  constructor <;> linarith [hnear.1, hnear.2]

theorem search_bounds (fuel : Nat) {den n : Nat} (h : den ≤ 100 * n) :
    -2 ≤ firstPlace.search den (fuel + 3) n ∧ firstPlace.search den (fuel + 3) n ≤ 0 := by
  rw [firstPlace.search]
  split
  · decide
  · rw [firstPlace.search]
    split
    · decide
    · rw [firstPlace.search, if_pos (by omega)]
      decide

theorem firstPlace_bounds {a b : Nat} (h1 : a < 10 ^ 14 * b) (h2 : b ≤ 100 * a) :
    -2 ≤ firstPlace a b ∧ firstPlace a b ≤ 13 := by
  have hb : 0 < b := by
    rw [Nat.pos_iff_ne_zero]
    rintro rfl
    omega
  rw [firstPlace]
  split
  · have hlt : a / b < 10 ^ (13 + 1) := (Nat.div_lt_iff_lt_mul hb).mpr h1
    have hlen := Decimal.length_digits_lt hlt
    have hpos := Decimal.length_digits_pos (a / b)
    omega
  · have hs := search_bounds 397 h2
    exact ⟨hs.1, hs.2.trans (by decide)⟩

theorem firstPlace_hundredths {k : Nat} (h0 : k ≠ 0) (hk : k < hundredthsLimit) :
    -2 ≤ firstPlace (nearest k 100).ratio.1 (nearest k 100).ratio.2 ∧
      firstPlace (nearest k 100).ratio.1 (nearest k 100).ratio.2 ≤ 13 := by
  have hnear := abs_le.mp (abs_magnitude_sub_hundredths h0 hk)
  have hq := quotient_ratio (nearest k 100)
  have hb : (0 : ℚ) < (nearest k 100).ratio.2 := Nat.cast_pos.mpr (ratio_snd_pos _)
  rw [quotient, div_eq_iff hb.ne'] at hq
  apply firstPlace_bounds
  · have hk' : (k : ℚ) < 10 ^ 15 := by exact_mod_cast hk
    have hlt : (nearest k 100).magnitude < 10 ^ 14 := by linarith [hnear.2]
    have hmul := mul_lt_mul_of_pos_right hlt hb
    rw [← hq] at hmul
    exact_mod_cast hmul
  · by_cases h1 : k = 1
    · subst h1
      decide +kernel
    · -- two hundredths are past the first one even when rounded down
      have hk2 : (2 : ℚ) ≤ k := by exact_mod_cast (show 2 ≤ k by omega)
      have hle : (1 : ℚ) ≤ 100 * (nearest k 100).magnitude := by linarith [hnear.1]
      have hmul := mul_le_mul_of_nonneg_right hle hb.le
      rw [one_mul, mul_assoc, ← hq] at hmul
      exact_mod_cast hmul

theorem tenTo_add (m n : Nat) : tenTo (m + n) = tenTo m * tenTo n := Nat.pow_add 10 m n

theorem stripped_spec (d : Nat) (p : Int) (h : d ≠ 0) :
    p ≤ (stripped d p).2 ∧ (stripped d p).1 ≠ 0 ∧
      (stripped d p).1 * tenTo ((stripped d p).2 - p).toNat = d := by
  fun_induction stripped d p with
  | case1 d p hd ih =>
    obtain ⟨h1, h2, h3⟩ := ih (by omega)
    refine ⟨by omega, h2, ?_⟩
    have hplace : ((stripped (d / 10) (p + 1)).2 - p).toNat =
        ((stripped (d / 10) (p + 1)).2 - (p + 1)).toNat + 1 := by omega
    have hone : tenTo 1 = 10 := rfl
    rw [hplace, tenTo_add, ← Nat.mul_assoc, h3, hone]
    omega
  | case2 d p hd => exact ⟨le_refl p, h, by simp⟩

/-- The first number with a value is no greater than any other. -/
theorem findSome?_range {β : Type} {f : Nat → Option β} {m n : Nat} (hn : n < m)
    (hf : (f n).isSome = true) :
    ∃ i ≤ n, ∃ b, f i = some b ∧ (List.range m).findSome? f = some b := by
  have hsome : ((List.range m).findSome? f).isSome = true :=
    List.findSome?_isSome_iff.mpr ⟨n, List.mem_range.mpr hn, hf⟩
  obtain ⟨b, hb⟩ := Option.isSome_iff_exists.mp hsome
  obtain ⟨front, i, back, hsplit, hi, hfront⟩ := List.findSome?_eq_some_iff.mp hb
  refine ⟨i, ?_, b, hi, hb⟩
  have hsorted := List.pairwise_lt_range (n := m)
  have hmem : n ∈ front ++ i :: back := hsplit ▸ List.mem_range.mpr hn
  rw [hsplit] at hsorted
  rw [List.mem_append, List.mem_cons] at hmem
  rcases hmem with hmem | rfl | hmem
  · rw [hfront n hmem] at hf
    cases hf
  · exact Nat.le_refl _
  · exact Nat.le_of_lt (List.rel_of_pairwise_cons (List.pairwise_append.mp hsorted).2.1 hmem)

/-- The shortest digits that read as a number with two decimal places are its own. -/
theorem shortest_hundredths {k : Nat} (h0 : k ≠ 0) (hk : k < hundredthsLimit) :
    -2 ≤ (nearest k 100).shortest.2 ∧ (nearest k 100).shortest.1 ≠ 0 ∧
      (nearest k 100).shortest.1 * tenTo ((nearest k 100).shortest.2 + 2).toNat = k := by
  obtain ⟨hlow, hhigh⟩ := firstPlace_hundredths h0 hk
  obtain ⟨x, hx⟩ : ∃ x, x = nearest k 100 := ⟨_, rfl⟩
  obtain ⟨first, hfirst⟩ : ∃ first, first = firstPlace x.ratio.1 x.ratio.2 := ⟨_, rfl⟩
  rw [← hx, ← hfirst] at hlow hhigh
  have hplace : first - ((first + 2).toNat : Int) = -2 := by omega
  -- the search gets as far as the hundredths
  have hsome : ((x.neighbours (first - ((first + 2).toNat : Int))).find? fun d =>
      x.reads d (first - ((first + 2).toNat : Int))).isSome = true := by
    rw [hplace, List.find?_isSome, hx]
    exact ⟨k, mem_neighbours_hundredths h0 hk, reads_hundredths h0⟩
  obtain ⟨n, hn, ⟨d, p⟩, hfound, hrange⟩ := findSome?_range
    (f := fun n : Nat => ((x.neighbours (first - n)).find? fun d => x.reads d (first - n)).map
      fun d => (d, first - (n : Int)))
    (show (first + 2).toNat < 17 by omega) (by simpa using hsome)
  obtain ⟨e, he, heq⟩ := Option.map_eq_some_iff.mp hfound
  obtain ⟨rfl, rfl⟩ := Prod.mk.inj heq
  have hreads := List.find?_some he
  have hle : -2 ≤ first - (n : Int) := by omega
  rw [hx] at hreads
  have hvalue := eq_of_reads h0 hk hle hreads
  have hshort : x.shortest = stripped e (first - n) := by
    simp only [shortest, ← hfirst, hrange]
  have he0 : e ≠ 0 := by
    rintro rfl
    rw [Nat.zero_mul] at hvalue
    exact h0 hvalue.symm
  obtain ⟨h1, h2, h3⟩ := stripped_spec e (first - n) he0
  rw [← hx, hshort]
  refine ⟨hle.trans h1, h2, ?_⟩
  have hsum : ((stripped e (first - n)).2 + 2).toNat =
      ((stripped e (first - n)).2 - (first - n)).toNat + (first - n + 2).toNat := by omega
  rw [← hvalue, hsum, tenTo_add, ← Nat.mul_assoc, h3]

/-- The digits before and after the point of a number with one or two decimal places, as they are
written. -/
structure IsDecimal (k : Nat) (whole fraction : List Char) : Prop where
  whole_digits : ∀ c ∈ whole, c.isDigit = true
  fraction_digits : ∀ c ∈ fraction, c.isDigit = true
  whole_ne_nil : whole ≠ []
  fraction_ne_nil : fraction ≠ []
  /-- A zero before the point stands alone. -/
  leading : whole.head? = some '0' → whole.length = 1
  places : fraction.length ≤ 2
  value : Decimal.ofDigits (whole ++ fraction) * 100 = k * 10 ^ fraction.length

theorem point_le {d : Nat} {p : Int} (h0 : d ≠ 0) (hp : -2 ≤ p)
    (hk : d * tenTo (p + 2).toNat < hundredthsLimit) : ((Decimal.digits d).length : Int) + p ≤ 13 := by
  have hd := Decimal.pow_length_digits_le h0
  have hpos := Decimal.length_digits_pos d
  have hlt : 10 ^ ((Decimal.digits d).length - 1 + (p + 2).toNat) < 10 ^ 15 := by
    rw [Nat.pow_add]
    exact Nat.lt_of_le_of_lt (Nat.mul_le_mul_right _ hd) hk
  have hexp := (Nat.pow_lt_pow_iff_right (by decide)).mp hlt
  omega

theorem isDigit_zero : ∀ c ∈ ['0'], c.isDigit = true := by
  intro c hc
  rw [List.mem_singleton] at hc
  rw [hc]
  rfl

theorem leading_digits {d n : Nat} (h0 : d ≠ 0) (hn : 0 < n) :
    ((Decimal.digits d).take n).head? ≠ some '0' := by
  rw [List.head?_take, if_neg hn.ne']
  exact Decimal.head?_digits h0

theorem isDecimal_split {d : Nat} {p : Int} (h0 : d ≠ 0) (hp : p = -2 ∨ p = -1)
    (hpoint : 0 < ((Decimal.digits d).length : Int) + p) :
    IsDecimal (d * tenTo (p + 2).toNat)
      ((Decimal.digits d).take (((Decimal.digits d).length : Int) + p).toNat)
      ((Decimal.digits d).drop (((Decimal.digits d).length : Int) + p).toNat) := by
  have hdigits : ∀ c ∈ Decimal.digits d, c.isDigit = true := fun c hc =>
    Decimal.isDigit_of_mem_digits hc
  have hlen : ((Decimal.digits d).drop (((Decimal.digits d).length : Int) + p).toNat).length =
      (-p).toNat := by
    rw [List.length_drop]
    omega
  refine ⟨fun c hc => hdigits c (List.mem_of_mem_take hc),
    fun c hc => hdigits c (List.mem_of_mem_drop hc), ?_, ?_,
    fun hz => absurd hz (leading_digits h0 (by omega)), ?_, ?_⟩
  · intro hnil
    have hl := congrArg List.length hnil
    rw [List.length_take, List.length_nil] at hl
    omega
  · intro hnil
    rw [hnil, List.length_nil] at hlen
    omega
  · omega
  · rw [hlen, List.take_append_drop, Decimal.ofDigits_digits, Nat.mul_assoc]
    rcases hp with rfl | rfl <;> rfl

theorem isDecimal_small {d : Nat} {p : Int} (hp : p = -2 ∨ p = -1)
    (hpoint : ((Decimal.digits d).length : Int) + p ≤ 0) :
    IsDecimal (d * tenTo (p + 2).toNat) ['0']
      (List.replicate (-(((Decimal.digits d).length : Int) + p)).toNat '0' ++ Decimal.digits d) := by
  have hlen : (List.replicate (-(((Decimal.digits d).length : Int) + p)).toNat '0' ++
      Decimal.digits d).length = (-p).toNat := by
    rw [List.length_append, List.length_replicate]
    omega
  refine ⟨isDigit_zero, ?_, by simp, ?_, fun _ => rfl, by omega, ?_⟩
  · intro c hc
    rw [List.mem_append] at hc
    rcases hc with hc | hc
    · rw [List.eq_of_mem_replicate hc]
      decide
    · exact Decimal.isDigit_of_mem_digits hc
  · exact List.append_ne_nil_of_right_ne_nil _ (Decimal.digits_ne_nil d)
  · have hvalue : Decimal.ofDigits (['0'] ++ (List.replicate
        (-(((Decimal.digits d).length : Int) + p)).toNat '0' ++ Decimal.digits d)) = d := by
      rw [Decimal.ofDigits_append_eq, Decimal.ofDigits_append_eq, Decimal.ofDigits_zeros,
        Decimal.ofDigits_digits]
      have hz : Decimal.ofDigits ['0'] = 0 := Decimal.ofDigits_zeros 1
      rw [hz, Nat.zero_mul, Nat.zero_mul, Nat.zero_add, Nat.zero_add]
    rw [hlen, hvalue, Nat.mul_assoc]
    rcases hp with rfl | rfl <;> rfl

theorem isDecimal_whole {d : Nat} (h0 : d ≠ 0) (n : Nat) :
    IsDecimal (d * tenTo (n + 2)) (Decimal.digits d ++ List.replicate n '0') ['0'] := by
  refine ⟨?_, isDigit_zero, ?_, by simp, ?_, by decide, ?_⟩
  · intro c hc
    rw [List.mem_append] at hc
    rcases hc with hc | hc
    · exact Decimal.isDigit_of_mem_digits hc
    · rw [List.eq_of_mem_replicate hc]
      decide
  · exact List.append_ne_nil_of_left_ne_nil (Decimal.digits_ne_nil d) _
  · intro hz
    rw [List.head?_append_of_ne_nil _ (Decimal.digits_ne_nil d)] at hz
    exact absurd hz (Decimal.head?_digits h0)
  · have hz : ['0'] = List.replicate 1 '0' := rfl
    rw [hz, Decimal.ofDigits_append_eq, Decimal.ofDigits_append_eq, Decimal.ofDigits_digits,
      Decimal.ofDigits_zeros, Decimal.ofDigits_zeros, List.length_replicate, List.length_replicate]
    have h2 : tenTo (n + 2) = tenTo n * 100 := tenTo_add n 2
    rw [h2, tenTo, Nat.pow_eq]
    ring

theorem exists_layOut {d : Nat} {p : Int} (h0 : d ≠ 0) (hp : -2 ≤ p)
    (hk : d * tenTo (p + 2).toNat < hundredthsLimit) :
    ∃ whole fraction, layOut d p = whole ++ '.' :: fraction ∧
      IsDecimal (d * tenTo (p + 2).toNat) whole fraction := by
  have hpoint := point_le h0 hp hk
  have hpos := Decimal.length_digits_pos d
  have hg : ((Decimal.digits d).length : Int) + p ≤ layout.greatest := hpoint.trans (by decide)
  have hl : layout.least < ((Decimal.digits d).length : Int) + p := by
    have hleast : layout.least < -1 := by decide
    omega
  simp only [layOut]
  by_cases hneg : 0 ≤ p
  · obtain ⟨n, rfl⟩ := Int.eq_ofNat_of_zero_le hneg
    refine ⟨_, ['0'], ?_, isDecimal_whole h0 n⟩
    rw [if_pos (by simp [hg])]
    simp
  · have hp2 : p = -2 ∨ p = -1 := by omega
    rw [if_neg (by simp [hneg])]
    by_cases hbefore : 0 < ((Decimal.digits d).length : Int) + p
    · exact ⟨_, _, by rw [if_pos (by simp [hbefore, hg])], isDecimal_split h0 hp2 hbefore⟩
    · refine ⟨['0'], _, ?_, isDecimal_small hp2 (by omega)⟩
      rw [if_neg (by simp [hbefore]), if_pos (by simp [hl]; omega)]
      rfl

/-- A number with two decimal places is written with one or two digits after the point. -/
theorem exists_chars {k : Nat} (hk : k < hundredthsLimit) :
    ∃ whole fraction, (nearest k 100).chars = whole ++ '.' :: fraction ∧ IsDecimal k whole fraction := by
  by_cases h0 : k = 0
  · subst h0
    exact ⟨['0'], ['0'], by decide, ⟨isDigit_zero, isDigit_zero, by simp, by simp, fun _ => rfl,
      by decide, by decide⟩⟩
  · obtain ⟨h1, h2, h3⟩ := shortest_hundredths h0 hk
    obtain ⟨whole, fraction, hl, hd⟩ := exists_layOut h2 h1 (h3.symm ▸ hk)
    rw [h3] at hd
    refine ⟨whole, fraction, ?_, hd⟩
    have hm : (nearest k 100).mantissa ≠ 0 := by
      intro hm
      have hnear := abs_le.mp (abs_magnitude_sub_hundredths h0 hk)
      have hk1 : (1 : ℚ) ≤ k := by exact_mod_cast Nat.one_le_iff_ne_zero.mpr h0
      rw [magnitude, hm, Nat.cast_zero, zero_mul] at hnear
      linarith [hnear.1]
    rw [chars, negative_nearest, if_neg hm]
    exact hl

end MarkupNesting.Binary64
