import Mathlib
import MarkupNesting.Proofs.Number.Rounding

/-! A hundred times a quotient, taken to the nearest integer. In binary64 the quotient is rounded,
and the product of that and a hundred is rounded again. The nearest integer comes out right unless
the exact product is very near to the middle between two integers; if it is the middle, the greater
of the two is missed by some quotients, and it is said by which. It is the middle where the
quotient is an odd number `n` of two hundredths: then it is `n / 2`, and the first rounding is that
of a twenty-fifth of an integer. -/

namespace MarkupNesting.Binary64

def hundredfold (part whole : Nat) : Binary64 := ((ofNat part).div (ofNat whole)).mul (ofNat 100)

/-- What a hundred times a quotient should be taken to, a half going up. -/
theorem roundUp_hundred (part whole : Nat) :
    roundUp (100 * part) whole = (200 * part + whole) / (2 * whole) := by
  rw [roundUp, ← Nat.mul_assoc]

theorem quotient_hundred_mul (part whole : Nat) :
    quotient (100 * part, whole) = 100 * quotient (part, whole) := by
  simp only [quotient, Nat.cast_mul, Nat.cast_ofNat, mul_div_assoc]

theorem hundredfold_congr {a b c d : Nat} (ha : a < twoTo 53) (hb : b < twoTo 53) (hb0 : 0 < b)
    (hc : c < twoTo 53) (hd : d < twoTo 53) (hd0 : 0 < d) (h : quotient (a, b) = quotient (c, d)) :
    hundredfold a b = hundredfold c d := by
  rw [hundredfold, hundredfold, div_ofNat ha hb hb0, div_ofNat hc hd hd0, nearest_congr hb0 hd0 h]

theorem le_iff_le_of_abs_sub_lt {x y t : ℚ} (h : |x - y| < |y - t|) : t ≤ x ↔ t ≤ y := by
  rcases abs_cases (x - y) with hx | hx <;> rcases abs_cases (y - t) with hy | hy <;>
    constructor <;> intro _ <;> linarith

section Error

variable {part whole : Nat} (hp : part < twoTo 53) (hw : whole < twoTo 53) (h0 : 0 < whole)

include hp hw h0

theorem exists_product : ∃ a b, 0 < b ∧ quotient (a, b) = (nearest part whole).magnitude * 100 ∧
    (hundredfold part whole).magnitude = (nearest a b).magnitude := by
  obtain ⟨a, b, hb, hq, hm⟩ := magnitude_mul (nearest part whole) (ofNat 100)
  have h100 : (ofNat 100).magnitude = 100 := magnitude_ofNat (by decide)
  rw [h100] at hq
  refine ⟨a, b, hb, hq, ?_⟩
  rw [hundredfold, div_ofNat hp hw h0, hm]

theorem abs_hundredfold_sub_le :
    |(hundredfold part whole).magnitude - 100 * quotient (part, whole)| ≤
      101 * quotient (part, whole) / 2 ^ 52 := by
  obtain ⟨a, b, hb, hq, hx⟩ := exists_product hp hw h0
  rw [hx]
  by_cases hz : part = 0
  · have ha : a = 0 := by
      rw [hz, nearest_zero] at hq
      have hzero : quotient (a, b) = 0 := by simpa [magnitude, zero] using hq
      simpa [quotient, hb.ne'] using hzero
    simp [ha, hz, nearest_zero, magnitude, zero, quotient]
  have hpos := quotient_pos hz h0
  have hlow : (2 : ℚ) ^ (-53 : Int) ≤ quotient (part, whole) := by
    have h1 : (1 : ℚ) ≤ part := by exact_mod_cast Nat.pos_of_ne_zero hz
    have h2 : (whole : ℚ) ≤ 2 ^ 53 := by exact_mod_cast hw.le
    have h3 : (2 : ℚ) ^ (-53 : Int) = 1 / 2 ^ 53 := by norm_num
    rw [h3, quotient, div_le_div_iff₀ (by norm_num) (Nat.cast_pos.mpr h0)]
    nlinarith
  have hlog : leastExponent + 52 ≤ Int.log 2 (quotient (part, whole)) :=
    (show leastExponent + 52 ≤ -53 by decide).trans
      ((Int.zpow_le_iff_le_log (by decide) hpos).mp (by exact_mod_cast hlow))
  obtain ⟨hfirst1, hfirst2⟩ := abs_le.mp (abs_magnitude_sub_le hz h0 hlog)
  have hproduct : quotient (part, whole) ≤ quotient (a, b) := by
    rw [hq]
    linarith
  have ha : a ≠ 0 := by
    rintro rfl
    simp only [quotient, Nat.cast_zero, zero_div] at hproduct hpos
    linarith
  have hlog' : leastExponent + 52 ≤ Int.log 2 (quotient (a, b)) :=
    hlog.trans (Int.log_mono_right hpos hproduct)
  obtain ⟨hsecond1, hsecond2⟩ := abs_le.mp (abs_magnitude_sub_le ha hb hlog')
  rw [hq] at hsecond1 hsecond2
  rw [abs_le]
  constructor <;> linarith

end Error

theorem log_two_hundredths {n : Nat} (hn : n ≠ 0) :
    Int.log 2 (quotient (n, 200)) =
      if 25 * 2 ^ n.log2 ≤ 16 * n then (n.log2 : Int) - 7 else n.log2 - 8 := by
  have hlow := two_zpow_log2_le hn
  have hhigh := lt_two_zpow_log2 n
  have hpos := quotient_pos hn (show 0 < 200 by decide)
  have hsplit : ∀ k : Int, (2 : ℚ) ^ ((n.log2 : Int) + k) = 2 ^ (n.log2 : Int) * 2 ^ k := fun k =>
    zpow_add₀ (by norm_num) _ _
  have hsub7 : (n.log2 : Int) - 7 = n.log2 + -7 := rfl
  have hsub8 : (n.log2 : Int) - 8 = n.log2 + -8 := rfl
  rw [hsplit] at hhigh
  rw [quotient, Nat.cast_ofNat] at hpos ⊢
  split
  · next h =>
    have h' : (25 : ℚ) * 2 ^ (n.log2 : Int) ≤ 16 * n := by exact_mod_cast h
    apply log_eq hpos
    · rw [hsub7, hsplit]
      norm_num at h' ⊢
      linarith
    · rw [hsub7, add_assoc, hsplit]
      norm_num at hhigh ⊢
      linarith
  · next h =>
    have h' : (16 : ℚ) * n < 25 * 2 ^ (n.log2 : Int) := by exact_mod_cast Nat.lt_of_not_le h
    apply log_eq hpos
    · rw [hsub8, hsplit]
      norm_num at hlow ⊢
      linarith
    · rw [hsub8, add_assoc, hsplit]
      norm_num at h' ⊢
      linarith

theorem place_two_hundredths {n : Nat} (h0 : n ≠ 0) :
    place (quotient (n, 200)) =
      if 25 * 2 ^ n.log2 ≤ 16 * n then (n.log2 : Int) - 59 else n.log2 - 60 := by
  rw [place, log_two_hundredths h0, leastExponent]
  split <;> omega

/-- What the first rounding takes off, in twenty-fifths of a unit: the remainder of an integer by
twenty-five, between `-12` and `12`. -/
theorem exists_remainder {n : Nat} (hn : n ≠ 0) {s : Int} (hs : s = place (quotient (n, 200)))
    (hs3 : s ≤ -3) :
    ∃ j : Int, |j| ≤ 12 ∧ ((n * twoTo (-(s + 3)).toNat : Nat) - j) % 25 = 0 ∧
      (nearest n 200).magnitude * 100 = n / 2 - 4 * j * 2 ^ s := by
  obtain ⟨m, hm, hx⟩ := exists_magnitude hn (show 0 < 200 by decide)
  rw [← hs] at hm hx
  have hpos := two_zpow_pos s
  have hunits := natCast_units n (show s + 3 ≤ 0 by omega)
  obtain ⟨N, hN⟩ : ∃ N, N = n * twoTo (-(s + 3)).toNat := ⟨_, rfl⟩
  have hNq : (N : ℚ) * 8 * 2 ^ s = n := by
    rw [hN, hunits, zpow_add₀ (by norm_num)]
    norm_num
    field_simp
  have hq : quotient (n, 200) / 2 ^ s = N / 25 := by
    rw [quotient, ← hNq]
    field_simp
    ring
  refine ⟨N - 25 * m, ?_, ?_, ?_⟩
  · have h25 : |((N - 25 * m : Int) : ℚ)| ≤ 25 / 2 := by
      have hsplit : ((N - 25 * m : Int) : ℚ) = -25 * (m - N / 25) := by
        push_cast
        ring
      rw [hq] at hm
      rw [hsplit, abs_mul]
      norm_num
      linarith
    rw [← Int.cast_abs] at h25
    have hlt : ((|(N - 25 * m : Int)| : Int) : ℚ) < (13 : Int) := h25.trans_lt (by norm_num)
    have hnat : |(N - 25 * m : Int)| < 13 := by exact_mod_cast hlt
    omega
  · rw [← hN]
    omega
  · rw [hx, ← hNq]
    push_cast
    ring

theorem half_eq_units {n : Nat} (h51 : n.log2 ≤ 51) :
    (n / 2 : ℚ) = (2 * (n * twoTo (51 - n.log2)) : Nat) * 2 ^ ((n.log2 : Int) - 53) := by
  have hunits := natCast_units n (show (n.log2 : Int) - 51 ≤ 0 by omega)
  have hexp : (-((n.log2 : Int) - 51)).toNat = 51 - n.log2 := by omega
  have hsplit : (n.log2 : Int) - 51 = n.log2 - 53 + 2 := by omega
  rw [hexp, hsplit, zpow_add₀ (by norm_num)] at hunits
  rw [Nat.cast_mul, hunits]
  norm_num
  field_simp
  norm_num

theorem two_pow_log2_lt {n : Nat} (hodd : n % 2 = 1) (h1 : 1 < n) : 2 ^ n.log2 + 1 ≤ n := by
  have hself := Nat.log2_self_le (show n ≠ 0 by omega)
  have hne : 2 ^ n.log2 ≠ n := by
    intro he
    have hlog : n.log2 ≠ 0 := by
      intro hz
      rw [hz] at he
      omega
    have heven : 2 ^ n.log2 % 2 = 0 := Nat.mod_eq_zero_of_dvd (dvd_pow_self 2 hlog)
    omega
  omega

theorem place_below_half {n : Nat} (h51 : n.log2 ≤ 51) (hodd : n % 2 = 1) (h1 : 1 < n) {d : ℚ}
    (h0 : 0 < d) (hd : d ≤ 2 ^ ((n.log2 : Int) - 53)) :
    0 < n / 2 - d ∧ place (n / 2 - d) = n.log2 - 53 := by
  have hunit : (2 : ℚ) ^ ((n.log2 : Int) - 53) ≤ 2 ^ (-2 : Int) :=
    zpow_le_zpow_right₀ (by norm_num) (by omega)
  have hquarter : (2 : ℚ) ^ (-2 : Int) = 1 / 4 := by norm_num
  have hlow : (2 : ℚ) ^ (n.log2 : Int) + 1 ≤ n := by exact_mod_cast two_pow_log2_lt hodd h1
  have hhigh := lt_two_zpow_log2 n
  have hpos := two_zpow_pos (n.log2 : Int)
  rw [hquarter] at hunit
  rw [zpow_add_one₀ (by norm_num)] at hhigh
  have hq : (0 : ℚ) < n / 2 - d := by linarith
  have hlog : Int.log 2 (n / 2 - d : ℚ) = (n.log2 : Int) - 1 := by
    apply log_eq hq
    · rw [zpow_sub_one₀ (by norm_num)]
      linarith
    · rw [sub_add_cancel]
      linarith
  refine ⟨hq, ?_⟩
  rw [place, hlog, leastExponent]
  omega

/-- Rounding reaches an even integer from half a unit below it, but from no further. -/
theorem even_le_iff {k m : Nat} {r : ℚ} (h : |(m : ℚ) - ((2 * k : Nat) - r)| ≤ 1 / 2)
    (hodd : m % 2 = 1 → |(m : ℚ) - ((2 * k : Nat) - r)| < 1 / 2) : 2 * k ≤ m ↔ r ≤ 1 / 2 := by
  obtain ⟨hl, hu⟩ := abs_le.mp h
  constructor
  · intro hle
    have hcast : ((2 * k : Nat) : ℚ) ≤ m := by exact_mod_cast hle
    linarith
  · intro hr
    by_contra hlt
    have hcast : (m : ℚ) + 1 ≤ (2 * k : Nat) := by exact_mod_cast Nat.lt_of_not_le hlt
    have hge : ((2 * k : Nat) : ℚ) ≤ (m + 1 : Nat) := by
      push_cast at hl ⊢
      linarith
    have hnat : 2 * k ≤ m + 1 := by exact_mod_cast hge
    have hstrict := (abs_lt.mp (hodd (by omega))).1
    linarith

theorem half_le_magnitude {n a b : Nat} (hn : n < 2 ^ 52) (hb : 0 < b)
    (h : (n / 2 : ℚ) ≤ quotient (a, b)) : (n / 2 : ℚ) ≤ (nearest a b).magnitude := by
  have hhalf : (n / 2 : ℚ) = n * 2 ^ (-1 : Int) := by rw [zpow_neg_one, div_eq_mul_inv]
  rw [hhalf] at h ⊢
  exact mul_zpow_le_magnitude_nearest (hn.trans (by decide)) (by decide) hb h

/-- A quotient that misses a half by a unit at most is rounded to it if it misses it by half a unit
at most. -/
theorem half_le_magnitude_iff {n a b : Nat} (hn : n < 2 ^ 52) (hodd : n % 2 = 1) (h1 : 1 < n)
    (hb : 0 < b) {d : ℚ} (hd : d ≤ 2 ^ ((n.log2 : Int) - 53)) (h : quotient (a, b) = n / 2 - d) :
    (n / 2 : ℚ) ≤ (nearest a b).magnitude ↔ d ≤ 2 ^ ((n.log2 : Int) - 53) / 2 := by
  have hunit := two_zpow_pos ((n.log2 : Int) - 53)
  by_cases h0 : d ≤ 0
  · exact iff_of_true (half_le_magnitude hn hb (by linarith)) (by linarith)
  have h51 : n.log2 ≤ 51 := Nat.lt_succ_iff.mp ((Nat.log2_lt (by omega)).mpr hn)
  obtain ⟨hpos, hplace⟩ := place_below_half h51 hodd h1 (lt_of_not_ge h0) hd
  rw [← h] at hpos hplace
  have ha : a ≠ 0 := by
    rintro rfl
    simp [quotient] at hpos
  obtain ⟨m, hm, hmodd, hx⟩ := exists_mantissa ha hb
  have hunits : quotient (a, b) / 2 ^ ((n.log2 : Int) - 53) =
      (2 * (n * twoTo (51 - n.log2)) : Nat) - d / 2 ^ ((n.log2 : Int) - 53) := by
    rw [h, half_eq_units h51, sub_div, mul_div_cancel_right₀ _ hunit.ne']
  rw [hplace, hunits] at hm hmodd
  rw [hx, hplace, magnitude_carried, half_eq_units h51, mul_le_mul_iff_left₀ hunit, Nat.cast_le,
    even_le_iff hm hmodd, div_le_iff₀ hunit, one_div_mul_eq_div]

/-- Whether `n / 2` is missed by a hundred times `n / 200`. The mantissa of `n / 200` ends in a
twenty-fifth part of `n * 2 ^ (56 - n.log2)`; if more than eight and less than half of twenty-five
twenty-fifths are taken off there, and the product has only six binary digits more before the point,
it is nearer to a number below the half. -/
def FallsShort (n : Nat) : Prop :=
  n % 2 = 1 ∧ 25 * 2 ^ n.log2 ≤ 16 * n ∧ 8 < n * 2 ^ (56 - n.log2) % 25 ∧
    n * 2 ^ (56 - n.log2) % 25 ≤ 12

instance (n : Nat) : Decidable (FallsShort n) := by
  unfold FallsShort
  infer_instance

theorem fallsShort_iff {n : Nat} (hodd : n % 2 = 1) {j : Int} (hj : |j| ≤ 12)
    (hmod : ((n * 2 ^ (56 - n.log2) : Nat) - j) % 25 = 0) :
    FallsShort n ↔ 25 * 2 ^ n.log2 ≤ 16 * n ∧ 8 < j := by
  obtain ⟨hl, hu⟩ := abs_le.mp hj
  rw [FallsShort]
  generalize n * 2 ^ (56 - n.log2) = N at hmod ⊢
  omega

theorem half_le_two_hundredths_iff {n : Nat} (hn : n < 2 ^ 52) (hodd : n % 2 = 1) :
    (n / 2 : ℚ) ≤ (hundredfold n 200).magnitude ↔ ¬ FallsShort n := by
  have h0 : n ≠ 0 := by omega
  have h51 : n.log2 ≤ 51 := Nat.lt_succ_iff.mp ((Nat.log2_lt h0).mpr hn)
  by_cases h1 : n = 1
  · subst h1
    have hreached : 0 < (hundredfold 1 200).rounded := by decide +kernel
    refine iff_of_true ?_ (by decide)
    simpa using lt_rounded_iff.mp hreached
  obtain ⟨a, b, hb, hq, hx⟩ := exists_product (hn.trans (by decide)) (show 200 < twoTo 53 by decide)
    (by decide)
  obtain ⟨s, hs⟩ : ∃ s, s = place (quotient (n, 200)) := ⟨_, rfl⟩
  have hplace := hs.trans (place_two_hundredths h0)
  have hs3 : s ≤ -3 := by
    rw [hplace]
    split <;> omega
  obtain ⟨j, hj, hmod, hproduct⟩ := exists_remainder h0 hs hs3
  rw [hproduct] at hq
  have hpos := two_zpow_pos s
  have hle : 4 * j * (2 : ℚ) ^ s ≤ 48 * 2 ^ s := by
    have h12 : (j : ℚ) ≤ 12 := by exact_mod_cast (abs_le.mp hj).2
    nlinarith
  rw [hx]
  by_cases hc : 25 * 2 ^ n.log2 ≤ 16 * n
  · -- a hundred times the number has six binary digits more before the point
    rw [if_pos hc] at hplace
    have hunit : (2 : ℚ) ^ ((n.log2 : Int) - 53) = 64 * 2 ^ s := by
      rw [show (n.log2 : Int) - 53 = 6 + s by omega, zpow_add₀ (by norm_num)]
      norm_num
    have hexp : (-(s + 3)).toNat = 56 - n.log2 := by omega
    have hscale : 4 * j * (2 : ℚ) ^ s ≤ 64 * 2 ^ s / 2 ↔ (j : ℚ) ≤ 8 := by
      constructor <;> intro _ <;> nlinarith
    rw [hexp] at hmod
    rw [half_le_magnitude_iff hn hodd (by omega) hb (by linarith) hq, hunit, hscale,
      fallsShort_iff hodd hj hmod, not_and, not_lt, forall_prop_of_true hc]
    exact_mod_cast Iff.rfl
  · -- it has seven more, and so twice the unit
    rw [if_neg hc] at hplace
    have hunit : (2 : ℚ) ^ ((n.log2 : Int) - 53) = 128 * 2 ^ s := by
      rw [show (n.log2 : Int) - 53 = 7 + s by omega, zpow_add₀ (by norm_num)]
      norm_num
    rw [half_le_magnitude_iff hn hodd (by omega) hb (by linarith) hq, hunit]
    exact iff_of_true (by linarith) fun hf => hc hf.2.1

theorem half_le_hundredfold_iff {part whole n : Nat} (hp : part < twoTo 53) (hw : whole < twoTo 53)
    (h0 : 0 < whole) (hn : n < 2 ^ 52) (hodd : n % 2 = 1) (h : 200 * part = n * whole) :
    (n / 2 : ℚ) ≤ (hundredfold part whole).magnitude ↔ ¬ FallsShort n := by
  have hq : quotient (part, whole) = quotient (n, 200) := by
    have hw' : (whole : ℚ) ≠ 0 := Nat.cast_ne_zero.mpr h0.ne'
    rw [quotient, quotient, div_eq_div_iff hw' (by norm_num)]
    exact_mod_cast (Nat.mul_comm ..).trans h
  rw [hundredfold_congr hp hw h0 (hn.trans (by decide)) (by decide) (by decide) hq]
  exact half_le_two_hundredths_iff hn hodd

/-- The quotient is an odd number of two hundredths, and its half is missed. -/
def MissesHalf (part whole : Nat) : Prop :=
  whole ∣ 200 * part ∧ FallsShort (200 * part / whole)

instance (part whole : Nat) : Decidable (MissesHalf part whole) := by
  unfold MissesHalf
  infer_instance

theorem missesHalf_iff {part whole : Nat} (h0 : 0 < whole) :
    MissesHalf part whole ↔ ∃ k, 200 * part = (2 * k + 1) * whole ∧ FallsShort (2 * k + 1) := by
  constructor
  · rintro ⟨hd, hf⟩
    have hodd : 2 * (200 * part / whole / 2) + 1 = 200 * part / whole := by
      have hmod := hf.1
      omega
    exact ⟨200 * part / whole / 2, by rw [hodd, Nat.div_mul_cancel hd], hodd.symm ▸ hf⟩
  · rintro ⟨k, hk, hf⟩
    refine ⟨Dvd.intro_left _ hk.symm, ?_⟩
    rw [hk, Nat.mul_div_cancel _ h0]
    exact hf

/-- No middle between two integers is very near to a hundred times the quotient. -/
def FarFromHalves (part whole : Nat) : Prop :=
  ∀ k : Nat, 202 * part < 2 ^ 52 * ((200 * part : Int) - (2 * k + 1) * whole).natAbs

section Rounded

variable {part whole : Nat} (hp : part < twoTo 53) (hw : whole < twoTo 53) (h0 : 0 < whole)

include hp hw h0

/-- An integer is passed by the product exactly if it should be, unless the half after it is near. -/
theorem lt_rounded_hundredfold_iff {k : Nat}
    (hfar : 202 * part < 2 ^ 52 * ((200 * part : Int) - (2 * k + 1) * whole).natAbs) :
    k < (hundredfold part whole).rounded ↔ k < roundUp (100 * part) whole := by
  have hw' : (0 : ℚ) < whole := Nat.cast_pos.mpr h0
  have hdistance : |100 * quotient (part, whole) - (2 * k + 1) / 2| =
      ((200 * part : Int) - (2 * k + 1) * whole).natAbs / (2 * whole) := by
    rw [Nat.cast_natAbs, ← abs_of_pos (show (0 : ℚ) < 2 * whole by linarith), Int.cast_abs, ← abs_div]
    congr 1
    rw [quotient]
    push_cast
    field_simp
    ring
  have hcast : (202 * part : ℚ) < 2 ^ 52 * ((200 * part : Int) - (2 * k + 1) * whole).natAbs := by
    exact_mod_cast hfar
  rw [lt_rounded_iff, lt_roundUp_iff h0, quotient_hundred_mul]
  apply le_iff_le_of_abs_sub_lt
  refine (abs_hundredfold_sub_le hp hw h0).trans_lt ?_
  rw [hdistance, quotient, lt_div_iff₀ (by linarith)]
  field_simp
  linarith

theorem rounded_of_far (h : FarFromHalves part whole) :
    (hundredfold part whole).rounded = roundUp (100 * part) whole :=
  eq_of_forall_lt_iff fun k => lt_rounded_hundredfold_iff hp hw h0 (h k)

theorem rounded_near (h : part ≤ whole) :
    (hundredfold part whole).rounded ≤ roundUp (100 * part) whole + 1 ∧
      roundUp (100 * part) whole ≤ (hundredfold part whole).rounded + 1 := by
  have hw' : (0 : ℚ) < whole := Nat.cast_pos.mpr h0
  have hone : quotient (part, whole) ≤ 1 := by
    rw [quotient, div_le_one hw']
    exact_mod_cast h
  obtain ⟨h1, h2⟩ := abs_le.mp (abs_hundredfold_sub_le hp hw h0)
  constructor
  · by_contra hlt
    have hreached := lt_rounded_iff.mp (Nat.lt_of_not_le hlt)
    have hnot := mt (lt_roundUp_iff h0).mpr (Nat.lt_irrefl (roundUp (100 * part) whole))
    rw [quotient_hundred_mul] at hnot
    push_cast at hreached
    linarith
  · by_contra hlt
    have hreached := (lt_roundUp_iff h0).mp (Nat.lt_of_not_le hlt)
    have hnot := mt lt_rounded_iff.mpr (Nat.lt_irrefl (hundredfold part whole).rounded)
    rw [quotient_hundred_mul] at hreached
    push_cast at hreached
    linarith

end Rounded

theorem roundUp_of_half {part whole k : Nat} (h0 : 0 < whole) (h : 200 * part = (2 * k + 1) * whole) :
    roundUp (100 * part) whole = k + 1 := by
  have hsum : 200 * part + whole = (k + 1) * (2 * whole) := by
    rw [h]
    ring
  rw [roundUp_hundred, hsum, Nat.mul_div_cancel _ (by omega)]

theorem lt_rounded_iff_of_le {part whole : Nat} (hp : part ≤ 2 ^ 44) (hw : whole < twoTo 53)
    (h0 : 0 < whole) (k : Nat) :
    k < (hundredfold part whole).rounded ↔ k < roundUp (100 * part) whole ∧
      ¬ (200 * part = (2 * k + 1) * whole ∧ FallsShort (2 * k + 1)) := by
  have hp53 : part < twoTo 53 := hp.trans_lt (by decide)
  by_cases htie : 200 * part = (2 * k + 1) * whole
  · have hn : 2 * k + 1 < 2 ^ 52 := by
      have hle := Nat.le_mul_of_pos_right (2 * k + 1) h0
      omega
    have hhalf := half_le_hundredfold_iff hp53 hw h0 hn (by omega) htie
    have hk : k < roundUp (100 * part) whole := by
      rw [roundUp_of_half h0 htie]
      exact Nat.lt_succ_self k
    push_cast at hhalf
    rw [lt_rounded_iff, hhalf]
    simp only [hk, htie, true_and]
  · have hne : ((200 * part : Int) - (2 * k + 1) * whole).natAbs ≠ 0 := by
      rw [Int.natAbs_ne_zero, sub_ne_zero]
      exact_mod_cast htie
    rw [lt_rounded_hundredfold_iff hp53 hw h0 (by omega)]
    simp only [htie, false_and, not_false_eq_true, and_true]

/-- The nearest integer to a hundred times a quotient, a half going up; one less where the half is
missed. -/
theorem rounded_hundredfold {part whole : Nat} (hp : part ≤ 2 ^ 44) (hw : whole < twoTo 53)
    (h0 : 0 < whole) :
    (hundredfold part whole).rounded =
      if MissesHalf part whole then roundUp (100 * part) whole - 1 else roundUp (100 * part) whole := by
  have hlt := lt_rounded_iff_of_le hp hw h0
  split
  · next hm =>
    obtain ⟨m, hm, hf⟩ := (missesHalf_iff h0).mp hm
    rw [roundUp_of_half h0 hm, Nat.add_sub_cancel]
    refine eq_of_forall_lt_iff fun k => ?_
    rw [hlt, roundUp_of_half h0 hm, hm]
    by_cases hk : k = m
    · subst hk
      simp [hf]
    · have hne : (2 * m + 1) * whole ≠ (2 * k + 1) * whole := by
        intro he
        have heq := Nat.eq_of_mul_eq_mul_right h0 he
        omega
      simp only [hne, false_and, not_false_eq_true, and_true]
      omega
  · next hm =>
    rw [missesHalf_iff h0, not_exists] at hm
    exact eq_of_forall_lt_iff fun k => by rw [hlt, and_iff_left (hm k)]

end MarkupNesting.Binary64
