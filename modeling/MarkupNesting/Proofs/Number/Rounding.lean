import Mathlib
import MarkupNesting.Number.Binary64

/-! What rounding to binary64 makes of a quotient. It depends on the quotient alone, stays within
half a unit in the last binary place, and never crosses a natural number that is itself a binary64
number. -/

namespace MarkupNesting.Binary64

def quotient (r : Nat × Nat) : ℚ := r.1 / r.2

def magnitude (x : Binary64) : ℚ := x.mantissa * 2 ^ x.exponent

theorem two_zpow_of_nonneg {e : Int} (h : 0 ≤ e) : (2 : ℚ) ^ e = (twoTo e.toNat : Nat) := by
  obtain ⟨n, rfl⟩ := Int.eq_ofNat_of_zero_le h
  simp

theorem two_zpow_of_neg {e : Int} (h : ¬ 0 ≤ e) :
    (2 : ℚ) ^ e = ((twoTo (-e).toNat : Nat) : ℚ)⁻¹ := by
  rw [← two_zpow_of_nonneg (by omega), zpow_neg, inv_inv]

theorem two_zpow_pos (e : Int) : (0 : ℚ) < 2 ^ e := zpow_pos (by norm_num) e

theorem ratio_snd_pos (x : Binary64) : 0 < x.ratio.2 := by
  rw [ratio]
  split
  · exact Nat.one_pos
  · exact Nat.two_pow_pos _

theorem quotient_ratio (x : Binary64) : quotient x.ratio = x.magnitude := by
  rw [ratio, magnitude]
  split
  · next h => simp [quotient, two_zpow_of_nonneg h]
  · next h => rw [two_zpow_of_neg h, quotient, div_eq_mul_inv]

theorem scaled_snd_pos (num : Nat) {den : Nat} (h : 0 < den) (e : Int) :
    0 < (scaled num den e).2 := by
  rw [scaled]
  split
  · exact Nat.mul_pos h (Nat.two_pow_pos _)
  · exact h

theorem quotient_scaled (num den : Nat) (e : Int) :
    quotient (scaled num den e) = num / den / 2 ^ e := by
  rw [scaled]
  split
  · next h => rw [two_zpow_of_nonneg h, quotient, Nat.cast_mul, div_mul_eq_div_div]
  · next h =>
    rw [two_zpow_of_neg h, quotient, Nat.cast_mul, div_inv_eq_mul, div_mul_eq_mul_div]

theorem roundEven_mul (a b : Nat) {c : Nat} (h : 0 < c) :
    roundEven (a * c) (b * c) = roundEven a b := by
  have h1 : 2 * (a % b * c) < b * c ↔ 2 * (a % b) < b := by
    rw [← Nat.mul_assoc]
    exact Nat.mul_lt_mul_right h
  have h2 : b * c < 2 * (a % b * c) ↔ b < 2 * (a % b) := by
    rw [← Nat.mul_assoc]
    exact Nat.mul_lt_mul_right h
  simp only [roundEven, Nat.mul_div_mul_right a b h, Nat.mul_mod_mul_right, h1, h2]

theorem cross_mul_of_quotient_eq {a b c d : Nat} (hb : 0 < b) (hd : 0 < d)
    (h : quotient (a, b) = quotient (c, d)) : a * d = c * b := by
  have hb' : (b : ℚ) ≠ 0 := Nat.cast_ne_zero.mpr hb.ne'
  have hd' : (d : ℚ) ≠ 0 := Nat.cast_ne_zero.mpr hd.ne'
  exact_mod_cast (div_eq_div_iff hb' hd').mp h

theorem roundEven_congr {a b c d : Nat} (hb : 0 < b) (hd : 0 < d)
    (h : quotient (a, b) = quotient (c, d)) : roundEven a b = roundEven c d := by
  rw [← roundEven_mul a b hd, cross_mul_of_quotient_eq hb hd h, Nat.mul_comm b d,
    roundEven_mul c d hb]

theorem abs_roundEven_sub (a : Nat) {b : Nat} (hb : 0 < b) :
    |(roundEven a b : ℚ) - quotient (a, b)| ≤ 1 / 2 := by
  have hb' : (0 : ℚ) < b := Nat.cast_pos.mpr hb
  obtain ⟨h1, h2⟩ := roundEven_near a b hb
  have h1' : (2 * a : ℚ) ≤ 2 * (roundEven a b * b) + b := by exact_mod_cast h1
  have h2' : (2 * (roundEven a b * b) : ℚ) ≤ 2 * a + b := by exact_mod_cast h2
  rw [quotient, abs_le]
  constructor
  · rw [neg_le_sub_iff_le_add, div_le_iff₀ hb']
    linarith
  · rw [sub_le_iff_le_add, ← sub_le_iff_le_add', le_div_iff₀ hb']
    linarith

/-- An odd integer is nearer than half a unit. -/
theorem abs_roundEven_sub_lt {a b : Nat} (hb : 0 < b) (h : roundEven a b % 2 = 1) :
    |(roundEven a b : ℚ) - quotient (a, b)| < 1 / 2 := by
  have hb' : (0 : ℚ) < b := Nat.cast_pos.mpr hb
  have hq := Nat.div_add_mod a b
  have hm : b * (a / b) = a / b * b := Nat.mul_comm ..
  have hnear : 2 * a < 2 * (roundEven a b * b) + b ∧ 2 * (roundEven a b * b) < 2 * a + b := by
    simp only [roundEven] at h ⊢
    split
    · omega
    · split
      · have hr := Nat.mod_lt a hb
        rw [Nat.add_mul]
        omega
      · rw [if_neg ‹_›, if_neg ‹_›] at h
        omega
  have h1 : (2 * a : ℚ) < 2 * (roundEven a b * b) + b := by exact_mod_cast hnear.1
  have h2 : (2 * (roundEven a b * b) : ℚ) < 2 * a + b := by exact_mod_cast hnear.2
  rw [quotient, abs_lt]
  constructor
  · rw [neg_lt_sub_iff_lt_add, div_lt_iff₀ hb']
    linarith
  · rw [sub_lt_iff_lt_add, ← sub_lt_iff_lt_add', lt_div_iff₀ hb']
    linarith

theorem log_eq {q : ℚ} (hq : 0 < q) {z : Int} (h1 : (2 : ℚ) ^ z ≤ q) (h2 : q < 2 ^ (z + 1)) :
    Int.log 2 q = z := by
  have hl : z ≤ Int.log 2 q := (Int.zpow_le_iff_le_log (by decide) hq).mp (by exact_mod_cast h1)
  have hu : Int.log 2 q < z + 1 := (Int.lt_zpow_iff_log_lt (by decide) hq).mp (by exact_mod_cast h2)
  omega

theorem two_zpow_log_le {q : ℚ} (hq : 0 < q) : (2 : ℚ) ^ Int.log 2 q ≤ q := by
  exact_mod_cast Int.zpow_log_le_self (b := 2) (by decide) hq

theorem lt_two_zpow_succ_log (q : ℚ) : q < (2 : ℚ) ^ (Int.log 2 q + 1) := by
  exact_mod_cast Int.lt_zpow_succ_log_self (b := 2) (by decide) q

theorem two_zpow_log2_le {n : Nat} (h : n ≠ 0) : (2 : ℚ) ^ (n.log2 : Int) ≤ n := by
  rw [zpow_natCast]
  exact_mod_cast Nat.log2_self_le h

theorem lt_two_zpow_log2 (n : Nat) : (n : ℚ) < 2 ^ ((n.log2 : Int) + 1) := by
  have h : n < 2 ^ (n.log2 + 1) := Nat.lt_log2_self
  exact_mod_cast h

/-- The difference of the lengths is the binary logarithm of a quotient, or one more. -/
theorem exponentOf_eq {num den : Nat} (hn : num ≠ 0) (hd : 0 < den) :
    exponentOf num den = max (Int.log 2 (num / den : ℚ) - 52) leastExponent := by
  have hn' : (0 : ℚ) < num := Nat.cast_pos.mpr (Nat.pos_of_ne_zero hn)
  have hd' : (0 : ℚ) < den := Nat.cast_pos.mpr hd
  have hq : (0 : ℚ) < num / den := div_pos hn' hd'
  obtain ⟨z, hz⟩ : ∃ z : Int, z = num.log2 - den.log2 := ⟨_, rfl⟩
  have hlow : (2 : ℚ) ^ (z - 1) < num / den := by
    rw [lt_div_iff₀ hd']
    calc (2 : ℚ) ^ (z - 1) * den < 2 ^ (z - 1) * 2 ^ ((den.log2 : Int) + 1) :=
          mul_lt_mul_of_pos_left (lt_two_zpow_log2 den) (two_zpow_pos _)
      _ = 2 ^ (num.log2 : Int) := by rw [← zpow_add₀ (by norm_num)]; congr 1; omega
      _ ≤ num := two_zpow_log2_le hn
  have hhigh : (num / den : ℚ) < 2 ^ (z + 1) := by
    rw [div_lt_iff₀ hd']
    calc (num : ℚ) < 2 ^ ((num.log2 : Int) + 1) := lt_two_zpow_log2 num
      _ = 2 ^ (z + 1) * 2 ^ (den.log2 : Int) := by rw [← zpow_add₀ (by norm_num)]; congr 1; omega
      _ ≤ 2 ^ (z + 1) * den := mul_le_mul_of_nonneg_left (two_zpow_log2_le hd.ne') (two_zpow_pos _).le
  have hpos : (0 : ℚ) < (scaled num den (z - 52)).2 := Nat.cast_pos.mpr (scaled_snd_pos num hd _)
  have htest : (scaled num den (z - 52)).1 / (scaled num den (z - 52)).2 < twoTo 52 ↔
      (num / den : ℚ) < 2 ^ z := by
    have hsplit : (2 : ℚ) ^ z = (twoTo 52 : Nat) * 2 ^ (z - 52) := by
      have h52 : ((twoTo 52 : Nat) : ℚ) = 2 ^ (52 : Int) := by norm_num
      rw [h52, ← zpow_add₀ (by norm_num), add_sub_cancel]
    rw [Nat.div_lt_iff_lt_mul (scaled_snd_pos num hd _), hsplit, ← div_lt_iff₀ (two_zpow_pos _),
      ← quotient_scaled, quotient, div_lt_iff₀ hpos]
    exact_mod_cast Iff.rfl
  have he : exponentOf num den =
      max (if (num / den : ℚ) < 2 ^ z then z - 52 - 1 else z - 52) leastExponent := by
    simp only [exponentOf, ← hz, htest]
  rw [he]
  congr 1
  split
  · next h => rw [log_eq hq hlow.le (by rwa [sub_add_cancel])]; omega
  · next h => rw [log_eq hq (not_lt.mp h) hhigh]

/-- The exponent at which a positive quotient is rounded to an integer. -/
def place (q : ℚ) : Int := max (Int.log 2 q - 52) leastExponent

theorem quotient_pos {num den : Nat} (hn : num ≠ 0) (hd : 0 < den) : 0 < quotient (num, den) :=
  div_pos (Nat.cast_pos.mpr (Nat.pos_of_ne_zero hn)) (Nat.cast_pos.mpr hd)

/-- The mantissa of the nearest number, before it is brought back to 53 digits. -/
theorem exists_mantissa {num den : Nat} (hn : num ≠ 0) (hd : 0 < den) :
    ∃ m : Nat, |(m : ℚ) - quotient (num, den) / 2 ^ place (quotient (num, den))| ≤ 1 / 2 ∧
      (m % 2 = 1 → |(m : ℚ) - quotient (num, den) / 2 ^ place (quotient (num, den))| < 1 / 2) ∧
      nearest num den = if m = twoTo 53 then ⟨false, twoTo 52, place (quotient (num, den)) + 1⟩
        else ⟨false, m, place (quotient (num, den))⟩ := by
  have he : exponentOf num den = place (quotient (num, den)) := exponentOf_eq hn hd
  have hpos := scaled_snd_pos num hd (exponentOf num den)
  have hq : quotient (scaled num den (exponentOf num den)) =
      quotient (num, den) / 2 ^ place (quotient (num, den)) := by
    rw [quotient_scaled, he, quotient]
  refine ⟨roundEven (scaled num den (exponentOf num den)).1 (scaled num den (exponentOf num den)).2,
    hq ▸ abs_roundEven_sub _ hpos, fun h => hq ▸ abs_roundEven_sub_lt hpos h, ?_⟩
  rw [nearest, if_neg hn]
  simp only [he]

theorem nearest_zero (den : Nat) : nearest 0 den = zero := if_pos rfl

theorem negative_nearest (num den : Nat) : (nearest num den).negative = false := by
  simp only [nearest]
  split
  · rfl
  · split <;> rfl

/-- The nearest number depends on the quotient alone. -/
theorem nearest_congr {a b c d : Nat} (hb : 0 < b) (hd : 0 < d)
    (h : quotient (a, b) = quotient (c, d)) : nearest a b = nearest c d := by
  have hcross := cross_mul_of_quotient_eq hb hd h
  by_cases ha : a = 0
  · have hc : c = 0 := by
      rw [ha, Nat.zero_mul] at hcross
      exact (Nat.mul_eq_zero.mp hcross.symm).resolve_right hb.ne'
    rw [ha, hc, nearest_zero, nearest_zero]
  · have hc : c ≠ 0 := by
      rintro rfl
      rw [Nat.zero_mul] at hcross
      exact (Nat.mul_eq_zero.mp hcross).elim ha hd.ne'
    have he : exponentOf a b = exponentOf c d := by
      have h' : (a / b : ℚ) = c / d := h
      rw [exponentOf_eq ha hb, exponentOf_eq hc hd, h']
    have hm : roundEven (scaled a b (exponentOf c d)).1 (scaled a b (exponentOf c d)).2 =
        roundEven (scaled c d (exponentOf c d)).1 (scaled c d (exponentOf c d)).2 := by
      apply roundEven_congr (scaled_snd_pos a hb _) (scaled_snd_pos c hd _)
      have h' : (a / b : ℚ) = c / d := h
      rw [Prod.mk.eta, Prod.mk.eta, quotient_scaled, quotient_scaled, h']
    simp only [nearest, if_neg ha, if_neg hc, he, hm]

/-- Bringing a mantissa of 54 digits back to 53 does not change the number. -/
theorem magnitude_carried (m : Nat) (p : Int) :
    (if m = twoTo 53 then (⟨false, twoTo 52, p + 1⟩ : Binary64) else ⟨false, m, p⟩).magnitude =
      m * 2 ^ p := by
  split
  · next h =>
    have h53 : (m : ℚ) = 2 ^ (52 : Int) * 2 := by rw [h]; norm_num
    have h52 : ((twoTo 52 : Nat) : ℚ) = 2 ^ (52 : Int) := by norm_num
    rw [magnitude, h53, h52, zpow_add_one₀ (by norm_num), mul_assoc, mul_comm (2 : ℚ)]
  · rfl

theorem exists_magnitude {num den : Nat} (hn : num ≠ 0) (hd : 0 < den) :
    ∃ m : Nat, |(m : ℚ) - quotient (num, den) / 2 ^ place (quotient (num, den))| ≤ 1 / 2 ∧
      (nearest num den).magnitude = m * 2 ^ place (quotient (num, den)) := by
  obtain ⟨m, hm, -, he⟩ := exists_mantissa hn hd
  exact ⟨m, hm, he ▸ magnitude_carried m _⟩

theorem abs_magnitude_sub {num den : Nat} (hn : num ≠ 0) (hd : 0 < den) :
    |(nearest num den).magnitude - quotient (num, den)| ≤ 2 ^ place (quotient (num, den)) / 2 := by
  obtain ⟨m, hm, he⟩ := exists_magnitude hn hd
  have hp := two_zpow_pos (place (quotient (num, den)))
  have hsplit : (m : ℚ) * 2 ^ place (quotient (num, den)) - quotient (num, den) =
      (m - quotient (num, den) / 2 ^ place (quotient (num, den))) *
        2 ^ place (quotient (num, den)) := by
    rw [sub_mul, div_mul_cancel₀ _ hp.ne']
  rw [he, hsplit, abs_mul, abs_of_pos hp]
  linarith [mul_le_mul_of_nonneg_right hm hp.le]

/-- Far from zero a quotient and the nearest number differ by a small part of the quotient. -/
theorem abs_magnitude_sub_le {num den : Nat} (hn : num ≠ 0) (hd : 0 < den)
    (h : leastExponent + 52 ≤ Int.log 2 (quotient (num, den))) :
    |(nearest num den).magnitude - quotient (num, den)| ≤ quotient (num, den) / 2 ^ 53 := by
  have hnear := abs_magnitude_sub hn hd
  have hplace : place (quotient (num, den)) = Int.log 2 (quotient (num, den)) - 52 := by
    rw [place]
    omega
  have hlow := two_zpow_log_le (quotient_pos hn hd)
  have h52 : (2 : ℚ) ^ (52 : Int) = 2 ^ 52 := by norm_num
  rw [hplace, zpow_sub₀ (by norm_num), h52] at hnear
  calc |(nearest num den).magnitude - quotient (num, den)|
      ≤ 2 ^ Int.log 2 (quotient (num, den)) / 2 ^ 52 / 2 := hnear
    _ ≤ quotient (num, den) / 2 ^ 52 / 2 := by gcongr
    _ = quotient (num, den) / 2 ^ 53 := by ring

theorem natCast_mul_units (n : Nat) {e p : Int} (h : p ≤ e) :
    ((n * twoTo (e - p).toNat : Nat) : ℚ) = n * 2 ^ e / 2 ^ p := by
  rw [Nat.cast_mul, ← two_zpow_of_nonneg (by omega), zpow_sub₀ (by norm_num), mul_div_assoc]

theorem natCast_units (n : Nat) {e : Int} (h : e ≤ 0) :
    ((n * twoTo (-e).toNat : Nat) : ℚ) = n / 2 ^ e := by
  simpa using natCast_mul_units n h

/-- A number with at most 53 binary digits that is no greater than a quotient is no greater than the
number nearest to that. -/
theorem mul_zpow_le_magnitude_nearest {n num den : Nat} {e : Int} (h53 : n < twoTo 53)
    (he : leastExponent ≤ e) (hd : 0 < den) (h : (n * 2 ^ e : ℚ) ≤ quotient (num, den)) :
    (n * 2 ^ e : ℚ) ≤ (nearest num den).magnitude := by
  by_cases hn : num = 0
  · have h0 : (n * 2 ^ e : ℚ) ≤ 0 := by simpa [hn, quotient] using h
    rw [hn, nearest_zero, magnitude, zero]
    simpa using h0
  obtain ⟨m, hm, hx⟩ := exists_magnitude hn hd
  obtain ⟨p, hp⟩ : ∃ p, p = place (quotient (num, den)) := ⟨_, rfl⟩
  rw [← hp] at hm hx
  have hpos := two_zpow_pos p
  have hm' := abs_le.mp hm
  rw [hx]
  by_cases hle : p ≤ e
  · -- the number is a whole number of units
    have hunits := natCast_mul_units n hle
    have hscaled : (n * 2 ^ e / 2 ^ p : ℚ) ≤ quotient (num, den) / 2 ^ p := by gcongr
    have hlt : ((n * twoTo (e - p).toNat : Nat) : ℚ) < m + 1 := by rw [hunits]; linarith
    have hnat : n * twoTo (e - p).toNat ≤ m := Nat.lt_succ_iff.mp (by exact_mod_cast hlt)
    have hcast : (n * 2 ^ e / 2 ^ p : ℚ) ≤ m := by rw [← hunits]; exact_mod_cast hnat
    exact (div_le_iff₀ hpos).mp hcast
  · -- the quotient has more digits before that place
    have hlog : Int.log 2 (quotient (num, den)) = p + 52 := by
      rw [place] at hp
      omega
    have hlow := two_zpow_log_le (quotient_pos hn hd)
    rw [hlog, zpow_add₀ (by norm_num), mul_comm, ← le_div_iff₀ hpos] at hlow
    have hlt : ((twoTo 52 : Nat) : ℚ) < m + 1 := by
      have h52 : ((twoTo 52 : Nat) : ℚ) = 2 ^ (52 : Int) := by norm_num
      linarith
    have hnat : twoTo 52 ≤ m := Nat.lt_succ_iff.mp (by exact_mod_cast hlt)
    have hunit : (2 : ℚ) ^ (e + 1) ≤ 2 ^ p := zpow_le_zpow_right₀ (by norm_num) (by omega)
    calc (n * 2 ^ e : ℚ) ≤ (twoTo 52 * 2 : Nat) * 2 ^ e :=
          mul_le_mul_of_nonneg_right (by exact_mod_cast h53.le) (two_zpow_pos e).le
      _ = (twoTo 52 : Nat) * 2 ^ (e + 1) := by
          rw [zpow_add_one₀ (by norm_num)]
          push_cast
          ring
      _ ≤ m * 2 ^ p := by gcongr

theorem le_magnitude_nearest {n num den : Nat} (h53 : n < twoTo 53) (hd : 0 < den)
    (h : (n : ℚ) ≤ quotient (num, den)) : (n : ℚ) ≤ (nearest num den).magnitude := by
  have h0 : (n : ℚ) * 2 ^ (0 : Int) = n := by rw [zpow_zero, mul_one]
  rw [← h0] at h ⊢
  exact mul_zpow_le_magnitude_nearest h53 (by decide) hd h

theorem magnitude_nearest_le {n num den : Nat} (h53 : n < twoTo 53) (hd : 0 < den)
    (h : quotient (num, den) ≤ n) : (nearest num den).magnitude ≤ n := by
  by_cases hn : num = 0
  · rw [hn, nearest_zero, magnitude, zero]
    simp
  obtain ⟨m, hm, he⟩ := exists_magnitude hn hd
  obtain ⟨e, hp⟩ : ∃ e, e = place (quotient (num, den)) := ⟨_, rfl⟩
  rw [← hp] at hm he
  have hpos := two_zpow_pos e
  have hm' := abs_le.mp hm
  have hneg : e ≤ 0 := by
    have hlt : quotient (num, den) < 2 ^ (53 : Int) := by
      have hlt53 : (n : ℚ) < (twoTo 53 : Nat) := by exact_mod_cast h53
      have h2 : ((twoTo 53 : Nat) : ℚ) = 2 ^ (53 : Int) := by norm_num
      linarith
    have hlog : Int.log 2 (quotient (num, den)) < 53 :=
      (Int.lt_zpow_iff_log_lt (by decide) (quotient_pos hn hd)).mp (by exact_mod_cast hlt)
    rw [place, leastExponent] at hp
    omega
  have hunits := natCast_units n hneg
  have hle : quotient (num, den) / 2 ^ e ≤ (n / 2 ^ e : ℚ) := by gcongr
  have hlt : (m : ℚ) < ((n * twoTo (-e).toNat : Nat) : ℚ) + 1 := by rw [hunits]; linarith
  have hnat : m ≤ n * twoTo (-e).toNat := Nat.lt_succ_iff.mp (by exact_mod_cast hlt)
  have hcast : (m : ℚ) ≤ n / 2 ^ e := by rw [← hunits]; exact_mod_cast hnat
  rw [he]
  exact (le_div_iff₀ hpos).mp hcast

theorem quotient_one (n : Nat) : quotient (n, 1) = n := by simp [quotient]

/-- A natural number with at most 53 binary digits is a binary64 number. -/
theorem magnitude_ofNat {n : Nat} (h : n < twoTo 53) : (ofNat n).magnitude = n :=
  le_antisymm (magnitude_nearest_le h Nat.one_pos (quotient_one n).le)
    (le_magnitude_nearest h Nat.one_pos (quotient_one n).ge)

/-- A product is rounded once. -/
theorem magnitude_mul (x y : Binary64) : ∃ a b, 0 < b ∧
    quotient (a, b) = x.magnitude * y.magnitude ∧ (x.mul y).magnitude = (nearest a b).magnitude := by
  refine ⟨x.ratio.1 * y.ratio.1, x.ratio.2 * y.ratio.2,
    Nat.mul_pos (ratio_snd_pos x) (ratio_snd_pos y), ?_, rfl⟩
  rw [← quotient_ratio x, ← quotient_ratio y]
  simp only [quotient, Nat.cast_mul, div_mul_div_comm]

theorem ratio_fst_pos {y : Binary64} (h : y.magnitude ≠ 0) : 0 < y.ratio.1 := by
  apply Nat.pos_of_ne_zero
  intro h0
  apply h
  rw [← quotient_ratio, quotient, h0, Nat.cast_zero, zero_div]

theorem magnitude_div (x : Binary64) {y : Binary64} (h : y.magnitude ≠ 0) : ∃ a b, 0 < b ∧
    quotient (a, b) = x.magnitude / y.magnitude ∧ (x.div y).magnitude = (nearest a b).magnitude := by
  refine ⟨x.ratio.1 * y.ratio.2, x.ratio.2 * y.ratio.1,
    Nat.mul_pos (ratio_snd_pos x) (ratio_fst_pos h), ?_, rfl⟩
  rw [← quotient_ratio x, ← quotient_ratio y]
  simp only [quotient, Nat.cast_mul, div_div_div_eq]

theorem negative_ofNat (n : Nat) : (ofNat n).negative = false := negative_nearest n 1

/-- The quotient of two natural numbers is rounded once, if both are binary64 numbers. -/
theorem div_ofNat {s t : Nat} (hs : s < twoTo 53) (ht : t < twoTo 53) (h0 : 0 < t) :
    (ofNat s).div (ofNat t) = nearest s t := by
  have hm : (ofNat t).magnitude ≠ 0 := by
    rw [magnitude_ofNat ht]
    exact Nat.cast_ne_zero.mpr h0.ne'
  have hq : quotient ((ofNat s).ratio.1 * (ofNat t).ratio.2, (ofNat s).ratio.2 * (ofNat t).ratio.1) =
      quotient (s, t) := by
    have h1 := quotient_ratio (ofNat s)
    have h2 := quotient_ratio (ofNat t)
    rw [magnitude_ofNat hs, quotient] at h1
    rw [magnitude_ofNat ht, quotient] at h2
    simp only [quotient, Nat.cast_mul, ← div_div_div_eq, h1, h2]
  have hn := nearest_congr (Nat.mul_pos (ratio_snd_pos _) (ratio_fst_pos hm)) h0 hq
  simp only [div, negative_ofNat, hn, bne_self_eq_false]
  exact (congrArg (fun b => ({ nearest s t with negative := b } : Binary64))
    (negative_nearest s t).symm)

theorem lt_roundUp_iff {a b k : Nat} (hb : 0 < b) :
    k < roundUp a b ↔ (2 * k + 1 : ℚ) / 2 ≤ quotient (a, b) := by
  have hb' : (0 : ℚ) < b := Nat.cast_pos.mpr hb
  have hnat : k < roundUp a b ↔ (2 * k + 1) * b ≤ a * 2 := by
    rw [roundUp, ← Nat.succ_le_iff, Nat.le_div_iff_mul_le (by omega)]
    have hsplit : k.succ * (2 * b) = (2 * k + 1) * b + b := by
      rw [Nat.succ_eq_add_one]
      ring
    omega
  rw [hnat, quotient, le_div_iff₀ hb', div_mul_eq_mul_div, div_le_iff₀ (by norm_num)]
  exact_mod_cast Iff.rfl

theorem lt_rounded_iff {x : Binary64} {k : Nat} :
    k < x.rounded ↔ (2 * k + 1 : ℚ) / 2 ≤ x.magnitude := by
  rw [← quotient_ratio]
  exact lt_roundUp_iff (ratio_snd_pos x)

theorem le_rounded {n : Nat} {x : Binary64} (h : (n : ℚ) ≤ x.magnitude) : n ≤ x.rounded := by
  cases n with
  | zero => exact Nat.zero_le _
  | succ k =>
    apply Nat.succ_le_of_lt
    rw [lt_rounded_iff]
    push_cast at h
    linarith

theorem rounded_le {n : Nat} {x : Binary64} (h : x.magnitude ≤ n) : x.rounded ≤ n := by
  by_contra hlt
  have hreached := lt_rounded_iff.mp (Nat.lt_of_not_le hlt)
  linarith

end MarkupNesting.Binary64
