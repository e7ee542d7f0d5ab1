import Mathlib
import MarkupNesting.Text.Blank

/-! Letters in lower case. Only the letters A to Z change, and what they become is a letter. -/

namespace MarkupNesting

theorem isUpper_iff (c : Char) : c.isUpper = true ↔ 65 ≤ c.toNat ∧ c.toNat ≤ 90 := by
  simp [Char.isUpper, UInt32.le_iff_toNat_le]

theorem toLower_of_not_isUpper {c : Char} (h : c.isUpper = false) : c.toLower = c := by
  rw [Char.toLower, dif_neg]
  simpa [Char.isUpper] using h

theorem toNat_toLower_of_isUpper {c : Char} (h : c.isUpper = true) :
    c.toLower.toNat = c.toNat + 32 := by
  have hc : c.val ≥ 'A'.val ∧ c.val ≤ 'Z'.val := by simpa [Char.isUpper] using h
  have hn := (isUpper_iff c).mp h
  have hd : ('a'.val - 'A'.val).toNat = 32 := by decide
  rw [Char.toLower, dif_pos hc]
  simp only [Char.toNat] at hn ⊢
  rw [UInt32.toNat_add]
  omega

/-- A character that is no letter is the lower case of nothing but itself. -/
theorem toLower_eq_iff {c x : Char} (hx : x.isAlpha = false) : c.toLower = x ↔ c = x := by
  cases hc : c.isUpper with
  | false => rw [toLower_of_not_isUpper hc]
  | true =>
    have hn := (isUpper_iff c).mp hc
    have hl := toNat_toLower_of_isUpper hc
    constructor
    · rintro rfl
      simp [Char.isAlpha, Char.isLower, UInt32.le_iff_toNat_le] at hx
      omega
    · rintro rfl
      simp [Char.isAlpha, hc] at hx

theorem lower_eq_self {s : String} (h : ∀ c ∈ s.toList, c.isUpper = false) : lower s = s := by
  have hm : s.toList.map Char.toLower = s.toList.map id :=
    List.map_congr_left fun c hc => toLower_of_not_isUpper (h c hc)
  rw [lower, hm, List.map_id, String.ofList_toList]

theorem isUpper_toLower (c : Char) : c.toLower.isUpper = false := by
  cases hc : c.isUpper with
  | false => rw [toLower_of_not_isUpper hc, hc]
  | true =>
    have hn := (isUpper_iff c).mp hc
    have hl := toNat_toLower_of_isUpper hc
    rw [Bool.eq_false_iff, ne_eq, isUpper_iff]
    omega

@[simp] theorem toLower_toLower (c : Char) : c.toLower.toLower = c.toLower :=
  toLower_of_not_isUpper (isUpper_toLower c)

@[simp] theorem toList_lower (s : String) : (lower s).toList = s.toList.map Char.toLower := by
  rw [lower, String.toList_ofList]

@[simp] theorem lower_lower (s : String) : lower (lower s) = lower s := by
  simp [lower, Function.comp_def]

theorem lower_ofList (cs : List Char) :
    lower (String.ofList cs) = String.ofList (cs.map Char.toLower) := by
  rw [lower, String.toList_ofList]

theorem isAlpha_iff (c : Char) :
    c.isAlpha = true ↔ 65 ≤ c.toNat ∧ c.toNat ≤ 90 ∨ 97 ≤ c.toNat ∧ c.toNat ≤ 122 := by
  simp [Char.isAlpha, Char.isUpper, Char.isLower, UInt32.le_iff_toNat_le]

theorem isAlpha_toLower_of_isUpper {c : Char} (h : c.isUpper = true) : c.toLower.isAlpha = true := by
  have hn := (isUpper_iff c).mp h
  have hl := toNat_toLower_of_isUpper h
  rw [isAlpha_iff]
  omega

/-- A test that all letters pass, or none, does not tell a character from its lower case. -/
theorem apply_toLower {p : Char → Bool} {b : Bool} (h : ∀ c, c.isAlpha = true → p c = b) (c : Char) :
    p c.toLower = p c := by
  cases hc : c.isUpper with
  | false => rw [toLower_of_not_isUpper hc]
  | true =>
    have ha : c.isAlpha = true := by simp [Char.isAlpha, hc]
    rw [h _ (isAlpha_toLower_of_isUpper hc), h c ha]

theorem isBlank_toLower (c : Char) : isBlank c.toLower = isBlank c := by
  apply apply_toLower (b := false)
  intro c hc
  rw [isAlpha_iff] at hc
  simp [isBlank, Char.le_def, UInt32.le_iff_toNat_le, Char.ext_iff, ← UInt32.toNat_inj]
  omega

theorem isBlankText_lower (s : String) : isBlankText (lower s) = isBlankText s := by
  simp [isBlankText, Function.comp_def, isBlank_toLower]

end MarkupNesting
