import MarkupNesting.Json.Parser
import MarkupNesting.Json.Printer
import MarkupNesting.Proofs.Number.Hundredths

/-! Numbers and strings in JSON texts: what is read where one was written, and that no more of the
text is taken. -/

namespace MarkupNesting.Json

open Binary64

/-- A text that a number ends before. -/
def EndsNumber (cs : List Char) : Prop :=
  ∀ c ∈ cs.head?, c.isDigit = false ∧ c ≠ '.' ∧ c ≠ 'e' ∧ c ≠ 'E'

theorem endsNumber_nil : EndsNumber [] := by simp [EndsNumber]

theorem endsNumber_cons {c : Char} (h : c.isDigit = false ∧ c ≠ '.' ∧ c ≠ 'e' ∧ c ≠ 'E')
    (cs : List Char) : EndsNumber (c :: cs) := by
  simpa [EndsNumber] using h

theorem splitDigits_append {ds rest : List Char} (hd : ∀ c ∈ ds, c.isDigit = true)
    (hr : ∀ c ∈ rest.head?, c.isDigit = false) : splitDigits (ds ++ rest) = (ds, rest) := by
  have hnone : rest.takeWhile Char.isDigit = [] ∧ rest.dropWhile Char.isDigit = rest := by
    cases rest with
    | nil => exact ⟨rfl, rfl⟩
    | cons c rest =>
      have hc := hr c rfl
      exact ⟨List.takeWhile_cons_of_neg (by simp [hc]), List.dropWhile_cons_of_neg (by simp [hc])⟩
  rw [splitDigits, List.takeWhile_append_of_pos hd, List.dropWhile_append_of_pos hd, hnone.1, hnone.2,
    List.append_nil]

namespace Scale

theorem foldl_addDigit (n : Nat) (cs : List Char)
    (h : n * 10 ^ cs.length + Decimal.ofDigits cs < twoTo 64) :
    cs.foldl addDigit ⟨n, 0⟩ = ⟨n * 10 ^ cs.length + Decimal.ofDigits cs, 0⟩ := by
  induction cs generalizing n with
  | nil => simp [Decimal.ofDigits]
  | cons c cs ih =>
    have hvalue : n * 10 ^ (c :: cs).length + Decimal.ofDigits (c :: cs) =
        (n * 10 + Decimal.digitValue c) * 10 ^ cs.length + Decimal.ofDigits cs := by
      rw [Decimal.ofDigits_cons, List.length_cons]
      ring
    rw [hvalue] at h ⊢
    have hpos : 0 < 10 ^ cs.length := Nat.pow_pos (by decide)
    have hfits : fits ⟨n, 0⟩ c = true := by
      rw [fits, decide_eq_true_eq]
      have hle := Nat.le_mul_of_pos_right (n * 10 + Decimal.digitValue c) hpos
      dsimp only
      omega
    have hadd : addDigit ⟨n, 0⟩ c = ⟨n * 10 + Decimal.digitValue c, 0⟩ := by
      rw [addDigit, hfits]
      rfl
    rw [List.foldl_cons, hadd, ih _ h]

theorem addFraction_eq (n : Nat) (e : Int) {cs : List Char}
    (h : n * 10 ^ cs.length + Decimal.ofDigits cs < twoTo 64) :
    addFraction ⟨n, e⟩ cs = ⟨n * 10 ^ cs.length + Decimal.ofDigits cs, e - cs.length⟩ := by
  induction cs generalizing n e with
  | nil => simp [addFraction, Decimal.ofDigits]
  | cons c cs ih =>
    have hvalue : n * 10 ^ (c :: cs).length + Decimal.ofDigits (c :: cs) =
        (n * 10 + Decimal.digitValue c) * 10 ^ cs.length + Decimal.ofDigits cs := by
      rw [Decimal.ofDigits_cons, List.length_cons]
      ring
    rw [hvalue] at h ⊢
    have hpos : 0 < 10 ^ cs.length := Nat.pow_pos (by decide)
    have hfits : fits ⟨n, e⟩ c = true := by
      rw [fits, decide_eq_true_eq]
      have hle := Nat.le_mul_of_pos_right (n * 10 + Decimal.digitValue c) hpos
      dsimp only
      omega
    have hplace : e - 1 - (cs.length : Int) = e - ((c :: cs).length : Int) := by
      rw [List.length_cons]
      omega
    rw [addFraction, hfits, if_pos rfl, ih _ _ h, hplace]

/-- A number with one or two decimal places is one quotient of numbers that binary64 has. -/
theorem toBinary_places {s n : Nat} (hs : s < twoTo 53) (h0 : 0 < n) (hn : n ≤ 2) :
    toBinary ⟨s, -n⟩ = some (nearest s (tenTo n)) := by
  have hpower : (-(n : Int)).natAbs = n := by omega
  have hgreat : (-(n : Int)).natAbs ≤ greatestPower := by
    rw [hpower]
    exact hn.trans (by decide)
  have hneg : ¬ 0 ≤ -(n : Int) := by omega
  have hten : tenTo n < twoTo 53 := by
    interval_cases n <;> decide
  rw [toBinary, toBinary.go]
  dsimp only
  rw [if_pos hgreat, if_neg hneg, hpower, power, div_ofNat hs hten (Nat.pow_pos (by decide))]

end Scale

def readNatural (n : Nat) : Option Json := numberOf false (Decimal.digits n) none none

theorem readNatural_eq {n : Nat} (h : n < twoTo 64) : readNatural n = some (natural n) := by
  have hfold := Scale.foldl_addDigit 0 (Decimal.digits n) (by simpa using h)
  rw [Nat.zero_mul, Nat.zero_add, Decimal.ofDigits_digits] at hfold
  simp [readNatural, numberOf, hfold, natural]

theorem head?_digits_zero {n : Nat} (h : (Decimal.digits n).head? = some '0') :
    (Decimal.digits n).length = 1 := by
  by_cases h0 : n = 0
  · rw [h0, Decimal.digits, if_pos (by decide)]
    rfl
  · exact absurd h (Decimal.head?_digits h0)

/-- The digits before the point are there, and no zero stands before others. -/
theorem whole_accepted {ds : List Char} (hne : ds ≠ []) (hz : ds.head? = some '0' → ds.length = 1) :
    (ds.isEmpty || (ds.head? = some '0' && 1 < ds.length)) = false := by
  by_cases h0 : ds.head? = some '0'
  · simp [hne, hz h0]
  · simp [hne, h0]

theorem readNumber_natural (n : Nat) {rest : List Char} (hr : EndsNumber rest) :
    readNumber false (Decimal.digits n ++ rest) = (readNatural n).map fun j => (j, rest) := by
  have hsplit : splitDigits (Decimal.digits n ++ rest) = (Decimal.digits n, rest) :=
    splitDigits_append (fun c hc => Decimal.isDigit_of_mem_digits hc) (fun c hc => (hr c hc).1)
  have hwhole := whole_accepted (Decimal.digits_ne_nil n) head?_digits_zero
  rw [readNumber]
  simp only [hsplit, hwhole]
  cases rest with
  | nil => cases h : readNatural n <;> simp_all [readNatural]
  | cons c rest =>
    obtain ⟨-, hdot, he, hE⟩ := hr c rfl
    cases h : readNatural n <;> simp_all [readNatural]

/-- A number with a point is read as the quotient that it stands for, rounded once. -/
theorem numberOf_places {k : Nat} {whole fraction : List Char} (h : IsDecimal k whole fraction)
    (hk : k < hundredthsLimit) :
    numberOf false whole (some fraction) none = some (binary (nearest k 100)) := by
  obtain ⟨n, hn⟩ : ∃ n, n = fraction.length := ⟨_, rfl⟩
  obtain ⟨s, hs⟩ : ∃ s, s = Decimal.ofDigits (whole ++ fraction) := ⟨_, rfl⟩
  have hvalue : s * 100 = k * 10 ^ n := by
    rw [hs, hn]
    exact h.value
  have hjoin : s = Decimal.ofDigits whole * 10 ^ n + Decimal.ofDigits fraction := by
    rw [hs, hn, Decimal.ofDigits_append_eq]
  have h0 : 0 < n := by
    rw [hn]
    exact List.length_pos_iff.mpr h.fraction_ne_nil
  have h2 : n ≤ 2 := hn ▸ h.places
  have hs53 : s < twoTo 53 := by
    have hpow : 10 ^ n ≤ 10 ^ 2 := Nat.pow_le_pow_right (by decide) h2
    have hle : k * 10 ^ n ≤ k * 100 := Nat.mul_le_mul_left k hpow
    have hlimit : hundredthsLimit < twoTo 53 := by decide
    omega
  have hs64 : s < twoTo 64 := hs53.trans (by decide)
  have hwhole : whole.foldl Scale.addDigit ⟨0, 0⟩ = ⟨Decimal.ofDigits whole, 0⟩ := by
    have hle : Decimal.ofDigits whole ≤ Decimal.ofDigits whole * 10 ^ n :=
      Nat.le_mul_of_pos_right _ (Nat.pow_pos (by decide))
    have hfold := Scale.foldl_addDigit 0 whole (by omega)
    rwa [Nat.zero_mul, Nat.zero_add] at hfold
  have hfraction : Scale.addFraction ⟨Decimal.ofDigits whole, 0⟩ fraction = ⟨s, -n⟩ := by
    rw [Scale.addFraction_eq _ _ (by rw [← hn]; omega), ← hn, ← hjoin, Int.zero_sub]
  have hbinary : Scale.toBinary ⟨s, -n⟩ = some (nearest k 100) := by
    rw [Scale.toBinary_places hs53 h0 h2]
    congr 1
    apply nearest_congr (Nat.pow_pos (by decide)) (by decide)
    rw [quotient_hundred, quotient, div_eq_div_iff (by positivity) (by norm_num)]
    exact_mod_cast hvalue
  simp [numberOf, hwhole, hfraction, hbinary]

theorem readNumber_hundredths {k : Nat} (hk : k < hundredthsLimit) {rest : List Char}
    (hr : EndsNumber rest) :
    readNumber false ((nearest k 100).chars ++ rest) = some (binary (nearest k 100), rest) := by
  obtain ⟨whole, fraction, hchars, h⟩ := exists_chars hk
  have hwhole : splitDigits (whole ++ '.' :: (fraction ++ rest)) =
      (whole, '.' :: (fraction ++ rest)) := splitDigits_append h.whole_digits (by simp)
  have hfraction : splitDigits (fraction ++ rest) = (fraction, rest) :=
    splitDigits_append h.fraction_digits (fun c hc => (hr c hc).1)
  have haccept := whole_accepted h.whole_ne_nil h.leading
  have hvalue := numberOf_places h hk
  have hne := h.fraction_ne_nil
  rw [hchars, List.append_assoc, List.cons_append, readNumber]
  simp only [hwhole, haccept]
  cases rest with
  | nil => simp_all
  | cons c rest =>
    obtain ⟨-, hdot, he, hE⟩ := hr c rfl
    simp_all

def escaped (cs : List Char) : List Char := cs.flatMap escape

theorem writeString_eq (s : String) (rest : List Char) :
    writeString s rest = '\x22' :: (escaped s.toList ++ '\x22' :: rest) := by
  rw [writeString, escaped]
  congr 1
  induction s.toList with
  | nil => rfl
  | cons c cs ih => rw [List.foldr_cons, ih, List.flatMap_cons, List.append_assoc]

theorem length_escape_pos (c : Char) : 0 < (escape c).length := by
  unfold escape
  split
  all_goals try exact Nat.succ_pos _
  split <;> exact Nat.succ_pos _

theorem length_le_escaped (cs : List Char) : cs.length ≤ (escaped cs).length := by
  induction cs with
  | nil => exact Nat.le_refl _
  | cons c cs ih =>
    have hc := length_escape_pos c
    have happ : (escaped (c :: cs)).length = (escape c).length + (escaped cs).length := by
      rw [escaped, List.flatMap_cons, List.length_append, ← escaped]
    rw [happ, List.length_cons]
    omega

theorem readHex_control {n : Nat} (h : n < 32) (rest : List Char) :
    readHex ('0' :: '0' :: hexDigit (n / 16) :: hexDigit (n % 16) :: rest) = some (n, rest) := by
  have hdigits : ∀ n < 32, ['0', '0', hexDigit (n / 16), hexDigit (n % 16)].all Reference.isHexDigit =
      true ∧ Reference.valueIn 16 Reference.hexValue ['0', '0', hexDigit (n / 16), hexDigit (n % 16)] =
      n := by decide
  obtain ⟨h1, h2⟩ := hdigits n h
  rw [readHex, if_pos h1, h2]

theorem readCharacter_control {c : Char} (h : c.toNat < 32) (rest : List Char) :
    readCharacter ('0' :: '0' :: hexDigit (c.toNat / 16) :: hexDigit (c.toNat % 16) :: rest) =
      some (c, rest) := by
  have hhalf : ¬ 0xd800 ≤ c.toNat := by omega
  have hvalid : c.toNat.isValidChar := c.valid
  rw [readCharacter, readHex_control h]
  simp [hhalf, hvalid, Char.ofNat_toNat]

/-- A character is read where it was escaped, in one step. -/
theorem readString_escape (fuel : Nat) (run : List Char) (c : Char) (rest : List Char) :
    readString (fuel + 1) run (escape c ++ rest) = readString fuel (c :: run) rest := by
  unfold escape
  split
  all_goals try rfl
  next hquote hslash _ _ _ _ _ =>
    split
    · next h =>
      have hc := readCharacter_control h rest
      simp only [List.cons_append, List.nil_append, readString, hc]
      rfl
    · next h =>
      rw [List.singleton_append, readString]
      split
      all_goals simp_all

theorem readString_escaped (fuel : Nat) (run cs rest : List Char) (h : cs.length < fuel) :
    readString fuel run (escaped cs ++ '\x22' :: rest) =
      some (String.ofList (run.reverse ++ cs), rest) := by
  induction cs generalizing fuel run with
  | nil =>
    cases fuel with
    | zero => cases h
    | succ fuel => simp [escaped, readString]
  | cons c cs ih =>
    cases fuel with
    | zero => cases h
    | succ fuel =>
      have hrest := ih fuel (c :: run) (by simpa using h)
      rw [escaped, List.flatMap_cons, List.append_assoc, readString_escape, ← escaped, hrest]
      simp

end MarkupNesting.Json
