import Mathlib
import MarkupNesting.Number.Decimal

/-! The decimal digits of a number: that they are those of `Nat.toDigits`, how many there are, what
the first is, and what zeros before or after them do. -/

namespace MarkupNesting.Decimal

theorem digitChar_eq {d : Nat} (h : d < 10) : digitChar d = Nat.digitChar d := by
  revert d
  decide

theorem digits_eq_toDigits (n : Nat) : digits n = Nat.toDigits 10 n := by
  fun_induction digits n with
  | case1 n hn => rw [Nat.toDigits_of_lt_base hn, digitChar_eq hn]
  | case2 n hn ih =>
    rw [Nat.toDigits_eq_if (by decide), if_neg hn, ih, digitChar_eq (Nat.mod_lt n (by decide))]

theorem text_eq_toString (n : Nat) : text n = toString n := by
  rw [text, digits_eq_toDigits, Nat.toString_eq_repr, Nat.repr_eq_ofList_toDigits]

theorem length_digits_lt {n k : Nat} (h : n < 10 ^ (k + 1)) : (digits n).length ≤ k + 1 := by
  induction k generalizing n with
  | zero =>
    rw [digits, if_pos (by omega)]
    simp
  | succ k ih =>
    rw [digits]
    split
    · simp
    · have hk : n / 10 < 10 ^ (k + 1) := by
        rw [Nat.pow_succ] at h
        omega
      have hl := ih hk
      simp only [List.length_append, List.length_singleton]
      omega

theorem length_digits_pos (n : Nat) : 0 < (digits n).length :=
  List.length_pos_iff.mpr (digits_ne_nil n)

theorem pow_length_digits_le {n : Nat} (h : n ≠ 0) : 10 ^ ((digits n).length - 1) ≤ n := by
  fun_induction digits n with
  | case1 n hn =>
    simp only [List.length_singleton, Nat.sub_self, Nat.pow_zero]
    omega
  | case2 n hn ih =>
    have hle := ih (by omega)
    have hpos := length_digits_pos (n / 10)
    have hlen : (digits (n / 10) ++ [digitChar (n % 10)]).length - 1 =
        (digits (n / 10)).length - 1 + 1 := by
      rw [List.length_append, List.length_singleton]
      omega
    rw [hlen, Nat.pow_succ]
    omega

/-- The first digit of a positive number is not zero. -/
theorem head?_digits {n : Nat} (h : n ≠ 0) : (digits n).head? ≠ some '0' := by
  fun_induction digits n with
  | case1 n hn =>
    rw [List.head?_cons]
    interval_cases n
    · exact absurd rfl h
    all_goals decide
  | case2 n hn ih =>
    rw [List.head?_append_of_ne_nil _ (digits_ne_nil _)]
    exact ih (by omega)

theorem ofDigits_cons (c : Char) (cs : List Char) :
    ofDigits (c :: cs) = digitValue c * 10 ^ cs.length + ofDigits cs := by
  have hfold : ∀ n, cs.foldl (fun n c => n * 10 + digitValue c) n =
      n * 10 ^ cs.length + ofDigits cs := by
    intro n
    rw [ofDigits]
    induction cs generalizing n with
    | nil => simp
    | cons d cs ih =>
      rw [List.foldl_cons, List.foldl_cons, ih (n * 10 + digitValue d), ih (0 * 10 + digitValue d),
        List.length_cons]
      ring
  rw [ofDigits, List.foldl_cons, hfold, Nat.zero_mul, Nat.zero_add]

theorem ofDigits_append_eq (cs ds : List Char) :
    ofDigits (cs ++ ds) = ofDigits cs * 10 ^ ds.length + ofDigits ds := by
  induction cs with
  | nil => simp [ofDigits]
  | cons c cs ih =>
    rw [List.cons_append, ofDigits_cons, ofDigits_cons, ih, List.length_append, Nat.pow_add]
    ring

theorem ofDigits_zeros (k : Nat) : ofDigits (List.replicate k '0') = 0 := by
  induction k with
  | zero => rfl
  | succ k ih => rw [List.replicate_succ, ofDigits_cons, ih, Nat.add_zero]; exact Nat.zero_mul _

end MarkupNesting.Decimal
