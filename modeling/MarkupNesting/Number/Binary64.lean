/-! Numbers in binary64. Every operation takes the exact result, a quotient of natural numbers, to
the nearest number of 53 binary digits; of two that are equally near, to the one with an even
mantissa. -/

namespace MarkupNesting

/-- The number `mantissa * 2 ^ exponent`, or its negative. -/
structure Binary64 where
  negative : Bool
  mantissa : Nat
  exponent : Int
deriving DecidableEq, Repr

namespace Binary64

abbrev twoTo (n : Nat) : Nat := Nat.pow 2 n

abbrev tenTo (n : Nat) : Nat := Nat.pow 10 n

def leastExponent : Int := -1074

def greatestExponent : Int := 971

def zero : Binary64 := ⟨false, 0, leastExponent⟩

/-- The integer nearest to a quotient; a half goes to the even neighbour. -/
def roundEven (num den : Nat) : Nat :=
  let q := num / den
  let r := num % den
  if 2 * r < den then q
  else if den < 2 * r then q + 1
  else q + q % 2

/-- The integer nearest to a quotient; a half goes up. -/
def roundUp (num den : Nat) : Nat := (2 * num + den) / (2 * den)

/-- The quotient `num / (den * 2 ^ e)` as a quotient of natural numbers. -/
def scaled (num den : Nat) (e : Int) : Nat × Nat :=
  if 0 ≤ e then (num, den * twoTo e.toNat) else (num * twoTo (-e).toNat, den)

/-- The exponent at which a quotient has 53 binary digits before the point, or the least there is. -/
def exponentOf (num den : Nat) : Int :=
  let e := (num.log2 : Int) - den.log2 - 52
  let (a, b) := scaled num den e
  max (if a / b < twoTo 52 then e - 1 else e) leastExponent

def nearest (num den : Nat) : Binary64 :=
  if num = 0 then zero
  else
    let e := exponentOf num den
    let (a, b) := scaled num den e
    let m := roundEven a b
    if m = twoTo 53 then ⟨false, twoTo 52, e + 1⟩ else ⟨false, m, e⟩

def ofNat (n : Nat) : Binary64 := nearest n 1

def ratio (x : Binary64) : Nat × Nat :=
  if 0 ≤ x.exponent then (x.mantissa * twoTo x.exponent.toNat, 1)
  else (x.mantissa, twoTo (-x.exponent).toNat)

def neg (x : Binary64) : Binary64 := { x with negative := !x.negative }

def mul (x y : Binary64) : Binary64 :=
  let (a, b) := x.ratio
  let (c, d) := y.ratio
  { nearest (a * c) (b * d) with negative := x.negative != y.negative }

def div (x y : Binary64) : Binary64 :=
  let (a, b) := x.ratio
  let (c, d) := y.ratio
  { nearest (a * d) (b * c) with negative := x.negative != y.negative }

def rounded (x : Binary64) : Nat :=
  let (a, b) := x.ratio
  roundUp a b

def isFinite (x : Binary64) : Bool := x.exponent ≤ greatestExponent

theorem roundEven_near (num den : Nat) (h : 0 < den) :
    2 * num ≤ 2 * (roundEven num den * den) + den ∧ 2 * (roundEven num den * den) ≤ 2 * num + den := by
  have hq := Nat.div_add_mod num den
  have hr := Nat.mod_lt num h
  have hm : den * (num / den) = num / den * den := Nat.mul_comm ..
  simp only [roundEven]
  split
  · omega
  · split
    · rw [Nat.add_mul]; omega
    · rw [Nat.add_mul]
      rcases Nat.mod_two_eq_zero_or_one (num / den) with h0 | h0 <;> rw [h0] <;> omega

end Binary64

end MarkupNesting
