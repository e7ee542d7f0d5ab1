import MarkupNesting.Number.Binary64
import MarkupNesting.Number.Decimal

/-! The text of a binary64 number: the fewest digits that are nearer to it than to any other number. -/

namespace MarkupNesting

namespace Binary64

/-- The magnitudes that round to a number lie between two quarters of its last binary place, given
in the unit `2 ^ (exponent - 2)`; the ends are among them if the mantissa is even. -/
structure Interval where
  lower : Nat
  upper : Nat
  closed : Bool

def interval (x : Binary64) : Interval :=
  let below := if x.mantissa = twoTo 52 ∧ leastExponent < x.exponent then 1 else 2
  ⟨4 * x.mantissa - below, 4 * x.mantissa + 2, x.mantissa % 2 = 0⟩

def inUnits (d : Nat) (p e : Int) : Nat × Nat :=
  let num := d * (if 0 ≤ p then tenTo p.toNat else 1) * (if 0 ≤ e then 1 else twoTo (-e).toNat)
  let den := (if 0 ≤ p then 1 else tenTo (-p).toNat) * (if 0 ≤ e then twoTo e.toNat else 1)
  (num, den)

def reads (x : Binary64) (d : Nat) (p : Int) : Bool :=
  let i := x.interval
  let (num, den) := inUnits d p (x.exponent - 2)
  if i.closed then i.lower * den ≤ num && num ≤ i.upper * den
  else i.lower * den < num && num < i.upper * den

def firstPlace (num den : Nat) : Int :=
  if den ≤ num then (Decimal.digits (num / den)).length - 1
  else
    let rec search : Nat → Nat → Int
      | 0, _ => 0
      | fuel + 1, n => if den ≤ n then 0 else search fuel (n * 10) - 1
    search 400 num

def neighbours (x : Binary64) (p : Int) : List Nat :=
  let (a, b) := x.ratio
  let num := a * (if 0 ≤ p then 1 else tenTo (-p).toNat)
  let den := b * (if 0 ≤ p then tenTo p.toNat else 1)
  let d := num / den
  if roundEven num den = d then [d, d + 1] else [d + 1, d]

def stripped (d : Nat) (p : Int) : Nat × Int :=
  if d ≠ 0 ∧ d % 10 = 0 then stripped (d / 10) (p + 1) else (d, p)
termination_by d

/-- The fewest digits that read as the magnitude of a number, and the place of the last. -/
def shortest (x : Binary64) : Nat × Int :=
  let (a, b) := x.ratio
  let first := firstPlace a b
  let found := (List.range 17).findSome? fun (n : Nat) =>
    let p := first - n
    ((x.neighbours p).find? fun d => x.reads d p).map fun d => (d, p)
  match found with
  | some (d, p) => stripped d p
  | none => (0, 0)

/-- How a number is laid out: digits before the point are written out up to a place, small fractions
down to a place, and others with an exponent. -/
structure Layout where
  greatest : Int
  least : Int

def layout : Layout := ⟨16, -5⟩

def exponentText (e : Int) : List Char :=
  (if e < 0 then ['-'] else []) ++ Decimal.digits e.natAbs

/-- The text of `d * 10 ^ p`. It always has a point or an exponent. -/
def layOut (d : Nat) (p : Int) : List Char :=
  let ds := Decimal.digits d
  let point : Int := ds.length + p
  if 0 ≤ p && point ≤ layout.greatest then ds ++ List.replicate p.toNat '0' ++ ['.', '0']
  else if 0 < point && point ≤ layout.greatest then
    ds.take point.toNat ++ '.' :: ds.drop point.toNat
  else if layout.least < point && point ≤ 0 then
    '0' :: '.' :: (List.replicate (-point).toNat '0' ++ ds)
  else
    (match ds with
    | [] => []
    | [c] => [c]
    | c :: cs => c :: '.' :: cs) ++ 'e' :: exponentText (point - 1)

def chars (x : Binary64) : List Char :=
  let body := if x.mantissa = 0 then ['0', '.', '0']
    else
      let (d, p) := x.shortest
      layOut d p
  if x.negative then '-' :: body else body

end Binary64

end MarkupNesting
