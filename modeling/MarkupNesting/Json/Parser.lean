import MarkupNesting.Json
import MarkupNesting.Number.Decimal
import MarkupNesting.Text.Reference

/-! Reading JSON values. Every function returns what it has read and the rest of the text. -/

namespace MarkupNesting

namespace Json

def isSpace (c : Char) : Bool := c = ' ' || c = '\n' || c = '\t' || c = '\r'

def skipSpace (cs : List Char) : List Char := cs.dropWhile isSpace

/-- A number as it is written: its significant digits as far as they fit 64 bits, and the power of
ten that they are to be taken by. -/
structure Scale where
  significand : Nat
  exponent : Int

namespace Scale

def fits (s : Scale) (c : Char) : Bool := s.significand * 10 + Decimal.digitValue c < Binary64.twoTo 64

/-- A digit before the point. Once one does not fit, the rest only count. -/
def addDigit (s : Scale) (c : Char) : Scale :=
  if s.exponent = 0 && s.fits c then { s with significand := s.significand * 10 + Decimal.digitValue c }
  else { s with exponent := s.exponent + 1 }

def addFraction (s : Scale) : List Char → Scale
  | [] => s
  | c :: cs =>
    if s.fits c then
      addFraction ⟨s.significand * 10 + Decimal.digitValue c, s.exponent - 1⟩ cs
    else s

/-- The greatest power of ten that is taken at once. -/
def greatestPower : Nat := 308

def power (k : Nat) : Binary64 := .ofNat (Binary64.tenTo k)

/-- The number in binary64, each step rounded; nothing if it is too great. -/
def toBinary (s : Scale) : Option Binary64 :=
  go 4 (.ofNat s.significand) s.exponent
where
  go : Nat → Binary64 → Int → Option Binary64
    | 0, x, _ => some x
    | fuel + 1, x, e =>
      if e.natAbs ≤ greatestPower then
        if 0 ≤ e then
          let y := x.mul (power e.natAbs)
          if y.isFinite then some y else none
        else some (x.div (power e.natAbs))
      else if x.mantissa = 0 then some x
      else if 0 ≤ e then none
      else go fuel (x.div (power greatestPower)) (e + greatestPower)

end Scale

def numberOf (negative : Bool) (whole : List Char) (fraction : Option (List Char))
    (exponent : Option Int) : Option Json :=
  let s := whole.foldl Scale.addDigit ⟨0, 0⟩
  let isInteger := fraction.isNone && exponent.isNone && s.exponent = 0 &&
    (!negative || (0 < s.significand && s.significand ≤ Binary64.twoTo 63))
  if isInteger then some (integer (if negative then -(s.significand : Int) else s.significand))
  else
    let s := s.addFraction (fraction.getD [])
    let s : Scale := { s with exponent := s.exponent + exponent.getD 0 }
    s.toBinary.map fun x => binary (if negative then x.neg else x)

def splitDigits (cs : List Char) : List Char × List Char :=
  (cs.takeWhile Char.isDigit, cs.dropWhile Char.isDigit)

def readExponent (cs : List Char) : Option (Int × List Char) :=
  let (negative, cs) := match cs with
    | '-' :: cs => (true, cs)
    | '+' :: cs => (false, cs)
    | cs => (false, cs)
  let (ds, rest) := splitDigits cs
  if ds.isEmpty then none
  else
    let n : Int := Decimal.ofDigits ds
    some (if negative then -n else n, rest)

def readNumber (negative : Bool) (cs : List Char) : Option (Json × List Char) := do
  let (whole, rest) := splitDigits cs
  if whole.isEmpty || (whole.head? = some '0' && 1 < whole.length) then none
  let (fraction, rest) ← match rest with
    | '.' :: more =>
      let (ds, rest) := splitDigits more
      if ds.isEmpty then none else some (some ds, rest)
    | _ => some (none, rest)
  let (exponent, rest) ← match rest with
    | 'e' :: more | 'E' :: more => (readExponent more).map fun (e, rest) => (some e, rest)
    | _ => some (none, rest)
  return (← numberOf negative whole fraction exponent, rest)

def readHex (cs : List Char) : Option (Nat × List Char) :=
  match cs with
  | a :: b :: c :: d :: rest =>
    if [a, b, c, d].all Reference.isHexDigit then
      some (Reference.valueIn 16 Reference.hexValue [a, b, c, d], rest)
    else none
  | _ => none

/-- A character given by its number, after the letter. Great numbers take two halves. -/
def readCharacter (cs : List Char) : Option (Char × List Char) := do
  let (n, rest) ← readHex cs
  if 0xd800 ≤ n && n < 0xdc00 then
    match rest with
    | '\\' :: 'u' :: more =>
      let (m, rest) ← readHex more
      if 0xdc00 ≤ m && m < 0xe000 then
        return (Char.ofNat (0x10000 + (n - 0xd800) * 0x400 + (m - 0xdc00)), rest)
      else none
    | _ => none
  else if n.isValidChar then return (Char.ofNat n, rest)
  else none

def escapes : List (Char × Char) :=
  [('\x22', '\x22'), ('\\', '\\'), ('/', '/'), ('b', '\x08'), ('f', '\x0c'), ('n', '\n'), ('r', '\r'),
    ('t', '\t')]

/-- A string, after its opening quote; `run` is what has been read of it, the last character first. -/
def readString : Nat → List Char → List Char → Option (String × List Char)
  | 0, _, _ => none
  | fuel + 1, run, cs =>
    match cs with
    | [] => none
    | '\x22' :: rest => some (String.ofList run.reverse, rest)
    | '\\' :: 'u' :: rest => do
      let (c, rest) ← readCharacter rest
      readString fuel (c :: run) rest
    | '\\' :: e :: rest => do readString fuel ((← escapes.lookup e) :: run) rest
    | '\\' :: [] => none
    | c :: rest => if c.toNat < 32 then none else readString fuel (c :: run) rest

def readWord (word : String) (j : Json) (cs : List Char) : Option (Json × List Char) :=
  if word.toList.isPrefixOf cs then some (j, cs.drop word.length) else none

mutual

def readValue : Nat → List Char → Option (Json × List Char)
  | 0, _ => none
  | fuel + 1, cs =>
    match skipSpace cs with
    | [] => none
    | 'n' :: rest => readWord "null" null ('n' :: rest)
    | 't' :: rest => readWord "true" (bool true) ('t' :: rest)
    | 'f' :: rest => readWord "false" (bool false) ('f' :: rest)
    | '\x22' :: rest => (readString fuel [] rest).map fun (s, rest) => (string s, rest)
    | '-' :: rest => readNumber true rest
    | '[' :: rest =>
      match skipSpace rest with
      | ']' :: rest => some (array [], rest)
      | rest => (readItems fuel rest).map fun (js, rest) => (array js, rest)
    | '\x7b' :: rest =>
      match skipSpace rest with
      | '\x7d' :: rest => some (object [], rest)
      | rest => (readFields fuel rest).map fun (fs, rest) => (object fs, rest)
    | c :: rest => if c.isDigit then readNumber false (c :: rest) else none

def readItems : Nat → List Char → Option (List Json × List Char)
  | 0, _ => none
  | fuel + 1, cs => do
    let (j, rest) ← readValue fuel cs
    match skipSpace rest with
    | ',' :: rest =>
      let (js, rest) ← readItems fuel rest
      return (j :: js, rest)
    | ']' :: rest => return ([j], rest)
    | _ => none

def readFields : Nat → List Char → Option (List (String × Json) × List Char)
  | 0, _ => none
  | fuel + 1, cs => do
    match skipSpace cs with
    | '\x22' :: rest =>
      let (k, rest) ← readString fuel [] rest
      match skipSpace rest with
      | ':' :: rest =>
        let (v, rest) ← readValue fuel rest
        match skipSpace rest with
        | ',' :: rest =>
          let (fs, rest) ← readFields fuel rest
          return ((k, v) :: fs, rest)
        | '\x7d' :: rest => return ([(k, v)], rest)
        | _ => none
      | _ => none
    | _ => none

end

def parse (s : String) : Option Json :=
  let cs := s.toList
  match readValue (cs.length + 1) cs with
  | some (j, rest) => if (skipSpace rest).isEmpty then some j else none
  | none => none

end Json

end MarkupNesting
