import MarkupNesting.Json
import MarkupNesting.Number.Shortest

/-! The text of JSON values, on one line or with one item a line. Every function writes in front of
a given rest. -/

namespace MarkupNesting

namespace Json

def hexDigit (n : Nat) : Char := if n < 10 then Char.ofNat (n + 48) else Char.ofNat (n + 87)

def escape (c : Char) : List Char :=
  match c with
  | '\x22' => ['\\', '\x22']
  | '\\' => ['\\', '\\']
  | '\n' => ['\\', 'n']
  | '\r' => ['\\', 'r']
  | '\t' => ['\\', 't']
  | '\x08' => ['\\', 'b']
  | '\x0c' => ['\\', 'f']
  | c =>
    if c.toNat < 32 then ['\\', 'u', '0', '0', hexDigit (c.toNat / 16), hexDigit (c.toNat % 16)]
    else [c]

def writeString (s : String) (rest : List Char) : List Char :=
  '\x22' :: s.toList.foldr (fun c cs => escape c ++ cs) ('\x22' :: rest)

def writeInteger (i : Int) (rest : List Char) : List Char :=
  match i with
  | .ofNat n => Decimal.digits n ++ rest
  | .negSucc n => '-' :: (Decimal.digits (n + 1) ++ rest)

def writeWord (s : String) (rest : List Char) : List Char := s.toList ++ rest

mutual

def write (j : Json) (rest : List Char) : List Char :=
  match j with
  | null => writeWord "null" rest
  | bool b => writeWord (if b then "true" else "false") rest
  | integer i => writeInteger i rest
  | binary x => x.chars ++ rest
  | string s => writeString s rest
  | array items => '[' :: writeItems items (']' :: rest)
  | object fields => '\x7b' :: writeFields fields ('\x7d' :: rest)

def writeItems (items : List Json) (rest : List Char) : List Char :=
  match items with
  | [] => rest
  | j :: js => write j (writeMoreItems js rest)

def writeMoreItems (items : List Json) (rest : List Char) : List Char :=
  match items with
  | [] => rest
  | j :: js => ',' :: write j (writeMoreItems js rest)

def writeFields (fields : List (String × Json)) (rest : List Char) : List Char :=
  match fields with
  | [] => rest
  | (k, v) :: fs => writeString k (':' :: write v (writeMoreFields fs rest))

def writeMoreFields (fields : List (String × Json)) (rest : List Char) : List Char :=
  match fields with
  | [] => rest
  | (k, v) :: fs => ',' :: writeString k (':' :: write v (writeMoreFields fs rest))

end

/-- The text of a value without white space. -/
def compact (j : Json) : String := String.ofList (j.write [])

def newLine (depth : Nat) (rest : List Char) : List Char :=
  '\n' :: (List.replicate (2 * depth) ' ' ++ rest)

mutual

def writePretty (depth : Nat) (j : Json) (rest : List Char) : List Char :=
  match j with
  | array (item :: items) =>
    '[' :: newLine (depth + 1) (writePretty (depth + 1) item (prettyItems depth items rest))
  | object ((k, v) :: fields) =>
    '\x7b' :: newLine (depth + 1)
      (writeString k (':' :: ' ' :: writePretty (depth + 1) v (prettyFields depth fields rest)))
  | array [] => '[' :: ']' :: rest
  | object [] => '\x7b' :: '\x7d' :: rest
  | null => writeWord "null" rest
  | bool b => writeWord (if b then "true" else "false") rest
  | integer i => writeInteger i rest
  | binary x => x.chars ++ rest
  | string s => writeString s rest

/-- The items after the first, and the end of the array. -/
def prettyItems (depth : Nat) (items : List Json) (rest : List Char) : List Char :=
  match items with
  | [] => newLine depth (']' :: rest)
  | j :: js => ',' :: newLine (depth + 1) (writePretty (depth + 1) j (prettyItems depth js rest))

def prettyFields (depth : Nat) (fields : List (String × Json)) (rest : List Char) : List Char :=
  match fields with
  | [] => newLine depth ('\x7d' :: rest)
  | (k, v) :: fs =>
    ',' :: newLine (depth + 1)
      (writeString k (':' :: ' ' :: writePretty (depth + 1) v (prettyFields depth fs rest)))

end

/-- The text of a value with one item or field a line. -/
def pretty (j : Json) : String := String.ofList (j.writePretty 0 [])

end Json

end MarkupNesting
