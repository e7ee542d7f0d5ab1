/-! Source text with the offset, row and column of every character. -/

namespace MarkupNesting.Grammar

structure Text where
  chars : Array Char
  /-- The offset in bytes before each character, and after the last. -/
  bytes : Array Nat
  rows : Array Nat
  /-- The distance in bytes from the start of the row. -/
  columns : Array Nat

namespace Text

/-- A text as far as it has been read, with the offset, row and column of what comes next. -/
structure Reading where
  text : Text
  byte : Nat
  row : Nat
  column : Nat

def Reading.start : Reading := ⟨⟨#[], #[0], #[0], #[0]⟩, 0, 0, 0⟩

def Reading.add : Reading → Char → Reading
  | ⟨⟨chars, bytes, rows, columns⟩, byte, row, column⟩, c =>
    let byte := byte + c.utf8Size
    let (row, column) := if c = '\n' then (row + 1, 0) else (row, column + c.utf8Size)
    ⟨⟨chars.push c, bytes.push byte, rows.push row, columns.push column⟩, byte, row, column⟩

def ofString (s : String) : Text := (s.toList.foldl Reading.add .start).text

variable (t : Text)

def size : Nat := t.chars.size

/-- The character at a position; NUL at the end. -/
def get (i : Nat) : Char := t.chars.getD i '\x00'
def byte (i : Nat) : Nat := t.bytes.getD i 0

/-- The row of a position. Past the end it is that of the end. -/
def row (i : Nat) : Nat := t.rows.getD (min i t.size) 0
def column (i : Nat) : Nat := t.columns.getD (min i t.size) 0

def slice (start stop : Nat) : String := String.ofList (t.chars.extract start stop).toList

def skipWhile (p : Char → Bool) (i : Nat) : Nat :=
  if h : i < t.chars.size then
    if p t.chars[i] then skipWhile p (i + 1) else i
  else i
termination_by t.chars.size - i

def hasAt (s : String) (i : Nat) : Bool :=
  s.toList.zipIdx.all fun (c, k) => i + k < t.size && t.get (i + k) == c

end Text

end MarkupNesting.Grammar
