/-! Character references. A reference begins with an ampersand and ends with a semicolon; it gives a
character by its number or by one of a few names. Others stay as they are. -/

namespace MarkupNesting

namespace Reference

def names : List (String × Char) :=
  [("amp", '&'), ("lt", '<'), ("gt", '>'), ("quot", '\x22'), ("apos", '\x27'), ("nbsp", '\u00a0')]

def isHexDigit (c : Char) : Bool := c.isDigit || ('a' ≤ c && c ≤ 'f') || ('A' ≤ c && c ≤ 'F')

def hexValue (c : Char) : Nat :=
  if c.isDigit then c.toNat - '0'.toNat
  else if 'a' ≤ c then c.toNat - 'a'.toNat + 10
  else c.toNat - 'A'.toNat + 10

def valueIn (base : Nat) (digit : Char → Nat) (cs : List Char) : Nat :=
  cs.foldl (fun n c => n * base + digit c) 0

def character (n : Nat) : Option Char := if n.isValidChar then some (Char.ofNat n) else none

/-- The most digits a number may have. -/
structure Width where
  decimal : Nat
  hex : Nat

def width : Width := ⟨7, 6⟩

/-- The run of characters of a class that a semicolon follows. -/
def run (p : Char → Bool) (cs : List Char) : Option (List Char) :=
  let body := cs.takeWhile p
  if cs[body.length]? = some ';' && !body.isEmpty then some body else none

/-- The reference after an ampersand: its character, and how many characters it takes. -/
def read (cs : List Char) : Option (Char × Nat) :=
  match cs with
  | '#' :: rest =>
    let hex (ds : List Char) : Option (Char × Nat) := do
      let body ← run isHexDigit ds
      if width.hex < body.length then none
      else return (← character (valueIn 16 hexValue body), body.length + 3)
    match rest with
    | 'x' :: ds => hex ds
    | 'X' :: ds => hex ds
    | ds => do
      let body ← run Char.isDigit ds
      if width.decimal < body.length then none
      else return (← character (valueIn 10 hexValue body), body.length + 2)
  | _ => do
    let body ← run Char.isAlpha cs
    return (← names.lookup (String.ofList body), body.length + 1)

/-- Replaces the references of a text, past the first `skip` characters. -/
def decodeFrom : Nat → List Char → List Char
  | _, [] => []
  | skip + 1, _ :: cs => decodeFrom skip cs
  | 0, c :: cs =>
    if c = '&' then
      match read cs with
      | some (x, n) => x :: decodeFrom n cs
      | none => c :: decodeFrom 0 cs
    else c :: decodeFrom 0 cs

@[simp] theorem decodeFrom_nil (n : Nat) : decodeFrom n [] = [] := by cases n <;> rfl

theorem decodeFrom_drop (n : Nat) (cs : List Char) : decodeFrom n cs = decodeFrom 0 (cs.drop n) := by
  induction n generalizing cs with
  | zero => simp
  | succ n ih => cases cs with
    | nil => simp
    | cons c cs => simpa [decodeFrom] using ih cs

theorem decodeFrom_plain_append {cs : List Char} (h : '&' ∉ cs) (rest : List Char) :
    decodeFrom 0 (cs ++ rest) = cs ++ decodeFrom 0 rest := by
  induction cs with
  | nil => rfl
  | cons c cs ih =>
    simp only [List.mem_cons, not_or] at h
    simp [decodeFrom, Ne.symm h.1, ih h.2]

end Reference

def decodeReferences (s : String) : String := String.ofList (Reference.decodeFrom 0 s.toList)

end MarkupNesting
