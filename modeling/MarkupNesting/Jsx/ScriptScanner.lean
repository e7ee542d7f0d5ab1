import MarkupNesting.Grammar.Machine

/-! The scanner for scripts. It says where a line break stands for a semicolon, and it reads what no
pattern can: the characters of a template, the text between tags, the mark of a conditional
expression, and the line comments of old. Typed scripts have rules of their own. -/

namespace MarkupNesting.Jsx

open Grammar

namespace ScriptScanner

inductive Kind where
  | semicolon
  | template
  | conditional
  | oldComment
  | logicalOr
  | escape
  | regex
  | text
  | signatureEnd
deriving DecidableEq

def Kind.index : Kind → Nat
  | semicolon => 0
  | template => 1
  | conditional => 2
  | oldComment => 3
  | logicalOr => 4
  | escape => 5
  | regex => 6
  | text => 7
  | signatureEnd => 8

variable (t : Text)

def isSpace (c : Char) : Bool := c = ' ' || ('\t' ≤ c && c ≤ '\r')

def isLineEnd (c : Char) : Bool := c = '\n' || c = '\u2028' || c = '\u2029'

def spaceEnd (i : Nat) : Nat := t.skipWhile isSpace i

def lineEnd (i : Nat) : Nat := t.skipWhile (fun c => c ≠ '\x00' && !isLineEnd c) i

/-- What space and comments leave open: whether a semicolon may stand for them, where they end, and
whether a comment was among them. -/
structure Gap where
  verdict : Option Bool
  stop : Nat
  comment : Bool

def blockComment : Nat → Bool → Nat → Option (Nat × Bool) × Nat
  | 0, _, i => (none, i)
  | fuel + 1, broken, i =>
    let c := t.get i
    if c = '\x00' then (none, i)
    else if c = '*' then
      if t.get (i + 1) = '/' then (some (i + 2, broken), i + 2) else blockComment fuel broken (i + 1)
    else blockComment fuel (broken || isLineEnd c) (i + 1)

/-- Reads space and comments. Where the verdict is not wanted at the first block comment, `through`
reads on to the end of them all; a slash that begins no comment rejects. -/
def gap (typed through : Bool) : Nat → Bool → Bool → Nat → Gap
  | 0, _, comment, i => ⟨some true, i, comment⟩
  | fuel + 1, broken, comment, i =>
    let i := spaceEnd t i
    if t.get i ≠ '/' then ⟨some true, i, comment⟩
    else match t.get (i + 1) with
      | '/' => gap typed through fuel broken true (lineEnd t (i + 2))
      | '*' =>
        match blockComment t (t.size - i) broken (i + 2) with
        | (some (stop, broken), _) =>
          if !typed && !through && t.get stop ≠ '/' then
            ⟨if broken then some true else none, stop, true⟩
          else gap typed through fuel broken true stop
        | (none, stop) => gap typed through fuel broken comment stop
      | _ => ⟨some false, i + 1, comment⟩

/-- Whether a line that begins at a character cannot follow on from the line before. -/
def startsStatement (i : Nat) : Bool :=
  match t.get i with
  | '+' => t.get (i + 1) = '+'
  | '-' => t.get (i + 1) = '-'
  | '!' => t.get (i + 1) ≠ '='
  | 'i' =>
    if t.get (i + 1) ≠ 'n' then true
    else if !(t.get (i + 2)).isAlpha then false
    else !t.hasAt "stanceof" (i + 2) || (t.get (i + 10)).isAlpha
  | _ => true

def carriesOn (typed : Bool) (wants : Kind → Bool) (c : Char) : Option Bool :=
  if typed then
    if ['`', ',', '.', ';', '*', '%', '>', '<', '=', '?', '^', '|', '&', '/', ':'].contains c then
      some true
    else if c = '\x7b' then (if wants .signatureEnd then some true else none)
    else if c = '(' || c = '[' then (if wants .logicalOr then some true else none)
    else none
  else
    if ['`', ',', ':', ';', '*', '%', '>', '<', '=', '[', '(', '?', '^', '|', '&', '/'].contains c then
      some true
    else none

def afterLine (typed : Bool) (wants : Kind → Bool) (comment : Bool) (i : Nat) : Bool × Bool :=
  let g := gap t typed true (t.size - i + 1) false comment i
  if g.verdict = some false then (false, g.comment)
  else
    let c := t.get g.stop
    let own := match carriesOn typed wants c with
      | some b => !b
      | none =>
        if !typed && c = '.' then (t.get (g.stop + 1)).isDigit else startsStatement t g.stop
    (own, g.comment)

def semicolon (typed : Bool) (wants : Kind → Bool) : Nat → Bool → Nat → Bool × Bool
  | 0, comment, _ => (false, comment)
  | fuel + 1, comment, i =>
    let c := t.get i
    if c = '\x00' then (true, comment)
    else if typed then
      if c = '\x7d' then
        let i := spaceEnd t (i + 1)
        (if t.get i = ':' then wants .logicalOr else true, comment)
      else if !isSpace c then (false, comment)
      else if c = '\n' then afterLine t typed wants comment (i + 1)
      else semicolon typed wants fuel comment (i + 1)
    else
      let g : Gap := if c = '/' then gap t typed false (t.size - i + 1) false comment i
        else ⟨none, i, comment⟩
      let next := t.get g.stop
      if g.verdict = some false then (false, g.comment)
      else if g.verdict = some true && !wants .logicalOr && next ≠ ',' && next ≠ '=' then
        (true, g.comment)
      else if next = '\x7d' then (true, g.comment)
      else if isLineEnd next then afterLine t typed wants g.comment (g.stop + 1)
      else if !isSpace next then (false, g.comment)
      else semicolon typed wants fuel g.comment (g.stop + 1)

/-- The mark of a conditional expression: a question mark that no other token begins with. -/
def conditional (typed : Bool) (i : Nat) : Option (Nat × Nat) :=
  let i := spaceEnd t i
  if t.get i ≠ '?' then none
  else
    let c := t.get (i + 1)
    if c = '?' || (typed && c = '.') then none
    else
      let k := if typed then spaceEnd t (i + 1) else i + 1
      let c := t.get k
      if typed && (c = ':' || c = ')' || c = ',') then none
      else if c = '.' && !(t.get (k + 1)).isDigit then none
      else some (i, i + 1)

def oldComment (i start : Nat) : Option (Nat × Nat) :=
  let k := t.skipWhile (fun c => isSpace c || c = '\u2028' || c = '\u2029') i
  let start := if k = i then start else k
  let body := if t.hasAt "<!--" k then some (k + 4) else if t.hasAt "-->" k then some (k + 3) else none
  body.map fun b => (start, lineEnd t b)

/-- The end of the text between tags, and whether there is more to it than space with a line break. -/
def between : Nat → Bool → Bool → Nat → Nat × Bool
  | 0, _, saw, i => (i, saw)
  | fuel + 1, broken, saw, i =>
    let c := t.get i
    if ['\x00', '<', '>', '\x7b', '\x7d', '&'].contains c then (i, saw)
    else if c = '\n' then between fuel true saw (i + 1)
    else
      let broken := broken && isSpace c
      between fuel broken (saw || !broken) (i + 1)

def template : Nat → Bool → Nat → Option Nat
  | 0, _, _ => none
  | fuel + 1, any, i =>
    let stop := if any then some i else none
    match t.get i with
    | '`' => stop
    | '\x00' => none
    | '$' => if t.get (i + 1) = '\x7b' then stop else template fuel true (i + 1)
    | '\\' => stop
    | _ => template fuel true (i + 1)

def scan (typed : Bool) (i : Nat) (wanted : Nat → Bool) (_ : Unit) : Option (ScannedToken Unit) :=
  let wants (k : Kind) : Bool := wanted k.index
  let token (k : Kind) (r : Nat × Nat) : ScannedToken Unit := ⟨k.index, r.1, r.2, ()⟩
  let fuel := t.size - i + 2
  if wants .template then
    if wants .semicolon then none
    else (template t fuel false i).map fun stop => token .template (i, stop)
  else
    let (stop, saw) := if wants .text then between t fuel false false i else (i, false)
    if saw then some (token .text (i, stop))
    else if wants .semicolon || (typed && wants .signatureEnd) then
      let (own, comment) := semicolon t typed wants fuel false stop
      if own then some (token .semicolon (i, i))
      else if !comment && wants .conditional then (conditional t typed stop).map (token .conditional)
      else none
    else if wants .conditional then (conditional t typed stop).map (token .conditional)
    else if wants .oldComment && !wants .logicalOr && !wants .escape && !wants .regex then
      (oldComment t stop i).map (token .oldComment)
    else none

end ScriptScanner

def scanner (typed : Bool) : Grammar.Scanner Unit := ⟨(), fun t => ScriptScanner.scan t typed⟩

end MarkupNesting.Jsx
