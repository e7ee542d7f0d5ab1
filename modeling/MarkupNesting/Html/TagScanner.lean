import MarkupNesting.Grammar.Machine
import MarkupNesting.Html.Vocabulary

/-! The scanner for HTML in lower case. It keeps the open elements, and so it knows where an element
ends that has no end tag, which end tags end nothing, and where raw text ends. -/

namespace MarkupNesting.Html

open Grammar

/-- An element whose start tag has been read; `lost` stands for one whose name was not kept. -/
inductive OpenTag where
  | named (name : String)
  | lost
deriving DecidableEq

namespace OpenTag

/-- How much room an open tag takes: a known name one unit, another name its length and two. -/
def room : OpenTag → Nat
  | named n => match familyOf n with
    | .known _ => 1
    | .custom => 2 + min n.length 255
  | lost => 1

def family? : OpenTag → Option Family
  | named n => some (familyOf n)
  | lost => none

def shortened : OpenTag → OpenTag
  | named n => named (n.take 255).toString
  | lost => lost

/-- The open tags that are kept from one token to the next, outermost first: the names of those for
which 1024 units have room. -/
def kept (used : Nat) : List OpenTag → List OpenTag
  | [] => []
  | t :: ts =>
    if 1024 ≤ used + t.room then (t :: ts).map fun _ => lost
    else t.shortened :: kept (used + t.room) ts

end OpenTag

abbrev OpenTags := List OpenTag

def OpenTags.kept (tags : OpenTags) : OpenTags := (OpenTag.kept 4 tags.reverse).reverse

namespace TagScanner

inductive Kind where
  | startName
  | scriptName
  | styleName
  | endName
  | wrongEndName
  | selfClose
  | impliedEnd
  | rawText
  | comment

def Kind.index : Kind → Nat
  | startName => 0
  | scriptName => 1
  | styleName => 2
  | endName => 3
  | wrongEndName => 4
  | selfClose => 5
  | impliedEnd => 6
  | rawText => 7
  | comment => 8

def isSpace (c : Char) : Bool := c = ' ' || ('\t' ≤ c && c ≤ '\r')

def isNameChar (c : Char) : Bool := c.isAlphanum || c = '-' || c = ':'

def token (kind : Kind) (start stop : Nat) (tags : OpenTags) : Option (ScannedToken OpenTags) :=
  some ⟨kind.index, start, stop, tags.kept⟩

/-- Where raw text ends: before the first match of `closing`, `rest` being what remains to match. A
failed match is taken up again only past the character that failed. -/
def rawStop (t : Text) (closing : List Char) : Nat → List Char → Nat → Nat → Nat
  | 0, _, _, mark => mark
  | _, [], _, mark => mark
  | fuel + 1, c :: rest, i, mark =>
    let x := t.get i
    if x = '\x00' then mark
    else if x = c then rawStop t closing fuel rest (i + 1) mark
    else rawStop t closing fuel closing (i + 1) (i + 1)

def commentStop (t : Text) : Nat → Nat → Nat → Option Nat
  | 0, _, _ => none
  | fuel + 1, dashes, i =>
    let c := t.get i
    if c = '\x00' then none
    else if c = '-' then commentStop t fuel (dashes + 1) (i + 1)
    else if c = '>' && 2 ≤ dashes then some (i + 1)
    else commentStop t fuel 0 (i + 1)

def name (t : Text) (i : Nat) : String := t.slice i (t.skipWhile isNameChar i)

/-- Whether the innermost element ends before a tag whose `<` ends at `i`, or at the end of the text. -/
def endsBefore (t : Text) (i : Nat) (tags : OpenTags) : Bool :=
  let closing := t.get i = '/'
  let i := if closing then i + 1 else i
  let n := name t i
  let stop := t.skipWhile isNameChar i
  match tags with
  | [] => false
  | top :: _ =>
    let void := match top with
      | .named m => isVoid m
      | .lost => false
    if !closing && void then true
    else if n = "" && stop < t.size then false
    else if closing then top ≠ .named n && tags.any (·.family? == some (familyOf n))
    else match top with
      | .named m => !mayHold m n || (documentNames.contains m && t.size ≤ stop)
      | .lost => false

def scan (t : Text) (i : Nat) (wanted : Nat → Bool) (tags : OpenTags) :
    Option (ScannedToken OpenTags) :=
  let wants (k : Kind) : Bool := wanted k.index
  if wants .rawText && !wants .startName && !wants .endName then
    match tags with
    | [] => none
    | top :: _ =>
      let closing := (if top = .named "script" then "</script" else "</style").toList
      token .rawText i (rawStop t closing (t.size - i + 1) closing i i) tags
  else
    let i := t.skipWhile isSpace i
    match t.get i with
    | '<' =>
      if t.get (i + 1) = '!' then
        if t.hasAt "--" (i + 2) then
          (commentStop t (t.size - i) 0 (i + 4)).bind fun stop => token .comment i stop tags
        else none
      else if wants .impliedEnd && endsBefore t (i + 1) tags then token .impliedEnd i i (tags.drop 1)
      else none
    | '\x00' =>
      if wants .impliedEnd && endsBefore t i tags then token .impliedEnd i i (tags.drop 1) else none
    | '/' =>
      if wants .selfClose && t.get (i + 1) = '>' && !tags.isEmpty then
        token .selfClose i (i + 2) (tags.drop 1)
      else none
    | _ =>
      if (wants .startName || wants .endName) && !wants .rawText then
        let n := name t i
        let stop := t.skipWhile isNameChar i
        if n = "" then none
        else if wants .startName then
          let kind :=
            if n = "script" then .scriptName else if n = "style" then .styleName else .startName
          token kind i stop (.named n :: tags)
        else match tags with
          | top :: rest => if top = .named n then token .endName i stop rest
            else token .wrongEndName i stop tags
          | [] => token .wrongEndName i stop tags
      else none

end TagScanner

def scanner : Scanner OpenTags := ⟨[], TagScanner.scan⟩

end MarkupNesting.Html
