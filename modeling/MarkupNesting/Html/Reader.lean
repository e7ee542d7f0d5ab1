import MarkupNesting.Html.Node
import MarkupNesting.Html.TagScanner

/-! Reading a document that keeps the rules, one character at a time. The state holds the open
elements and what the characters since the last token have amounted to; a document that breaks the
rules is refused. Comments, declarations and character references leave no trace.

This is a second reading beside the grammar, which gives the same document for whatever is accepted
here. That the two agree has been checked on generated documents and is not proved. -/

namespace MarkupNesting.Html

namespace Reader

structure Tag where
  name : String
  attributes : List Node

/-- What the characters since the last token have amounted to. Runs hold their last character first. -/
inductive Mode where
  | failed
  | content
  | text (run : List Char)
  | reference
  | number
  /-- In a character reference, with as many more characters allowed. -/
  | letters (more : Nat)
  | decimal (more : Nat)
  | hex (more : Nat)
  | hexStart
  | opening
  | declaration
  | commentStart
  | comment (dashes : Nat)
  | doctype (rest : List Char)
  | doctypeGap (any : Bool)
  | doctypeRest
  | endOpening
  | endName (run : List Char)
  | endGap (name : String)
  | startName (run : List Char)
  | inTag (tag : Tag)
  | attributeName (tag : Tag) (run : List Char)
  | afterName (tag : Tag) (name : Node)
  | beforeValue (tag : Tag) (name : Node)
  | bareValue (tag : Tag) (name : Node) (run : List Char)
  | quoted (tag : Tag) (name : Node) (quote : Char) (blank : Bool) (run : List Char)
  | slash (tag : Tag)
  /-- In raw text, with what remains to match of its end. -/
  | raw (name : List Char) (rest : List Char)

/-- An element whose start tag has been read; its children with the last first. -/
structure Frame where
  name : String
  kind : Kind
  tag : Node
  children : List Node

structure State where
  mode : Mode
  /-- The open elements, innermost first. -/
  frames : List Frame
  /-- What stands outside all elements, the last first. -/
  outer : List Node

def ofRun (run : List Char) : String := String.ofList run.reverse

def addTo (n : Node) : List Frame → List Node → List Frame × List Node
  | [], outer => ([], n :: outer)
  | f :: fs, outer => ({ f with children := n :: f.children } :: fs, outer)

def Frame.node (f : Frame) : Node := .branch f.kind (f.tag :: f.children.reverse)

namespace State

def start : State := ⟨.content, [], []⟩

def moveTo (s : State) (m : Mode) : State := { s with mode := m }

def fail (s : State) : State := s.moveTo .failed

def add (s : State) (n : Node) : State :=
  let (frames, outer) := addTo n s.frames s.outer
  { s with frames, outer }

/-- Ends elements as long as the innermost passes a test; `carried` is the last element ended. -/
def closeFrames (p : String → Bool) (carried : List Node) :
    List Frame → List Node → List Frame × List Node
  | [], outer => ([], carried ++ outer)
  | f :: fs, outer =>
    let f := { f with children := carried ++ f.children }
    if p f.name then closeFrames p [f.node] fs outer else (f :: fs, outer)

def closeWhile (p : String → Bool) (s : State) : State :=
  let (frames, outer) := closeFrames p [] s.frames s.outer
  { s with frames, outer }

def makeRoom (s : State) (name : String) : State :=
  s.closeWhile fun top => isVoid top || !mayHold top name

/-- Whether the names of the open elements can be kept, with one more. -/
def hasRoom (s : State) (name : String) : Bool :=
  let tags := OpenTag.named name :: s.frames.map fun f => .named f.name
  OpenTags.kept tags == tags

def tagNode (kind : Kind) (t : Tag) : Node :=
  .branch kind (.leaf .tagName t.name :: t.attributes.reverse)

def rawNames : List (String × Kind) := [("script", .scriptElement), ("style", .styleElement)]

def openElement (s : State) (t : Tag) : State :=
  let name := lower t.name
  let s := s.makeRoom name
  if !s.hasRoom name then s.fail
  else
    let kind := (rawNames.lookup name).getD Kind.element
    let frame : Frame := ⟨name, kind, tagNode .startTag t, []⟩
    let raw := name.toList
    let mode := if kind = .element then Mode.content else .raw raw ('<' :: '/' :: raw)
    { s with frames := frame :: s.frames, mode }

def addClosed (s : State) (t : Tag) : State :=
  let name := lower t.name
  let s := s.makeRoom name
  if !s.hasRoom name || (rawNames.lookup name).isSome then s.fail
  else (s.add (.branch .element [tagNode .selfClosingTag t])).moveTo .content

/-- What an end tag does. It ends the innermost element if that has its name; otherwise that element
ends of itself as long as some open element is of the family of the name. Outside all elements there
is nothing for it to do. -/
def endFrames (name : String) (carried : List Node) :
    List Frame → List Node → Option (List Frame × List Node)
  | [], _ => none
  | f :: fs, outer =>
    let f := { f with children := carried ++ f.children }
    if f.name = name then some (addTo f.node fs outer)
    else if (f :: fs).any fun g => familyOf g.name == familyOf name then endFrames name [f.node] fs outer
    else some (f :: fs, outer)

def closeElement (s : State) (name : String) : State :=
  match endFrames name [] s.frames s.outer with
  | some (frames, outer) => { s with frames, outer }.moveTo .content
  | none => s.fail

def addText (s : State) (run : List Char) : State :=
  s.add (.leaf .text (ofRun (run.dropWhile TagScanner.isSpace)))

end State

def valueStops : List Char := ['<', '>', '\x22', '\x27', '=']

def isValueChar (c : Char) : Bool := !(TagScanner.isSpace c || valueStops.contains c)

def isAttributeChar (c : Char) : Bool := isValueChar c && c != '/'

def isQuote (c : Char) : Bool := c = '\x22' || c = '\x27'

def Tag.add (t : Tag) (n : Node) : Tag := { t with attributes := n :: t.attributes }

def nameNode (run : List Char) : Node := .leaf .attributeName (ofRun run)

def bare (name : Node) : Node := .branch .attributeEntry [name]

def valueNode (run : List Char) : Node := .leaf .attributeValue (ofRun run)

def quotedNode (run : List Char) : Node :=
  .branch .quotedValue (if run.isEmpty then [] else [valueNode run])

namespace State

variable (s : State)

def inContent (d c : Char) : State :=
  if d = '<' then s.moveTo .opening
  else if d = '&' then s.moveTo .reference
  else if d = '>' then s.fail
  else if TagScanner.isSpace d then s.moveTo .content
  else s.moveTo (.text [c])

def inReference (p : Char → Bool) (next : Nat → Mode) (more : Nat) (d c : Char) : State :=
  if d = ';' then s.moveTo .content
  else
    match more with
    | 0 => s.inContent d c
    | n + 1 => if p d then s.moveTo (next n) else s.inContent d c

def betweenAttributes (tag : Tag) (d c : Char) : State :=
  if TagScanner.isSpace d then s.moveTo (.inTag tag)
  else if d = '>' then s.openElement tag
  else if d = '/' then s.moveTo (.slash tag)
  else if isAttributeChar d then s.moveTo (.attributeName tag [c])
  else s.fail

/-- One character, `d` being the character in lower case and `c` the character as it stands. -/
def advance (d c : Char) : State :=
  if d = '\x00' then s.fail
  else
    match s.mode with
    | .failed => s
    | .content => s.inContent d c
    | .text run =>
      if d = '<' then (s.addText run).moveTo .opening
      else if d = '&' then (s.addText run).moveTo .reference
      else if d = '>' then s.fail
      else s.moveTo (.text (c :: run))
    | .reference =>
      if d = '#' then s.moveTo .number else if d.isAlpha then s.moveTo (.letters 29) else s.fail
    | .number =>
      if d = 'x' then s.moveTo .hexStart else if d.isDigit then s.moveTo (.decimal 4) else s.fail
    | .hexStart => if Reference.isHexDigit d then s.moveTo (.hex 5) else s.fail
    | .letters more => s.inReference Char.isAlpha .letters more d c
    | .decimal more => s.inReference Char.isDigit .decimal more d c
    | .hex more => s.inReference Reference.isHexDigit .hex more d c
    | .opening =>
      if d = '!' then s.moveTo .declaration
      else if d = '/' then s.moveTo .endOpening
      else if TagScanner.isNameChar d then s.moveTo (.startName [c])
      else s.fail
    | .declaration =>
      if d = '-' then s.moveTo .commentStart
      else if d = 'd' then s.moveTo (.doctype "octype".toList)
      else s.fail
    | .commentStart => if d = '-' then s.moveTo (.comment 0) else s.fail
    | .comment dashes =>
      if d = '-' then s.moveTo (.comment (dashes + 1))
      else if d = '>' && 2 ≤ dashes then s.moveTo .content
      else s.moveTo (.comment 0)
    | .doctype rest =>
      match rest with
      | x :: more =>
        if d = x then s.moveTo (if more.isEmpty then .doctypeGap false else .doctype more) else s.fail
      | [] => s.fail
    | .doctypeGap any =>
      if TagScanner.isSpace d then s.moveTo (.doctypeGap true)
      else if d = '<' then s.fail
      else if d = '>' then (if any then s.moveTo .content else s.fail)
      else s.moveTo .doctypeRest
    | .doctypeRest => if d = '>' then s.moveTo .content else s
    | .endOpening => if TagScanner.isNameChar d then s.moveTo (.endName [c]) else s.fail
    | .endName run =>
      if TagScanner.isNameChar d then s.moveTo (.endName (c :: run))
      else if d = '>' then s.closeElement (lower (ofRun run))
      else if TagScanner.isSpace d then s.moveTo (.endGap (lower (ofRun run)))
      else s.fail
    | .endGap name =>
      if d = '>' then s.closeElement name else if TagScanner.isSpace d then s else s.fail
    | .startName run =>
      if TagScanner.isNameChar d then s.moveTo (.startName (c :: run))
      else s.betweenAttributes ⟨ofRun run, []⟩ d c
    | .inTag tag => s.betweenAttributes tag d c
    | .attributeName tag run =>
      if isAttributeChar d then s.moveTo (.attributeName tag (c :: run))
      else if d = '=' then s.moveTo (.beforeValue tag (nameNode run))
      else if TagScanner.isSpace d then s.moveTo (.afterName tag (nameNode run))
      else s.betweenAttributes (tag.add (bare (nameNode run))) d c
    | .afterName tag name =>
      if TagScanner.isSpace d then s
      else if d = '=' then s.moveTo (.beforeValue tag name)
      else s.betweenAttributes (tag.add (bare name)) d c
    | .beforeValue tag name =>
      if TagScanner.isSpace d then s
      else if isQuote d then s.moveTo (.quoted tag name d true [])
      else if isValueChar d then s.moveTo (.bareValue tag name [c])
      else s.fail
    | .bareValue tag name run =>
      if isValueChar d then s.moveTo (.bareValue tag name (c :: run))
      else if d = '>' || TagScanner.isSpace d then
        s.betweenAttributes (tag.add (.branch .attributeEntry [name, valueNode run])) d c
      else s.fail
    | .quoted tag name quote blank run =>
      if d = quote then s.moveTo (.inTag (tag.add (.branch .attributeEntry [name, quotedNode run])))
      else if blank && d = '<' then s.fail
      else s.moveTo (.quoted tag name quote (blank && TagScanner.isSpace d) (c :: run))
    | .slash tag => if d = '>' then s.addClosed tag else s.fail
    | .raw name rest =>
      match rest with
      | x :: more =>
        if d = x then s.moveTo (if more.isEmpty then .endGap (String.ofList name) else .raw name more)
        else s.moveTo (.raw name ('<' :: '/' :: name))
      | [] => s.fail

def step (c : Char) : State := s.advance c.toLower c

def finish : Option Node :=
  let s := match s.mode with
    | .content | .letters _ | .decimal _ | .hex _ => s.moveTo .content
    | .text run => (s.addText run).moveTo .content
    | _ => s.fail
  match s.mode with
  | .content =>
    let s := s.closeWhile fun name => isVoid name || endsAtEnd name
    if s.frames.isEmpty then some (.branch .document s.outer.reverse) else none
  | _ => none

end State

end Reader

/-- The document of a text that keeps the rules. -/
def readDocument (source : String) : Option Node :=
  (source.toList.foldl Reader.State.step Reader.State.start).finish

end MarkupNesting.Html
