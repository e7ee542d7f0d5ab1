import MarkupNesting.Attributes
import MarkupNesting.Text.Blank
import MarkupNesting.Text.Reference

/-! The syntax tree of an HTML document, and what it says of its elements. A document that breaks
the rules has errors among its nodes. -/

namespace MarkupNesting.Html

inductive Kind where
  | document
  | error
  | text
  | element
  | scriptElement
  | styleElement
  | startTag
  | selfClosingTag
  | tagName
  | attributeEntry
  | attributeName
  | attributeValue
  | quotedValue
  | other
deriving DecidableEq, Repr

structure Node where
  kind : Kind
  text : String
  children : List Node

namespace Node

def leaf (kind : Kind) (text : String) : Node := ⟨kind, text, []⟩

def branch (kind : Kind) (children : List Node) : Node := ⟨kind, "", children⟩

def isElement (n : Node) : Bool :=
  n.kind = .element || n.kind = .scriptElement || n.kind = .styleElement

def openTag (n : Node) : Option Node :=
  n.children.find? fun c => c.kind = .startTag || c.kind = .selfClosingTag

/-- The name in the tag of an element, in lower case; empty if the tag has none. -/
def tag (n : Node) : String :=
  match n.openTag.bind fun t => t.children.head? with
  | some name => if name.kind = .tagName then lower name.text else ""
  | none => ""

def addPart (found : Option String × String) (part : Node) : Option String × String :=
  match part.kind with
  | .attributeName => (some (lower part.text), found.2)
  | .attributeValue => (found.1, decodeReferences part.text)
  | .quotedValue =>
    (found.1, match part.children.find? (·.kind = .attributeValue) with
      | some inner => decodeReferences inner.text
      | none => "")
  | _ => found

/-- The name of an attribute, in lower case, and its value; nothing if it has no name. -/
def namedValue (n : Node) : Option (String × String) :=
  let (name, value) := n.children.foldl addPart (none, "")
  name.map fun name => (name, value)

def namedValues (n : Node) : List (String × String) :=
  match n.openTag with
  | some t => (t.children.filter (·.kind = .attributeEntry)).filterMap namedValue
  | none => []

/-- The attributes of an element; of two with one name the first. -/
def attributes (n : Node) : Option Attributes :=
  let found := Attributes.ofFirst n.namedValues
  if found.isEmpty then none else some found

end Node

end MarkupNesting.Html
