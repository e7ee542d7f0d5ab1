import MarkupNesting.Grammar.Outline
import MarkupNesting.Html.Node
import MarkupNesting.Html.Rules
import MarkupNesting.Html.TagScanner

/-! Documents that break the rules: the cheapest reading of the text by the grammar, with what does
not fit in error nodes.

The grammar sees the text in lower case. This changes nothing that it gives: names of tags are
compared without case, every set of characters in a token holds a letter in both cases or in
neither, the word `doctype` is spelled with such sets, and lower case moves no position. What nodes
say is cut from the text as it is. -/

namespace MarkupNesting.Html

open Grammar

namespace Recovered

def kindNames : List (String × Kind) :=
  [("document", .document), ("text", .text), ("element", .element),
    ("script_element", .scriptElement), ("style_element", .styleElement), ("start_tag", .startTag),
    ("self_closing_tag", .selfClosingTag), ("tag_name", .tagName), ("attribute", .attributeEntry),
    ("attribute_name", .attributeName), ("attribute_value", .attributeValue),
    ("quoted_attribute_value", .quotedValue)]

def kindOf (e : Entry) : Kind :=
  if e.isError then .error else (kindNames.lookup e.kind).getD .other

/-- The text of a node: for the name of a tag the name that begins there, and for other nodes what
they cover. -/
def textOf (t : Text) (kind : Kind) (e : Entry) : String :=
  match kind with
  | .tagName => t.slice e.start (min e.stop (t.skipWhile TagScanner.isNameChar e.start))
  | .text | .attributeName | .attributeValue => t.slice e.start e.stop
  | _ => ""

mutual

def node (t : Text) : Outline → List Node
  | .node e cs =>
    if e.named || e.isError then
      let kind := kindOf e
      [⟨kind, textOf t kind e, nodes t cs⟩]
    else []

def nodes (t : Text) : List Outline → List Node
  | [] => []
  | o :: os => node t o ++ nodes t os

end

def document (source : String) : Node :=
  match parse ⟨language, scanner, Text.ofString (lower source)⟩ with
  | some tree =>
    match node (Text.ofString source) (Outline.ofSubtree language tree) with
    | n :: _ => n
    | [] => .branch .document []
  | none => .branch .document []

end Recovered

end MarkupNesting.Html
