import MarkupNesting.Grammar.Outline
import MarkupNesting.Jsx.Node
import MarkupNesting.Jsx.ScriptScanner
import MarkupNesting.Jsx.TypedScript

/-! Modules as the grammars of scripts read them. -/

namespace MarkupNesting.Jsx

open Grammar

def plainLanguage : Language := .ofDescription plainGrammar

def typedLanguage : Language := .ofDescription typedGrammar

namespace Module

def kindNames : List (String × Kind) :=
  [("jsx_element", .element), ("jsx_self_closing_element", .selfClosingElement),
    ("jsx_fragment", .fragment), ("jsx_opening_element", .openingElement),
    ("jsx_expression", .container), ("parenthesized_expression", .parenthesized),
    ("comment", .comment), ("identifier", .name), ("jsx_identifier", .name),
    ("property_identifier", .name), ("jsx_namespace_name", .name), ("member_expression", .dotted),
    ("nested_identifier", .dotted)]

def kindOf (e : Entry) : Kind :=
  if e.named && !e.isError then (kindNames.lookup e.kind).getD .other else .other

def roleOf : Option String → Role
  | some "name" => .name
  | some "object" => .object
  | some "property" => .property
  | _ => .none

def originOf (e : Entry) : Origin :=
  if e.missing then .missing e.kind else if e.isError then .error else .read

/-- The node of an entry, over nodes. -/
def ofEntry (t : Text) (e : Entry) (children : List Node) : Node :=
  let kind := kindOf e
  ⟨kind, roleOf e.field, originOf e, e.named || e.isError, ⟨t.row e.start, t.column e.start⟩,
    if kind = .name || kind = .dotted then t.slice e.start e.stop else "", children⟩

mutual

def node (t : Text) : Outline → List Node
  | .node e cs =>
    let children := nodes t cs
    if e.named || e.isError || e.missing || !children.isEmpty then [ofEntry t e children] else []

def nodes (t : Text) : List Outline → List Node
  | [] => []
  | o :: os => node t o ++ nodes t os

end

/-- The syntax tree of a text, by the grammar with types or the one without. -/
def outline? (typed : Bool) (source : String) : Option Outline :=
  let L := if typed then typedLanguage else plainLanguage
  (parse ⟨L, scanner typed, Text.ofString source⟩).map (Outline.ofSubtree L)

/-- The module of a syntax tree; its root stays. -/
def top (t : Text) : Outline → Node
  | .node e cs => ofEntry t e (nodes t cs)

def ofText (typed : Bool) (source : String) : Node :=
  match outline? typed source with
  | some o => top (Text.ofString source) o
  | none => ⟨.other, .none, .error, true, ⟨0, 0⟩, "", []⟩

end Module

end MarkupNesting.Jsx
