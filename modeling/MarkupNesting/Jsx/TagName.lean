import MarkupNesting.Jsx.Node
import MarkupNesting.Text.Blank

/-! The names of JSX elements. -/

namespace MarkupNesting.Jsx

def fragmentTag : String := "Fragment"

def unknownTag : String := "unknown"

def orUnknown (text : String) : String := if text.isEmpty then unknownTag else text

def splitLastDot (text : String) : Option (String × String) :=
  let cs := text.toList.reverse
  let last := cs.takeWhile (· ≠ '.')
  match cs.drop last.length with
  | [] => none
  | _ :: before => some (String.ofList before.reverse, String.ofList last.reverse)

/-- A name with a dot whose sides are not told apart. -/
def dottedText (text : String) : String :=
  match splitLastDot text with
  | some (object, property) => orUnknown (trim object) ++ "." ++ orUnknown (trim property)
  | none => orUnknown text

mutual

def resolve : Node → String
  | ⟨kind, _, _, _, _, text, children⟩ =>
    match kind with
    | .name => orUnknown text
    | .dotted =>
      match resolveRole .object children, resolveRole .property children with
      | none, none => dottedText text
      | object, property => object.getD unknownTag ++ "." ++ property.getD unknownTag
    | _ => unknownTag

def resolveRole (role : Role) : List Node → Option String
  | [] => none
  | n :: ns => if n.role = role then some (resolve n) else resolveRole role ns

end

/-- The tag of a JSX node. Without a name it is a fragment. -/
def tagOf (n : Node) : String :=
  let named (holder : Node) : String := (resolveRole .name holder.children).getD fragmentTag
  match n.kind with
  | .fragment => fragmentTag
  | .selfClosingElement => named n
  | _ =>
    match n.children.find? fun c => c.named && c.kind = .openingElement with
    | some opening => named opening
    | none => unknownTag

end MarkupNesting.Jsx
