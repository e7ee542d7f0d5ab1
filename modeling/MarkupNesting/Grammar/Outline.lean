import MarkupNesting.Grammar.Parse

/-! The finished tree as its readers see it: hidden nodes are replaced by their children, and each
node knows its kind, its field and its place in the text. -/

namespace MarkupNesting.Grammar

structure Entry where
  kind : String
  named : Bool
  isError : Bool
  missing : Bool
  field : Option String
  start : Nat
  stop : Nat

inductive Outline where
  | node (entry : Entry) (children : List Outline)

namespace Outline

variable {σ : Type} (L : Language)

def entryOf (f : Facts σ) (otherName : Option Alias) (field : Option String) : Entry :=
  let (_, named, name) := L.display f.symbol
  { kind := (otherName.map (·.name)).getD name
    named := (otherName.map (·.shown)).getD named
    isError := f.symbol = .error
    missing := f.missing
    field, start := f.start, stop := f.stop }

/-- The nodes that are seen of a list of trees under a node of the given shape. Fields of a hidden
tree pass to what is seen of it. -/
def seenIn (shape : Shape) (inherited : Option String) : List (Subtree σ) → List Outline
  | [] => []
  | .node f cs :: rest =>
    let (otherName, field) := match f.extra, shape with
      | false, (otherName, field, _) :: _ => (otherName, field)
      | _, _ => (none, none)
    let shape := if f.extra then shape else shape.drop 1
    let field := field.or inherited
    let seen :=
      if otherName.isSome || f.visible then
        [node (entryOf L f otherName field) (seenIn (L.shapeOf f.shape) none cs)]
      else seenIn (L.shapeOf f.shape) field cs
    seen ++ seenIn shape inherited rest

def ofSubtree : Subtree σ → Outline
  | .node f cs => node (entryOf L f none none) (seenIn L (L.shapeOf f.shape) none cs)

end Outline

end MarkupNesting.Grammar
