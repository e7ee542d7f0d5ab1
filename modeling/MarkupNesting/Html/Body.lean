import MarkupNesting.Html.Node

/-! The elements that the body of a document holds. The wrappers of a document are looked through,
and metadata stays out as long as the body has not begun. -/

namespace MarkupNesting.Html

/-- Elements that stay in the head as long as the body has not begun. -/
def metadataTags : List String :=
  ["base", "link", "meta", "title", "style", "script", "noscript", "template"]

/-- The elements of the body, last first, and whether it has begun. -/
structure Body where
  found : List Node := []
  begun : Bool := false

namespace Body

def begin (b : Body) : Body := { b with begun := true }

mutual

def take (b : Body) : Node → Body
  | ⟨kind, text, children⟩ =>
    let n : Node := ⟨kind, text, children⟩
    match kind with
    | .error => takeAll b children
    | .text => if isBlankText text then b else b.begin
    | _ =>
      if n.isElement then
        let tag := n.tag
        if tag = "html" || tag = "head" then takeAll b children
        else if tag = "body" then takeAll b.begin children
        else if !b.begun && metadataTags.contains tag then b
        else ⟨n :: b.found, true⟩
      else b

def takeAll (b : Body) : List Node → Body
  | [] => b
  | n :: ns => takeAll (take b n) ns

end

def elements (document : Node) : List Node := (takeAll {} document.children).found.reverse

end Body

end MarkupNesting.Html
