import MarkupNesting.Html.Body
import MarkupNesting.Numbering
import MarkupNesting.Tree

/-! The tree of a document. Rows that stand directly in a table get the table body that they imply.
Names are given to children before their parents. -/

namespace MarkupNesting.Html

def impliedBody (depth : Nat) (rows : List Tree) : Builder (List Tree) := do
  if rows.isEmpty then return []
  Builder.check depth
  return [⟨← Builder.fresh, "tbody", rows, some depth, none⟩]

mutual

def elementTree (depth : Nat) : Node → Builder Tree
  | ⟨kind, text, children⟩ => do
    Builder.check depth
    let n : Node := ⟨kind, text, children⟩
    let trees ← contents (n.tag = "table") depth [] children
    return ⟨← Builder.fresh, n.tag, trees, some depth, n.attributes⟩

/-- The trees of what an element at a depth holds; `rows` are those of a run that is under way. -/
def contents (table : Bool) (depth : Nat) (rows : List Tree) : List Node → Builder (List Tree)
  | [] => impliedBody (depth + 1) rows
  | n :: ns => do
    if !n.isElement then contents table depth rows ns
    else if table && n.tag = "tr" then
      let row ← elementTree (depth + 2) n
      contents table depth (rows ++ [row]) ns
    else
      let body ← impliedBody (depth + 1) rows
      let t ← elementTree (depth + 1) n
      let rest ← contents table depth [] ns
      return body ++ t :: rest

end

/-- The tree of the elements of a body. Several get a common root, which is named first. -/
def bodyTree : List Node → Builder Tree
  | [] => throw .noElements
  | [n] => elementTree 0 n
  | ns => do
    let id ← Builder.fresh
    let children ← ns.mapM (elementTree 1)
    return ⟨id, rootTag, children, some 0, none⟩

def treeOf (document : Node) : Except Failure Tree := (bodyTree (Body.elements document)).run' 0

end MarkupNesting.Html
