import MarkupNesting.Jsx.Cursor
import MarkupNesting.Jsx.TagName
import MarkupNesting.Numbering
import MarkupNesting.Tree

/-! The tree of a JSX expression. An element holds the elements written in it and those that stand
in braces, perhaps in parentheses, with nothing else. -/

namespace MarkupNesting.Jsx

mutual

def elementTree (depth : Nat) : Node → Builder Tree
  | ⟨kind, role, origin, named, place, text, children⟩ => do
    Builder.check depth
    let n : Node := ⟨kind, role, origin, named, place, text, children⟩
    let trees ← if kind = .selfClosingElement then pure [] else contents depth children
    return ⟨← Builder.fresh, tagOf n, trees, some depth, none⟩

def contents (depth : Nat) : List Node → Builder (List Tree)
  | [] => return []
  | ⟨kind, role, origin, named, place, text, children⟩ :: ns => do
    let n : Node := ⟨kind, role, origin, named, place, text, children⟩
    let own ←
      if !named then pure []
      else if n.isJsx then (fun t => [t]) <$> elementTree (depth + 1) n
      else if kind = .container then held depth children
      else pure []
    return own ++ (← contents depth ns)

/-- The tree of the JSX that stands alone among nodes, comments apart. -/
def held (depth : Nat) : List Node → Builder (List Tree)
  | [] => return []
  | ⟨kind, role, origin, named, place, text, children⟩ :: ns => do
    let n : Node := ⟨kind, role, origin, named, place, text, children⟩
    if !named || kind = .comment then held depth ns
    else if kind = .parenthesized then held depth children
    else if n.isJsx then (fun t => [t]) <$> elementTree (depth + 1) n
    else return []

end

def rootAt (n : Node) : Builder (List Tree) :=
  if n.isJsx then (fun t => [t]) <$> elementTree 0 n else return []

/-- The trees of the outermost JSX that a cursor comes to, in order. JSX is not looked into. -/
def rootsFrom (c : Cursor) : Builder (List Tree) := do
  let own ← rootAt c.node
  match _h : c.next? (!c.node.isJsx) with
  | some d => return own ++ (← rootsFrom d)
  | none => return own
termination_by c.left
decreasing_by exact c.left_next? ‹_›

def faultFrom (c : Cursor) : Fault :=
  match c.node.origin with
  | .missing reported => .missing reported c.node.place
  | .error => .unexpected c.node.place
  | .read =>
    match _h : c.next? c.node.hasFault with
    | some d => faultFrom d
    | none => .unplaced
termination_by c.left
decreasing_by exact c.left_next? ‹_›

/-- The tree of a module. Several roots get a common root, which is named last. -/
def moduleTree (top : Node) : Builder Tree := do
  let roots ← rootsFrom (.start top)
  match roots with
  | [] => throw (if top.hasFault then .syntaxFault (faultFrom (.start top)) else .noJsx)
  | [t] => return t
  | _ => return ⟨← Builder.fresh, rootTag, roots, some 0, none⟩

def treeOf (top : Node) : Except Failure Tree := (moduleTree top).run' 0

end MarkupNesting.Jsx
