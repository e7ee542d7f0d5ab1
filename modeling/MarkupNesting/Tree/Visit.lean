import MarkupNesting.Tree

/-! Visiting the nodes of a tree one by one, every node before its children. -/

namespace MarkupNesting

structure Visit where
  level : Nat
  path : List String
  node : Tree

namespace Tree

/-- The trees still to be visited, each with its level, and the path to the last node visited. -/
def visitsFrom (path : List String) : List (Nat × Tree) → List Visit
  | [] => []
  | (level, t) :: pending =>
    let path := path.take level ++ [t.tag]
    ⟨level, path, t⟩ :: visitsFrom path (t.children.map (fun c => (level + 1, c)) ++ pending)
termination_by pending => countAll (pending.map (·.2))
decreasing_by
  obtain ⟨id, tag, children, depth, attributes⟩ := t
  simp [countAll, count, Function.comp_def]

def visits (root : Tree) : List Visit := visitsFrom [] [(0, root)]

end Tree

end MarkupNesting
