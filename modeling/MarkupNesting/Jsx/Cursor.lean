import MarkupNesting.Jsx.Node

/-! A cursor in a syntax tree. It goes from a node to its first child, to its next sibling and to
the node above it, and never out of the tree that it started at. -/

namespace MarkupNesting.Jsx

/-- A node with the siblings after it, and the same for the nodes above it, innermost first. -/
structure Cursor where
  node : Node
  later : List Node
  above : List (Node × List Node)

namespace Cursor

variable (c : Cursor)

def start (top : Node) : Cursor := ⟨top, [], []⟩

def firstChild? : Option Cursor :=
  match c.node.children with
  | [] => none
  | n :: ns => some ⟨n, ns, (c.node, c.later) :: c.above⟩

def nextSibling? : Option Cursor :=
  match c.later with
  | [] => none
  | n :: ns => some ⟨n, ns, c.above⟩

def parent? : Option Cursor :=
  match c.above with
  | [] => none
  | (n, later) :: above => some ⟨n, later, above⟩

theorem length_above_parent? {c d : Cursor} (h : c.parent? = some d) :
    d.above.length < c.above.length := by
  obtain ⟨n, later, _ | ⟨⟨m, ns⟩, above⟩⟩ := c
  · cases h
  · cases h
    exact Nat.lt_succ_self _

/-- The first node after the subtree of the node: its next sibling, or that of the innermost node
above it which has one. -/
def past? (c : Cursor) : Option Cursor :=
  match c.nextSibling? with
  | some d => some d
  | none =>
    match _h : c.parent? with
    | some d => past? d
    | none => none
termination_by c.above.length
decreasing_by exact length_above_parent? ‹_›

/-- The next node in order, after the subtree of the node if that is not to be looked into. -/
def next? (into : Bool) : Option Cursor :=
  match into, c.firstChild? with
  | true, some d => some d
  | _, _ => c.past?

def pending : List Node := c.node :: (c.later ++ c.above.flatMap (·.2))

def left : Nat := Node.countAll c.pending

theorem pending_past? : c.past?.elim [] pending = c.pending.tail := by
  obtain ⟨n, later, above⟩ := c
  induction above generalizing n later with
  | nil =>
    rw [past?]
    cases later <;> rfl
  | cons p above ih =>
    rw [past?]
    cases later with
    | nil => exact ih p.1 p.2
    | cons m ms => rfl

theorem pending_next? (into : Bool) :
    (c.next? into).elim [] pending = (if into then c.node.children else []) ++ c.pending.tail := by
  have h := c.pending_past?
  obtain ⟨⟨kind, role, origin, named, place, text, _ | ⟨n, ns⟩⟩, later, above⟩ := c
  · cases into <;> exact h
  · cases into with
    | false => exact h
    | true => simp [next?, firstChild?, pending]

theorem left_next? {into : Bool} {d : Cursor} (h : c.next? into = some d) : d.left < c.left := by
  have hp := c.pending_next? into
  have hc : c.left = c.node.count + Node.countAll c.pending.tail := rfl
  have hn : c.node.count = Node.countAll c.node.children + 1 := by
    cases c.node
    rfl
  rw [h, Option.elim_some] at hp
  rw [left, hp, hc, Node.countAll_append]
  split
  · omega
  · simp only [Node.countAll]
    omega

end Cursor

end MarkupNesting.Jsx
