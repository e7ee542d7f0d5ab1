import MarkupNesting.Proofs.Jsx.Conversion

/-! The scan of a module. Its cursor comes to every node that lies in no JSX, each once and in
order; what it finds is the JSX among them. -/

namespace MarkupNesting.Jsx

open Builder MarkupNesting.Tree

namespace Node

mutual

/-- The nodes of a tree in order, each with the nodes above it, innermost first. A node is looked
into if it passes a test. -/
def walk (into : Node → Bool) (above : List Node) : Node → List (List Node × Node)
  | ⟨kind, role, origin, named, place, text, children⟩ =>
    let n : Node := ⟨kind, role, origin, named, place, text, children⟩
    (above, n) :: if into n then walkAll into (n :: above) children else []

def walkAll (into : Node → Bool) (above : List Node) : List Node → List (List Node × Node)
  | [] => []
  | n :: ns => walk into above n ++ walkAll into above ns

end

variable (into : Node → Bool) (above : List Node)

theorem walk_mk (n : Node) :
    n.walk into above = (above, n) :: if into n then walkAll into (n :: above) n.children else [] := by
  cases n
  rfl

mutual

theorem filter_walk (above : List Node) : (n : Node) →
    (n.walk (fun _ => true) above).filter (fun p => p.1.all into) =
      if above.all into then n.walk into above else []
  | ⟨kind, role, origin, named, place, text, children⟩ => by
    have h := filter_walkAll (⟨kind, role, origin, named, place, text, children⟩ :: above) children
    rw [walk_mk, walk_mk, if_pos rfl, List.filter_cons, h, List.all_cons]
    cases above.all into with
    | false => simp
    | true => simp

theorem filter_walkAll (above : List Node) : (ns : List Node) →
    (walkAll (fun _ => true) above ns).filter (fun p => p.1.all into) =
      if above.all into then walkAll into above ns else []
  | [] => by simp [walkAll]
  | n :: ns => by
    have h1 := filter_walk above n
    have h2 := filter_walkAll above ns
    rw [walkAll, walkAll, List.filter_append, h1, h2]
    split <;> simp

end

end Node

namespace Cursor

variable (into : Node → Bool)

def standing (c : Cursor) : List Node × Node := (c.above.map (·.1), c.node)

def aheadFrom (above : List (Node × List Node)) : List (List Node × Node) :=
  match above with
  | [] => []
  | p :: ps => Node.walkAll into (ps.map (·.1)) p.2 ++ aheadFrom ps

/-- What a cursor is still to come to. -/
def ahead (c : Cursor) : List (List Node × Node) :=
  Node.walkAll into (c.above.map (·.1)) (c.node :: c.later) ++ aheadFrom into c.above

theorem ahead_past? (c : Cursor) :
    c.past?.elim [] (ahead into) =
      Node.walkAll into (c.above.map (·.1)) c.later ++ aheadFrom into c.above := by
  obtain ⟨n, later, above⟩ := c
  induction above generalizing n later with
  | nil =>
    rw [past?]
    cases later <;> rfl
  | cons p above ih =>
    rw [past?]
    cases later with
    | nil => exact ih p.1 p.2
    | cons m ms => rfl

/-- A turn takes the cursor from one place to the next. -/
theorem ahead_next? (c : Cursor) :
    c.ahead into = c.standing :: (c.next? (into c.node)).elim [] (ahead into) := by
  have hp := c.ahead_past? into
  rw [ahead, Node.walkAll, Node.walk_mk, List.cons_append, List.cons_append, List.append_assoc, ← hp]
  refine congrArg (c.standing :: ·) ?_
  cases hi : into c.node with
  | false => rfl
  | true =>
    cases hc : c.node.children with
    | nil => simp [next?, firstChild?, hc, Node.walkAll]
    | cons n ns => simp [next?, firstChild?, hc, ahead, aheadFrom, hp]

theorem standing_iterate (c : Cursor) (i : Nat) :
    (((·.bind fun d => d.next? (into d.node))^[i]) (some c)).map standing = (c.ahead into)[i]? := by
  induction i generalizing c with
  | zero => rw [ahead_next?]; rfl
  | succ i ih =>
    rw [Function.iterate_succ_apply, ahead_next?, List.getElem?_cons_succ, Option.bind_some]
    cases hn : c.next? (into c.node) with
    | some d => exact ih d
    | none =>
      rw [Function.iterate_fixed rfl]
      rfl

end Cursor

mutual

theorem filter_isJsx_walk (above : List Node) : (n : Node) →
    ((n.walk (!·.isJsx) above).map (·.2)).filter Node.isJsx = outermost n
  | ⟨kind, role, origin, named, place, text, children⟩ => by
    let n : Node := ⟨kind, role, origin, named, place, text, children⟩
    have h := filter_isJsx_walkAll (n :: above) children
    rw [Node.walk_mk, outermost, List.map_cons, List.filter_cons]
    cases n.isJsx with
    | true => simp
    | false => simp [n, h]

theorem filter_isJsx_walkAll (above : List Node) : (ns : List Node) →
    ((Node.walkAll (!·.isJsx) above ns).map (·.2)).filter Node.isJsx = outermostAll ns
  | [] => rfl
  | n :: ns => by
    have h1 := filter_isJsx_walk above n
    have h2 := filter_isJsx_walkAll above ns
    rw [Node.walkAll, List.map_append, List.filter_append, h1, h2, outermostAll]

end

/-- The scan of a module comes to the nodes that have no JSX above them, one at every turn and in
order, and is over after the last. What it gives are the trees of those that are JSX, all with names
from one series; it fails exactly if one of these cannot be given. -/
theorem module_scan (top : Node) :
    let places := (top.walk (fun _ => true) []).filter fun p => p.1.all (!·.isJsx)
    let roots := (places.map (·.2)).filter Node.isJsx
    (∀ i, (((·.bind fun c => c.next? (!c.node.isJsx))^[i]) (some (Cursor.start top))).map
        Cursor.standing = places[i]?) ∧
      rootsFrom (.start top) = roots.mapM (elementTree 0) ∧
      ∀ k, (∃ e, rootsFrom (.start top) k = .error e) ↔
        ∃ n ∈ roots, ∃ j e, elementTree 0 n j = .error e := by
  intro places roots
  have hplaces : places = top.walk (!·.isJsx) [] := top.filter_walk (!·.isJsx) []
  have hroots : roots = outermost top := by
    rw [← filter_isJsx_walk [] top, ← hplaces]
  refine ⟨fun i => ?_, ?_, fun k => ?_⟩
  · have hs := (Cursor.start top).standing_iterate (!·.isJsx) i
    have ha : (Cursor.start top).ahead (!·.isJsx) = top.walk (!·.isJsx) [] := by
      simp [Cursor.ahead, Cursor.aheadFrom, Cursor.start, Node.walkAll]
    rw [hplaces, ← ha]
    exact hs
  · rw [rootsFrom_start, hroots, funext (elementTree_eq_give 0), mapM_give]
  · simp [rootsFrom_start, hroots, giveAll_fails_iff, elementTree_eq_give, give_fails_iff]

end MarkupNesting.Jsx
