import MarkupNesting.Proofs.Jsx.ModuleScan

/-! The search for a fault in a syntax tree. It leaves out what has no fault in it, and so comes to
the first node of all that is a fault. -/

namespace MarkupNesting.Jsx

namespace Node

/-- Whether a node itself stands for what does not fit or is missing. -/
def isFault (n : Node) : Bool := n.origin ≠ .read

def fault (n : Node) : Fault :=
  match n.origin with
  | .missing reported => .missing reported n.place
  | .error => .unexpected n.place
  | .read => .unplaced

def report (n : Node) : String :=
  match n.origin with
  | .missing reported => "Missing " ++ reported ++ " " ++ Fault.placeText n.place
  | .error | .read => "Unexpected token " ++ Fault.placeText n.place

theorem fault_ne_unplaced {n : Node} (h : n.isFault = true) : n.fault ≠ .unplaced := by
  rw [fault]
  cases ho : n.origin with
  | read => simp [isFault, ho] at h
  | error => exact Fault.noConfusion
  | missing reported => exact Fault.noConfusion

theorem message_fault {n : Node} (h : n.isFault = true) : n.fault.message = n.report := by
  rw [fault, report]
  cases ho : n.origin with
  | read => simp [isFault, ho] at h
  | error => rfl
  | missing reported => rfl

theorem walk_true (above : List Node) (n : Node) :
    n.walk (fun _ => true) above = (above, n) :: walkAll (fun _ => true) (n :: above) n.children := by
  rw [walk_mk, if_pos rfl]

theorem walkAll_singleton (into : Node → Bool) (above : List Node) (n : Node) :
    walkAll into above [n] = n.walk into above := by
  rw [walkAll, walkAll, List.append_nil]

theorem walkAll_append (into : Node → Bool) (above ms ns : List Node) :
    walkAll into above (ms ++ ns) = walkAll into above ms ++ walkAll into above ns := by
  induction ms with
  | nil => rfl
  | cons m ms ih => simp [walkAll, ih]

mutual

/-- A tree has a fault if one of its nodes is a fault. -/
theorem hasFault_eq_any (above : List Node) : (n : Node) →
    n.hasFault = (n.walk (fun _ => true) above).any (·.2.isFault)
  | ⟨kind, role, origin, named, place, text, children⟩ => by
    have h := anyFault_eq_any (⟨kind, role, origin, named, place, text, children⟩ :: above) children
    rw [hasFault, h, walk_true, List.any_cons]
    rfl

theorem anyFault_eq_any (above : List Node) : (ns : List Node) →
    anyFault ns = (walkAll (fun _ => true) above ns).any (·.2.isFault)
  | [] => rfl
  | n :: ns => by
    rw [anyFault, walkAll, List.any_append, hasFault_eq_any above n, anyFault_eq_any above ns]

end

mutual

theorem all_hasFault (above : List Node) : (n : Node) → {p : List Node × Node} →
    p ∈ n.walk (fun _ => true) above → p.2.isFault = true → above.all hasFault = true →
    p.1.all hasFault = true
  | ⟨kind, role, origin, named, place, text, children⟩, p, hp, hf, ha => by
    let n : Node := ⟨kind, role, origin, named, place, text, children⟩
    have hn : n.hasFault = true := by
      rw [n.hasFault_eq_any above]
      exact List.any_eq_true.mpr ⟨p, hp, hf⟩
    rw [walk_true] at hp
    obtain rfl | hp := List.mem_cons.mp hp
    · exact ha
    · exact all_hasFault_of_mem_walkAll (n :: above) children hp hf (by simp [hn, ha])

theorem all_hasFault_of_mem_walkAll (above : List Node) : (ns : List Node) →
    {p : List Node × Node} → p ∈ walkAll (fun _ => true) above ns → p.2.isFault = true →
    above.all hasFault = true → p.1.all hasFault = true
  | [], _, hp, _, _ => nomatch hp
  | n :: ns, p, hp, hf, ha => by
    rw [walkAll] at hp
    obtain hp | hp := List.mem_append.mp hp
    · exact all_hasFault above n hp hf ha
    · exact all_hasFault_of_mem_walkAll above ns hp hf ha

end

/-- The first fault is not missed by looking only into what has a fault. -/
theorem find?_walk_hasFault (top : Node) :
    (top.walk hasFault []).find? (·.2.isFault) =
      (top.walk (fun _ => true) []).find? (·.2.isFault) := by
  have hw : (top.walk (fun _ => true) []).filter (fun p => p.1.all hasFault) = top.walk hasFault [] :=
    top.filter_walk hasFault []
  rw [← hw, List.find?_filter]
  refine List.find?_congr fun p hp => ?_
  cases hf : p.2.isFault with
  | false => simp
  | true => simp [all_hasFault [] top hp hf rfl]

end Node

theorem faultFrom_fault {c : Cursor} (h : c.node.isFault = true) : faultFrom c = c.node.fault := by
  rw [faultFrom, Node.fault]
  cases ho : c.node.origin with
  | read => simp [Node.isFault, ho] at h
  | error => rfl
  | missing reported => rfl

theorem faultFrom_read {c : Cursor} (h : c.node.isFault = false) :
    faultFrom c = (c.next? c.node.hasFault).elim .unplaced faultFrom := by
  have ho : c.node.origin = .read := by simpa [Node.isFault] using h
  rw [faultFrom]
  simp only [ho]
  split
  · next d hn => rw [hn, Option.elim_some]
  · next hn => rw [hn, Option.elim_none]

theorem faultFrom_eq (c : Cursor) :
    faultFrom c = ((c.ahead Node.hasFault).find? (·.2.isFault)).elim .unplaced (·.2.fault) := by
  induction hl : c.left using Nat.strong_induction_on generalizing c with
  | _ left ih =>
    rw [Cursor.ahead_next?, List.find?_cons]
    cases hf : c.standing.2.isFault with
    | true => exact faultFrom_fault hf
    | false =>
      rw [faultFrom_read hf]
      cases hn : c.next? c.node.hasFault with
      | none => rfl
      | some d => exact ih d.left (hl ▸ c.left_next? hn) d rfl

/-- Where the search in a tree stands after some turns, if it is not over by then. It does not stop
at a fault here. -/
def searchAt (top : Node) (i : Nat) : Option (List Node × Node) :=
  (((·.bind fun c => c.next? c.node.hasFault)^[i]) (some (Cursor.start top))).map Cursor.standing

theorem ahead_start (into : Node → Bool) (top : Node) :
    (Cursor.start top).ahead into = top.walk into [] := by
  rw [Cursor.ahead, Cursor.start, Cursor.aheadFrom, List.append_nil, List.map_nil,
    Node.walkAll_singleton]

theorem searchAt_eq (top : Node) (i : Nat) : searchAt top i = (top.walk Node.hasFault [])[i]? := by
  rw [searchAt, Cursor.standing_iterate Node.hasFault, ahead_start]

variable {top : Node} {p : List Node × Node}

/-- The search comes to the first node of all that is a fault, and to no other fault before. -/
theorem exists_turn (hp : (top.walk (fun _ => true) []).find? (·.2.isFault) = some p) :
    ∃ i, searchAt top i = some p ∧ ∀ j < i, ∃ q, searchAt top j = some q ∧ q.2.isFault = false := by
  rw [← Node.find?_walk_hasFault] at hp
  obtain ⟨-, before, after, hw, hb⟩ := List.find?_eq_some_iff_append.mp hp
  refine ⟨before.length, ?_, fun j hj => ⟨before[j], ?_, ?_⟩⟩
  · rw [searchAt_eq, hw, List.getElem?_append_right le_rfl, Nat.sub_self]
    rfl
  · rw [searchAt_eq, hw, List.getElem?_append_left hj, List.getElem?_eq_getElem hj]
  · simpa using hb before[j] (List.getElem_mem hj)

theorem faultFrom_start (hp : (top.walk (fun _ => true) []).find? (·.2.isFault) = some p) :
    faultFrom (.start top) = p.2.fault := by
  rw [faultFrom_eq, ahead_start, Node.find?_walk_hasFault, hp, Option.elim_some]

end MarkupNesting.Jsx
