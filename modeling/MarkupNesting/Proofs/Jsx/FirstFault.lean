import MarkupNesting.Proofs.Jsx.FaultSearch
import MarkupNesting.Proofs.Places
import MarkupNesting.Proofs.WholeTree

/-! The fault that a source is refused with. It is the first error of the syntax tree, and its place
is where this begins in the source. -/

namespace MarkupNesting.Jsx

open Grammar

namespace Module

mutual

def entriesOf : Outline → List Entry
  | .node e cs => e :: entriesOfAll cs

def entriesOfAll : List Outline → List Entry
  | [] => []
  | o :: os => entriesOf o ++ entriesOfAll os

end

def isFault (e : Entry) : Bool := e.missing || e.isError

/-- What an entry that is an error or missing is reported as. One that is both is missing. -/
def report (t : Text) (e : Entry) : String :=
  (if e.missing then "Missing " ++ e.kind ++ " " else "Unexpected token ") ++
    Fault.placeText ⟨t.row e.start, t.column e.start⟩

theorem isFault_ofEntry (t : Text) (e : Entry) (ns : List Node) :
    (ofEntry t e ns).isFault = isFault e := by
  rw [ofEntry, Node.isFault, originOf, isFault]
  cases e.missing <;> cases e.isError <;> rfl

theorem report_ofEntry (t : Text) {e : Entry} (h : isFault e = true) (ns : List Node) :
    (ofEntry t e ns).report = report t e := by
  rw [ofEntry, Node.report, originOf, report]
  cases hm : e.missing with
  | true => rfl
  | false =>
    have he : e.isError = true := by simpa [isFault, hm] using h
    simp [he]

section

variable {α : Type} {t : Text} {f : Node → α} {g : Entry → α}

theorem find?_ofEntry (hfg : ∀ e ns, isFault e = true → f (ofEntry t e ns) = g e) {ns : List Node}
    {es : List Entry} (above : List Node) (e : Entry)
    (h : ∀ above, ((Node.walkAll (fun _ => true) above ns).find? (·.2.isFault)).map (f ·.2) =
      (es.find? isFault).map g) :
    (((ofEntry t e ns).walk (fun _ => true) above).find? (·.2.isFault)).map (f ·.2) =
      ((e :: es).find? isFault).map g := by
  rw [Node.walk_true, List.find?_cons, List.find?_cons, isFault_ofEntry]
  cases hf : isFault e with
  | true => exact congrArg some (hfg e ns hf)
  | false => exact h _

mutual

theorem find?_node (hfg : ∀ e ns, isFault e = true → f (ofEntry t e ns) = g e) (above : List Node) :
    (o : Outline) →
    ((Node.walkAll (fun _ => true) above (node t o)).find? (·.2.isFault)).map (f ·.2) =
      ((entriesOf o).find? isFault).map g
  | .node e cs => by
    have hcs (above : List Node) := find?_nodes hfg above cs
    rw [node, entriesOf]
    split
    · rw [Node.walkAll_singleton, find?_ofEntry hfg above e hcs]
    · next hn =>
      -- An entry that is left out is punctuation, and so is all below it.
      have hf : isFault e = false := by simp_all [isFault]
      have hnil : nodes t cs = [] := by simp_all
      rw [List.find?_cons, hf, ← hcs above, hnil]

theorem find?_nodes (hfg : ∀ e ns, isFault e = true → f (ofEntry t e ns) = g e) (above : List Node) :
    (os : List Outline) →
    ((Node.walkAll (fun _ => true) above (nodes t os)).find? (·.2.isFault)).map (f ·.2) =
      ((entriesOfAll os).find? isFault).map g
  | [] => rfl
  | o :: os => by
    rw [nodes, Node.walkAll_append, entriesOfAll, List.find?_append, List.find?_append, Option.map_or,
      Option.map_or, find?_node hfg above o, find?_nodes hfg above os]

end

theorem find?_top (hfg : ∀ e ns, isFault e = true → f (ofEntry t e ns) = g e) (o : Outline) :
    (((top t o).walk (fun _ => true) []).find? (·.2.isFault)).map (f ·.2) =
      ((entriesOf o).find? isFault).map g := by
  obtain ⟨e, cs⟩ := o
  exact find?_ofEntry hfg [] e fun above => find?_nodes hfg above cs

end

/-- Whether the first error of a source begins at a position. A source without a syntax tree is in
error from its start on. -/
def FirstFaultAt (typed : Bool) (source : String) (i : Nat) : Prop :=
  match outline? typed source with
  | some o => ∃ e, (entriesOf o).find? isFault = some e ∧ e.start = i
  | none => i = 0

theorem place_of_find? {typed : Bool} {source : String} {p : List Node × Node}
    (hp : ((ofText typed source).walk (fun _ => true) []).find? (·.2.isFault) = some p) :
    ∃ i, FirstFaultAt typed source i ∧ p.2.place = placeAfter (source.toList.take i) := by
  rw [ofText] at hp
  split at hp
  · next o ho =>
    have hplace := find?_top (t := .ofString source) (f := Node.place)
      (g := fun e => ⟨(Text.ofString source).row e.start, (Text.ofString source).column e.start⟩)
      (fun _ _ _ => rfl) o
    rw [hp, Option.map_some, eq_comm, Option.map_eq_some_iff] at hplace
    obtain ⟨e, he, hplace⟩ := hplace
    rw [Text.place_ofString] at hplace
    refine ⟨e.start, ?_, hplace.symm⟩
    rw [FirstFaultAt, ho]
    exact ⟨e, he, rfl⟩
  · next ho =>
    obtain rfl := List.mem_singleton.mp (List.mem_of_find?_eq_some hp)
    refine ⟨0, ?_, rfl⟩
    rw [FirstFaultAt, ho]

end Module

namespace Reader.State

def OnlyJsx (s : State) : Prop := ∀ n ∈ s.roots, n.isJsx = true

namespace OnlyJsx

variable {s : State}

theorem start : State.start.OnlyJsx := List.forall_mem_nil _

theorem place (h : s.OnlyJsx) (braces : Braces) {n : Node} (hn : n.isJsx = true) :
    (s.place braces n).OnlyJsx := by
  unfold State.place
  split
  · exact List.forall_mem_cons.mpr ⟨hn, h⟩
  · exact h

theorem leave (h : s.OnlyJsx) : s.leave.OnlyJsx := by
  unfold State.leave
  split
  · exact h
  · next f fs _ =>
    have hs : { s with frames := fs }.OnlyJsx := h
    exact hs.place f.braces rfl

theorem inOpening (h : s.OnlyJsx) (braces : Braces) (name : Node) (c : Char) :
    (s.inOpening braces name c).OnlyJsx := by
  rw [State.inOpening]
  repeat' split
  all_goals exact h

theorem step (h : s.OnlyJsx) (c : Char) : (s.step c).OnlyJsx := by
  rw [State.step]
  repeat' split
  all_goals first
    | exact h
    | exact h.leave
    | exact h.place _ rfl
    | exact h.inOpening _ _ c

theorem foldl (h : s.OnlyJsx) (cs : List Char) : (cs.foldl State.step s).OnlyJsx := by
  induction cs generalizing s with
  | nil => exact h
  | cons c cs ih => exact ih (h.step c)

end OnlyJsx

end Reader.State

/-- A module that is read directly has JSX or no fault. -/
theorem hasFault_of_readModule {source : String} {top : Node} (h : readModule source = some top)
    (hj : outermost top = []) : top.hasFault = false := by
  have hs : (source.toList.foldl Reader.State.step .start).OnlyJsx :=
    Reader.State.OnlyJsx.start.foldl source.toList
  have ht : top = Reader.branch .other (source.toList.foldl Reader.State.step .start).roots.reverse := by
    rw [readModule, Reader.State.finish] at h
    split at h
    · exact (Option.some.inj h).symm
    · exact (Option.some.inj h).symm
    · cases h
  have hr : (source.toList.foldl Reader.State.step .start).roots.reverse = [] := by
    rw [← outermostAll_jsx fun n hn => hs n (List.mem_reverse.mp hn), ← hj, ht]
    rfl
  rw [ht, hr]
  rfl

mutual

theorem outermost_eq_nil_iff (above : List Node) : (n : Node) →
    (outermost n = [] ↔ ∀ p ∈ n.walk (fun _ => true) above, p.2.isJsx = false)
  | ⟨kind, role, origin, named, place, text, children⟩ => by
    let n : Node := ⟨kind, role, origin, named, place, text, children⟩
    have h := outermostAll_eq_nil_iff (n :: above) children
    rw [Node.walk_true, outermost, List.forall_mem_cons]
    cases hj : n.isJsx with
    | true => simp
    | false => simpa [n, hj] using h

theorem outermostAll_eq_nil_iff (above : List Node) : (ns : List Node) →
    (outermostAll ns = [] ↔ ∀ p ∈ Node.walkAll (fun _ => true) above ns, p.2.isJsx = false)
  | [] => by simp [outermostAll, Node.walkAll]
  | n :: ns => by
    rw [outermostAll, Node.walkAll, List.append_eq_nil_iff, outermost_eq_nil_iff above n,
      outermostAll_eq_nil_iff above ns, List.forall_mem_append]

end

/-- A module without JSX is refused, for a fault if it has one; any other has a tree, whatever its
depth. -/
theorem treeOf_cases (top : Node) :
    (outermost top = [] ∧
        treeOf top = .error (if top.hasFault then .syntaxFault (faultFrom (.start top)) else .noJsx)) ∨
      (outermost top ≠ [] ∧ ∃ t, treeOf top = withinLimit t) := by
  cases ht : wholeTree top with
  | none =>
    have hj := wholeTree_eq_none_iff.mp ht
    exact .inl ⟨hj, treeOf_none hj⟩
  | some t =>
    have hj : outermost top ≠ [] := fun h => nomatch ht.symm.trans (wholeTree_eq_none_iff.mpr h)
    exact .inr ⟨hj, t, treeOf_eq_withinLimit ht⟩

theorem treeOf_eq_syntaxFault_iff {top : Node} {f : Fault} :
    treeOf top = .error (.syntaxFault f) ↔
      outermost top = [] ∧ top.hasFault = true ∧ f = faultFrom (.start top) := by
  obtain ⟨hj, ht⟩ | ⟨hj, t, ht⟩ := treeOf_cases top
  · rw [ht]
    cases top.hasFault <;> simp [hj, eq_comm]
  · rw [ht, withinLimit]
    split <;> simp [hj]

theorem treeOf_eq_noJsx_iff {top : Node} :
    treeOf top = .error .noJsx ↔ outermost top = [] ∧ top.hasFault = false := by
  obtain ⟨hj, ht⟩ | ⟨hj, t, ht⟩ := treeOf_cases top
  · rw [ht]
    cases top.hasFault <;> simp [hj]
  · rw [ht, withinLimit]
    split <;> simp [hj]

/-- The first fault of a module without JSX stands where the first error of the source begins. -/
theorem place_of_fault {typed : Bool} {source : String} {p : List Node × Node}
    (hj : outermost (moduleOf typed source) = [])
    (hp : ((moduleOf typed source).walk (fun _ => true) []).find? (·.2.isFault) = some p) :
    ∃ i, Module.FirstFaultAt typed source i ∧ p.2.place = placeAfter (source.toList.take i) := by
  rw [moduleOf] at hj hp
  cases hr : readModule source with
  | none =>
    rw [hr] at hp
    exact Module.place_of_find? hp
  | some top =>
    rw [hr] at hj hp
    have hf := hasFault_of_readModule hr hj
    rw [top.hasFault_eq_any []] at hf
    exact absurd (List.find?_some hp) (List.any_eq_false.mp hf p (List.mem_of_find?_eq_some hp))

/-- A tree has a fault exactly if one of its nodes is a fault. The search leaves out what has none,
and yet stops at the first node of all that is a fault; the report names the place of that node. The
nodes that a module is made of keep the first error of the syntax tree, with its report. A source is
refused for a fault exactly if its module has no JSX and has a fault; what is reported is the first
one, at the row and the byte column after all that stands before the first error of the syntax tree.
A source is refused for want of JSX exactly if its module has neither. -/
theorem first_fault_reported :
    (∀ top : Node,
      let nodes := top.walk (fun _ => true) []
      (top.hasFault = true ↔ ∃ p ∈ nodes, p.2.isFault = true) ∧
        (top.hasFault = true → ∃ p, nodes.find? (·.2.isFault) = some p ∧
          (∃ i, searchAt top i = some p ∧
            ∀ j < i, ∃ q, searchAt top j = some q ∧ q.2.isFault = false) ∧
          faultFrom (.start top) ≠ .unplaced ∧ (faultFrom (.start top)).message = p.2.report)) ∧
    (∀ (t : Text) (o : Outline),
      ((Node.walkAll (fun _ => true) [] (Module.node t o)).find? (·.2.isFault)).map (·.2.report) =
        ((Module.entriesOf o).find? Module.isFault).map (Module.report t)) ∧
    ∀ (typed : Bool) (source : String),
      let nodes := (moduleOf typed source).walk (fun _ => true) []
      ((∃ f, parse typed source = .error (.syntaxFault f)) ↔
          (∀ p ∈ nodes, p.2.isJsx = false) ∧ ∃ p ∈ nodes, p.2.isFault = true) ∧
        (∀ f, parse typed source = .error (.syntaxFault f) →
          ∃ p, nodes.find? (·.2.isFault) = some p ∧ f.message = p.2.report ∧
            ∃ i, Module.FirstFaultAt typed source i ∧
              p.2.place = placeAfter (source.toList.take i)) ∧
        (parse typed source = .error .noJsx ↔
          (∀ p ∈ nodes, p.2.isJsx = false) ∧ ∀ p ∈ nodes, p.2.isFault = false) := by
  have hfault (top : Node) : top.hasFault = true ↔
      ∃ p ∈ top.walk (fun _ => true) [], p.2.isFault = true := by
    rw [top.hasFault_eq_any [], List.any_eq_true]
  have hfirst {top : Node} (h : top.hasFault = true) :
      ∃ p, (top.walk (fun _ => true) []).find? (·.2.isFault) = some p ∧ p.2.isFault = true := by
    obtain ⟨p, hp⟩ := Option.isSome_iff_exists.mp (List.find?_isSome.mpr ((hfault top).mp h))
    exact ⟨p, hp, List.find?_some (p := fun q : List Node × Node => q.2.isFault) hp⟩
  refine ⟨fun top => ⟨hfault top, fun h => ?_⟩, ?_, fun typed source => ?_⟩
  · obtain ⟨p, hp, hpf⟩ := hfirst h
    have hf := faultFrom_start hp
    refine ⟨p, hp, exists_turn hp, ?_, ?_⟩
    · exact hf ▸ Node.fault_ne_unplaced hpf
    · rw [hf, Node.message_fault hpf]
  · intro t o
    exact Module.find?_node (fun _ ns h => Module.report_ofEntry t h ns) [] o
  · have hjsx := outermost_eq_nil_iff [] (moduleOf typed source)
    refine ⟨?_, fun f h => ?_, ?_⟩
    · simp only [parse, treeOf_eq_syntaxFault_iff, exists_and_left, exists_eq, and_true]
      rw [hjsx, hfault]
    · obtain ⟨hj, hh, rfl⟩ := treeOf_eq_syntaxFault_iff.mp h
      obtain ⟨p, hp, hpf⟩ := hfirst hh
      refine ⟨p, hp, ?_, place_of_fault hj hp⟩
      rw [faultFrom_start hp, Node.message_fault hpf]
    · rw [parse, treeOf_eq_noJsx_iff, hjsx, Bool.eq_false_iff, ne_eq, hfault]
      simp

/-- A module with a semicolon missing and an error after it, and a source of a single line break. -/
theorem first_fault_reported_semicolon :
    let word : Node := ⟨.name, .none, .read, true, ⟨0, 0⟩, "let", []⟩
    let semicolon : Node := ⟨.other, .none, .missing ";", false, ⟨1, 3⟩, "", []⟩
    let statement : Node := ⟨.other, .none, .read, true, ⟨1, 0⟩, "", [word, semicolon]⟩
    let error : Node := ⟨.other, .none, .error, true, ⟨2, 0⟩, "", []⟩
    let top : Node := ⟨.other, .none, .read, true, ⟨0, 0⟩, "", [word, statement, error]⟩
    top.hasFault = true ∧ (faultFrom (.start top)).message = "Missing ; (2:3)" ∧
      parse false "\n" = .error .noJsx := by
  intro word semicolon statement error top
  have h : top.hasFault = true := by decide
  obtain ⟨hsearch, -, hparse⟩ := first_fault_reported
  obtain ⟨p, hp, -, -, hm⟩ := (hsearch top).2 h
  have hp' : (top.walk (fun _ => true) []).find? (·.2.isFault) =
      some ([statement, top], semicolon) := rfl
  obtain rfl := Option.some.inj (hp.symm.trans hp')
  refine ⟨h, hm.trans (by decide +kernel), (hparse false "\n").2.2.mpr ?_⟩
  decide

end MarkupNesting.Jsx
