import MarkupNesting.Proofs.Walk
import MarkupNesting.Proofs.WholeTree

/-! The table bodies that rows imply. In a sketch of an element they are told apart from the
elements of the source; without them a sketch is the element with the elements directly in it, and
in those, as they stand in the source. -/

namespace MarkupNesting

namespace Tree

theorem exists_of_mem_namedAll {n : Nat} {ts : List Tree} {c : Tree} (h : c ∈ namedAll n ts) :
    ∃ t ∈ ts, ∃ k, c = t.named k := by
  induction ts generalizing n with
  | nil => simp [namedAll] at h
  | cons t ts ih =>
    rw [namedAll, List.mem_cons] at h
    rcases h with rfl | h
    · exact ⟨t, by simp, n, rfl⟩
    · obtain ⟨s, hs, hk⟩ := ih h
      exact ⟨s, by simp [hs], hk⟩

theorem exists_of_mem_walkAll {level : Nat} {above : List String} {ts : List Tree} {v : Visit}
    (h : v ∈ walkAll level above ts) : ∃ t ∈ ts, v ∈ t.walk level above := by
  rwa [walkAll_eq_flatMap, List.mem_flatMap] at h

@[simp] theorem named_tag (n : Nat) (t : Tree) : (t.named n).tag = t.tag := by
  cases t
  rfl

end Tree

namespace Html

open MarkupNesting.Tree

/-- An element with what is in it; the table bodies that rows imply are marked. -/
inductive Sketch where
  | element (n : Node) (held : List Sketch)
  | body (rows : List Sketch)

namespace Sketch

def isBody : Sketch → Bool
  | element _ _ => false
  | body _ => true

def isRow : Sketch → Bool
  | element n _ => n.tag = "tr"
  | body _ => false

mutual

/-- An element with the elements directly in it, and so on. What is no element is left out, with all
that is in it. -/
def bare : Node → Sketch
  | ⟨kind, text, children⟩ => element ⟨kind, text, children⟩ (bareAll children)

def bareAll : List Node → List Sketch
  | [] => []
  | n :: ns => if n.isElement then bare n :: bareAll ns else bareAll ns

end

mutual

/-- A sketch with every implied body replaced by the rows in it. -/
def unwrap : Sketch → List Sketch
  | element n held => [element n (unwrapAll held)]
  | body rows => unwrapAll rows

def unwrapAll : List Sketch → List Sketch
  | [] => []
  | s :: ss => unwrap s ++ unwrapAll ss

end

theorem unwrapAll_append (rs ss : List Sketch) :
    unwrapAll (rs ++ ss) = unwrapAll rs ++ unwrapAll ss := by
  induction rs with
  | nil => rfl
  | cons r rs ih => simp [unwrapAll, ih]

mutual

/-- The tree of a sketch at a depth, with no names. An implied body has no attributes. -/
def tree (depth : Nat) : Sketch → Tree
  | element n held => ⟨"", n.tag, treeAll (depth + 1) held, some depth, n.attributes⟩
  | body rows => ⟨"", "tbody", treeAll (depth + 1) rows, some depth, none⟩

def treeAll (depth : Nat) : List Sketch → List Tree
  | [] => []
  | s :: ss => tree depth s :: treeAll depth ss

end

theorem treeAll_eq_map (depth : Nat) (ss : List Sketch) : treeAll depth ss = ss.map (tree depth) := by
  induction ss with
  | nil => rfl
  | cons s ss ih => rw [treeAll, ih, List.map_cons]

/-- Bodies stand in tables only, each around a run of rows that could not be longer: no row is left
outside, no body is empty, and no two stand side by side. -/
inductive Grouped : Sketch → Prop
  | table {n : Node} {held : List Sketch} : n.tag = "table" → (∀ s ∈ held, Grouped s) →
      (∀ s ∈ held, s.isRow = false) →
      held.IsChain (fun r s => ¬ (r.isBody = true ∧ s.isBody = true)) → Grouped (element n held)
  | other {n : Node} {held : List Sketch} : n.tag ≠ "table" → (∀ s ∈ held, Grouped s) →
      (∀ s ∈ held, s.isBody = false) → Grouped (element n held)
  | body {rows : List Sketch} : rows ≠ [] → (∀ s ∈ rows, Grouped s) →
      (∀ s ∈ rows, s.isRow = true) → Grouped (body rows)

theorem Grouped.tag_ne_row {s : Sketch} (h : s.Grouped) (depth n level : Nat) (above : List String)
    {v : Visit} (hv : v ∈ ((s.tree depth).named n).walk level above) :
    v.node.tag = "table" → ∀ c ∈ v.node.children, c.tag ≠ "tr" := by
  have hbelow {held : List Sketch} {d m l : Nat} {a : List String}
      (ih : ∀ s ∈ held, ∀ (d n l : Nat) (a : List String),
        v ∈ ((s.tree d).named n).walk l a → v.node.tag = "table" →
          ∀ c ∈ v.node.children, c.tag ≠ "tr")
      (hv : v ∈ walkAll l a (namedAll m (treeAll d held))) :
      v.node.tag = "table" → ∀ c ∈ v.node.children, c.tag ≠ "tr" := by
    obtain ⟨t, ht, hw⟩ := exists_of_mem_walkAll hv
    obtain ⟨u, hu, k, rfl⟩ := exists_of_mem_namedAll ht
    rw [treeAll_eq_map] at hu
    obtain ⟨s, hs, rfl⟩ := List.mem_map.mp hu
    exact ih s hs d k l a hw
  induction h generalizing depth n level above with
  | @table m held hm _ hrow _ ih =>
    rw [tree, named, walk, List.mem_cons] at hv
    rcases hv with rfl | hv
    · rintro - c hc
      obtain ⟨t, ht, k, rfl⟩ := exists_of_mem_namedAll hc
      rw [treeAll_eq_map] at ht
      obtain ⟨s, hs, rfl⟩ := List.mem_map.mp ht
      cases s with
      | element e _ => simpa [tree, isRow] using hrow _ hs
      | body rows => simp [tree]
    · exact hbelow ih hv
  | @other m held hm _ _ ih =>
    rw [tree, named, walk, List.mem_cons] at hv
    rcases hv with rfl | hv
    · exact fun ht => absurd ht hm
    · exact hbelow ih hv
  | @body rows _ _ _ ih =>
    have hb : "tbody" ≠ "table" := by decide
    rw [tree, named, walk, List.mem_cons] at hv
    rcases hv with rfl | hv
    · exact fun ht => absurd ht hb
    · exact hbelow ih hv

end Sketch

open Sketch

def rowsSketch (rows : List Sketch) : List Sketch := if rows.isEmpty then [] else [.body rows]

mutual

def sketch : Node → Sketch
  | ⟨kind, text, children⟩ =>
    let n : Node := ⟨kind, text, children⟩
    .element n (sketches (n.tag = "table") [] children)

def sketches (table : Bool) (rows : List Sketch) : List Node → List Sketch
  | [] => rowsSketch rows
  | n :: ns =>
    if !n.isElement then sketches table rows ns
    else if table && n.tag = "tr" then sketches table (rows ++ [sketch n]) ns
    else rowsSketch rows ++ sketch n :: sketches table [] ns

end

@[simp] theorem isBody_sketch (n : Node) : (sketch n).isBody = false := by
  cases n
  rfl

@[simp] theorem isRow_sketch (n : Node) : (sketch n).isRow = decide (n.tag = "tr") := by
  cases n
  rfl

theorem unwrapAll_rowsSketch (rows : List Sketch) : unwrapAll (rowsSketch rows) = unwrapAll rows := by
  cases rows with
  | nil => rfl
  | cons r rs => simp [rowsSketch, unwrapAll, unwrap]

mutual

/-- Without the implied bodies nothing is left but the elements, all of them and in their order. -/
theorem unwrap_sketch : (n : Node) → unwrap (sketch n) = [bare n]
  | ⟨kind, text, children⟩ => by
    have h := unwrapAll_sketches ((⟨kind, text, children⟩ : Node).tag = "table") children []
    rw [sketch, unwrap, h, bare]
    rfl

theorem unwrapAll_sketches (table : Bool) : (ns : List Node) → (rows : List Sketch) →
    unwrapAll (sketches table rows ns) = unwrapAll rows ++ bareAll ns
  | [], rows => by rw [sketches, unwrapAll_rowsSketch, bareAll, List.append_nil]
  | n :: ns, rows => by
    have hn := unwrap_sketch n
    rw [sketches, bareAll]
    by_cases he : n.isElement = true
    · by_cases hr : (table && n.tag = "tr") = true
      · have h := unwrapAll_sketches table ns (rows ++ [sketch n])
        simp [he, hr, h, hn, unwrapAll_append, unwrapAll]
      · have h := unwrapAll_sketches table ns []
        simp [he, hr, h, hn, unwrapAll_append, unwrapAll, unwrapAll_rowsSketch]
    · simp [he, unwrapAll_sketches table ns rows]

end

theorem treeAll_rowsSketch (depth : Nat) (rows : List Sketch) :
    treeAll depth (rowsSketch rows) = rowsShape depth (treeAll (depth + 1) rows) := by
  cases rows <;> rfl

mutual

theorem tree_sketch (depth : Nat) : (n : Node) → (sketch n).tree depth = shape depth n
  | ⟨kind, text, children⟩ => by
    have h := treeAll_sketches ((⟨kind, text, children⟩ : Node).tag = "table") depth children []
    rw [sketch, tree, h, shape, treeAll]

theorem treeAll_sketches (table : Bool) (depth : Nat) : (ns : List Node) → (rows : List Sketch) →
    treeAll (depth + 1) (sketches table rows ns) =
      shapes table depth (treeAll (depth + 2) rows) ns
  | [], rows => treeAll_rowsSketch (depth + 1) rows
  | n :: ns, rows => by
    rw [sketches, shapes]
    split
    · exact treeAll_sketches table depth ns rows
    · split
      · have ht := tree_sketch (depth + 2) n
        have h := treeAll_sketches table depth ns (rows ++ [sketch n])
        rw [h]
        simp [treeAll_eq_map, ht]
      · have ht := tree_sketch (depth + 1) n
        have h := treeAll_sketches table depth ns []
        have hb := treeAll_rowsSketch (depth + 1) rows
        simp only [treeAll_eq_map] at h hb
        simp [treeAll_eq_map, ht, h, hb]

end

theorem isRow_rowsSketch {rows : List Sketch} : ∀ s ∈ rowsSketch rows, s.isRow = false := by
  intro s hs
  rw [rowsSketch] at hs
  split at hs
  · simp at hs
  · rw [List.mem_singleton.mp hs]
    rfl

theorem isRow_sketches (ns : List Node) (rows : List Sketch) :
    ∀ s ∈ sketches true rows ns, s.isRow = false := by
  induction ns generalizing rows with
  | nil => exact isRow_rowsSketch
  | cons n ns ih =>
    rw [sketches]
    split
    · exact ih rows
    · split
      · exact ih _
      · next hr =>
        intro s hs
        rw [List.mem_append, List.mem_cons] at hs
        rcases hs with hs | rfl | hs
        · exact isRow_rowsSketch s hs
        · simpa using hr
        · exact ih [] s hs

/-- The run under way ends in one body, and after it comes an element. -/
theorem isChain_sketches (table : Bool) (ns : List Node) (rows : List Sketch) :
    (sketches table rows ns).IsChain fun r s => ¬ (r.isBody = true ∧ s.isBody = true) := by
  induction ns generalizing rows with
  | nil =>
    rw [sketches, rowsSketch]
    split
    · exact .nil
    · exact .singleton _
  | cons n ns ih =>
    rw [sketches]
    split
    · exact ih rows
    · split
      · exact ih _
      · have h : (sketch n :: sketches table [] ns).IsChain
            fun r s => ¬ (r.isBody = true ∧ s.isBody = true) :=
          List.isChain_cons.mpr ⟨fun s _ => by simp, ih []⟩
        rw [rowsSketch]
        split
        · exact h
        · exact List.isChain_cons_cons.mpr ⟨by simp, h⟩

theorem isBody_sketches (ns : List Node) : ∀ s ∈ sketches false [] ns, s.isBody = false := by
  induction ns with
  | nil => simp [sketches, rowsSketch]
  | cons n ns ih =>
    rw [sketches]
    split
    · exact ih
    · simpa [rowsSketch] using ih

mutual

theorem grouped_sketch : (n : Node) → (sketch n).Grouped
  | ⟨kind, text, children⟩ => by
    by_cases ht : (⟨kind, text, children⟩ : Node).tag = "table"
    · have h := grouped_sketches true children [] (by simp)
      rw [sketch, decide_eq_true ht]
      exact .table ht h (isRow_sketches children []) (isChain_sketches true children [])
    · have h := grouped_sketches false children [] (by simp)
      rw [sketch, decide_eq_false ht]
      exact .other ht h (isBody_sketches children)

theorem grouped_sketches (table : Bool) : (ns : List Node) → (rows : List Sketch) →
    (∀ r ∈ rows, r.isRow = true ∧ r.Grouped) → ∀ s ∈ sketches table rows ns, s.Grouped
  | [], rows, h => grouped_rowsSketch h
  | n :: ns, rows, h => by
    have hn := grouped_sketch n
    rw [sketches]
    split
    · exact grouped_sketches table ns rows h
    · split
      · next hr =>
        refine grouped_sketches table ns (rows ++ [sketch n]) fun r hmem => ?_
        rcases List.mem_append.mp hmem with hmem | hmem
        · exact h r hmem
        · rw [List.mem_singleton.mp hmem, isRow_sketch]
          simp only [Bool.and_eq_true] at hr
          exact ⟨hr.2, hn⟩
      · have hns := grouped_sketches table ns [] (by simp)
        intro s hs
        rw [List.mem_append, List.mem_cons] at hs
        rcases hs with hs | rfl | hs
        · exact grouped_rowsSketch h s hs
        · exact hn
        · exact hns s hs
where
  grouped_rowsSketch {rows : List Sketch} (h : ∀ r ∈ rows, r.isRow = true ∧ r.Grouped) :
      ∀ s ∈ rowsSketch rows, s.Grouped := by
    intro s hs
    rw [rowsSketch] at hs
    split at hs
    · simp at hs
    · next hne =>
      rw [List.mem_singleton.mp hs]
      exact .body (by simpa using hne) (fun r hr => (h r hr).2) fun r hr => (h r hr).1

end

/-- No row of a document's tree stands directly in a table. Every run of rows that could not be
longer has a body around it, with no attributes, and nothing else is regrouped: without these bodies
the tree is that of the elements of the document's body, with the elements directly in them in their
order. -/
theorem implied_bodies {source : String} {t : Tree} (h : parse source = .ok t) :
    (∀ v ∈ t.walk 0 [], v.node.tag = "table" → ∀ c ∈ v.node.children, c.tag ≠ "tr") ∧
      ∃ ss : List Sketch, (∀ s ∈ ss, s.Grouped ∧ s.isBody = false) ∧
        ss.flatMap unwrap = (Body.elements (documentOf source)).map bare ∧
        ((∃ s, ss = [s] ∧ t = (s.tree 0).named 0) ∨
          (2 ≤ ss.length ∧
            t = ⟨nameIn "node" 0, rootTag, namedAll 1 (ss.map (tree 1)), some 0, none⟩)) := by
  have hw := (treeOf_eq_ok_iff.mp h).1
  let ns := Body.elements (documentOf source)
  have hgrouped : ∀ s ∈ ns.map sketch, s.Grouped ∧ s.isBody = false := by
    intro s hs
    obtain ⟨n, -, rfl⟩ := List.mem_map.mp hs
    exact ⟨grouped_sketch n, isBody_sketch n⟩
  have hunwrap : (ns.map sketch).flatMap unwrap = ns.map bare := by
    rw [List.flatMap_map, List.flatMap_congr fun n _ => unwrap_sketch n, ← List.map_eq_flatMap]
  have htree : (ns.map sketch).map (tree 1) = ns.map (shape 1) := by
    rw [List.map_map]
    exact List.map_congr_left fun n _ => tree_sketch 1 n
  obtain ⟨n, hn, rfl⟩ | ⟨hl, rfl⟩ := wholeTree_cases hw
  · refine ⟨fun v hv => ?_, ns.map sketch, hgrouped, hunwrap, .inl ⟨sketch n, ?_, ?_⟩⟩
    · rw [← tree_sketch] at hv
      exact (grouped_sketch n).tag_ne_row 0 0 0 [] hv
    · simp [ns, hn]
    · rw [tree_sketch]
  · refine ⟨fun v hv => ?_, ns.map sketch, hgrouped, hunwrap, .inr ⟨by simpa [ns] using hl, ?_⟩⟩
    · have hroot : rootTag ≠ "table" := by decide
      rw [walk, List.mem_cons] at hv
      rcases hv with rfl | hv
      · exact fun ht => absurd ht hroot
      · obtain ⟨u, hu, hv⟩ := exists_of_mem_walkAll hv
        obtain ⟨x, hx, k, rfl⟩ := exists_of_mem_namedAll hu
        obtain ⟨n, -, rfl⟩ := List.mem_map.mp hx
        rw [← tree_sketch] at hv
        exact (grouped_sketch n).tag_ne_row 1 k 1 _ hv
    · rw [htree]

/-- Rows around a caption, with a text, a comment and an end tag that fits nothing between them, and
a table in a cell. -/
theorem implied_bodies_caption :
    let source :=
      "<table>x<tr><td><table><tr></table></tr>\n<!-- --></b><tr></tr><caption></caption>&amp;<tr></table>"
    let row (id : String) (depth : Nat) (cells : List Tree) : Tree :=
      ⟨id, "tr", cells, some depth, none⟩
    let inner : Tree := ⟨"node-2", "table",
      [⟨"node-1", "tbody", [row "node-0" 6 []], some 5, none⟩], some 4, none⟩
    let t : Tree := ⟨"node-10", "table",
      [⟨"node-6", "tbody",
          [row "node-4" 2 [⟨"node-3", "td", [inner], some 3, none⟩], row "node-5" 2 []],
          some 1, none⟩,
        ⟨"node-7", "caption", [], some 1, none⟩,
        ⟨"node-9", "tbody", [row "node-8" 2 []], some 1, none⟩], some 0, none⟩
    parse source = .ok t ∧
      (∀ v ∈ t.walk 0 [], v.node.tag = "table" → ∀ c ∈ v.node.children, c.tag ≠ "tr") ∧
      ∃ ss : List Sketch, (∀ s ∈ ss, s.Grouped ∧ s.isBody = false) ∧
        ss.flatMap unwrap = (Body.elements (documentOf source)).map bare ∧
        ((∃ s, ss = [s] ∧ t = (s.tree 0).named 0) ∨
          (2 ≤ ss.length ∧
            t = ⟨nameIn "node" 0, rootTag, namedAll 1 (ss.map (tree 1)), some 0, none⟩)) := by
  intro source row inner t
  have h : parse source = .ok t := by decide +kernel
  exact ⟨h, implied_bodies h⟩

end Html

end MarkupNesting
