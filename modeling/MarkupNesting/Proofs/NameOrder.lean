import MarkupNesting.Proofs.WholeTree

/-! The order in which nodes are named. Every tree is named children first, without gaps, and only
the common root of several HTML elements comes before the nodes below it. -/

namespace MarkupNesting

namespace Tree

mutual

def postorder : Tree → List Tree
  | ⟨id, tag, children, depth, attributes⟩ =>
    postorderAll children ++ [⟨id, tag, children, depth, attributes⟩]

def postorderAll : List Tree → List Tree
  | [] => []
  | t :: ts => t.postorder ++ postorderAll ts

end

mutual

theorem count_named (n : Nat) : (t : Tree) → (t.named n).count = t.count
  | ⟨_, _, children, _, _⟩ => by simp only [named, count, countAll_namedAll n children]

theorem countAll_namedAll (n : Nat) : (ts : List Tree) → countAll (namedAll n ts) = countAll ts
  | [] => rfl
  | t :: ts => by
    simp only [namedAll, countAll, count_named n t, countAll_namedAll (n + t.count) ts]

end

mutual

theorem ids_postorder_named (n : Nat) : (t : Tree) →
    (t.named n).postorder.map id = (List.range' n t.count).map (nameIn "node")
  | ⟨_, tag, children, depth, attributes⟩ => by
    have h := ids_postorderAll_namedAll n children
    rw [named, postorder, count, List.map_append, h, List.range'_concat, List.map_append, Nat.one_mul]
    rfl

theorem ids_postorderAll_namedAll (n : Nat) : (ts : List Tree) →
    (postorderAll (namedAll n ts)).map id = (List.range' n (countAll ts)).map (nameIn "node")
  | [] => rfl
  | t :: ts => by
    have ht := ids_postorder_named n t
    have hts := ids_postorderAll_namedAll (n + t.count) ts
    rw [namedAll, postorderAll, countAll, List.map_append, ht, hts, ← List.map_append,
      List.range'_append_1]

end

theorem ids_named (t : Tree) : (t.named 0).postorder.map id = firstNames "node" (t.named 0).count := by
  rw [ids_postorder_named, count_named, firstNames, List.range_eq_range']

end Tree

open MarkupNesting.Tree

theorem Jsx.ids_wholeTree {top : Jsx.Node} {t : Tree} (h : Jsx.wholeTree top = some t) :
    t.postorder.map Tree.id = firstNames "node" t.count := by
  obtain ⟨n, -, rfl⟩ | ⟨-, rfl⟩ := wholeTree_cases h
  · exact ids_named _
  · exact ids_named _

theorem Html.ids_wholeTree {document : Html.Node} {t : Tree} (h : Html.wholeTree document = some t) :
    ((Body.elements document).length = 1 ∧ t.postorder.map Tree.id = firstNames "node" t.count) ∨
      (2 ≤ (Body.elements document).length ∧ t.id = nameIn "node" 0 ∧
        (postorderAll t.children).map Tree.id =
          (List.range' 1 (t.count - 1)).map (nameIn "node")) := by
  obtain ⟨n, hn, rfl⟩ | ⟨hl, rfl⟩ := wholeTree_cases h
  · exact .inl ⟨by rw [hn, List.length_singleton], ids_named _⟩
  · refine .inr ⟨hl, rfl, ?_⟩
    rw [ids_postorderAll_namedAll, count, countAll_namedAll, Nat.add_sub_cancel]

/-- A node named first and the nodes below it named from 1 on use up the first names. -/
theorem perm_firstNames {t : Tree} (hid : t.id = nameIn "node" 0)
    (hids : (postorderAll t.children).map Tree.id =
      (List.range' 1 (t.count - 1)).map (nameIn "node")) :
    (t.postorder.map Tree.id).Perm (firstNames "node" t.count) := by
  obtain ⟨id, tag, children, depth, attributes⟩ := t
  have hp : (⟨id, tag, children, depth, attributes⟩ : Tree).postorder.map Tree.id =
      (postorderAll children).map Tree.id ++ [id] := by
    rw [postorder, List.map_append]
    rfl
  have hf : firstNames "node" (countAll children + 1) =
      nameIn "node" 0 :: (List.range' 1 (countAll children)).map (nameIn "node") := by
    rw [firstNames, List.range_eq_range', List.range'_succ, List.map_cons]
  simp only [count, Nat.add_sub_cancel] at hids hid ⊢
  rw [hp, hids, hid, hf]
  exact List.perm_append_singleton _ _

/-- The nodes of a tree are named in one series without gaps: children first, but for the common
root of several HTML elements, which comes before them all. -/
theorem ids_in_order {source : String} {d : Dialect} {t : Tree} (h : buildTree source d = .ok t) :
    (d ≠ .html ∨ (Html.Body.elements (Html.documentOf (trim source))).length = 1 →
      t.postorder.map Tree.id = firstNames "node" t.count) ∧
    (d = .html → 2 ≤ (Html.Body.elements (Html.documentOf (trim source))).length →
      t.id = nameIn "node" 0 ∧
        (postorderAll t.children).map Tree.id =
          (List.range' 1 (t.count - 1)).map (nameIn "node")) ∧
    (t.postorder.map Tree.id).Perm (firstNames "node" t.count) ∧
    (t.postorder.map Tree.id).Nodup := by
  obtain ⟨-, hw, -⟩ := buildTree_eq_ok_iff.mp h
  by_cases hd : d = .html
  · subst hd
    rw [wholeTree_html] at hw
    obtain ⟨hl, hids⟩ | ⟨hl, hid, hids⟩ := Html.ids_wholeTree hw
    · refine ⟨fun _ => hids, fun _ hl2 => ?_, ?_, ?_⟩
      · omega
      · rw [hids]
      · rw [hids]
        exact firstNames_nodup "node" t.count
    · have hp := perm_firstNames hid hids
      refine ⟨fun h1 => ?_, fun _ _ => ⟨hid, hids⟩, hp, ?_⟩
      · rcases h1 with h1 | h1
        · exact absurd rfl h1
        · omega
      · exact hp.nodup_iff.mpr (firstNames_nodup "node" t.count)
  · rw [wholeTree_jsx _ hd] at hw
    have hids := Jsx.ids_wholeTree hw
    refine ⟨fun _ => hids, fun hh => absurd hh hd, ?_, ?_⟩
    · rw [hids]
    · rw [hids]
      exact firstNames_nodup "node" t.count

/-- A row in a table, alone and with an element after the table, and two JSX roots. -/
theorem ids_in_order_row :
    let table (first depth : Nat) : Tree :=
      ⟨nameIn "node" (first + 2), "table", [⟨nameIn "node" (first + 1), "tbody",
        [⟨nameIn "node" first, "tr", [], some (depth + 2), none⟩], some (depth + 1), none⟩],
        some depth, none⟩
    let several : Tree :=
      ⟨"node-0", "root", [table 1 1, ⟨"node-4", "p", [], some 1, none⟩], some 0, none⟩
    let roots : Tree :=
      ⟨"node-3", "root", [⟨"node-1", "A", [⟨"node-0", "B", [], some 1, none⟩], some 0, none⟩,
        ⟨"node-2", "C", [], some 0, none⟩], some 0, none⟩
    (buildTree " <table><tr></table>" .html = .ok (table 0 0) ∧
        (Html.Body.elements (Html.documentOf (trim " <table><tr></table>"))).length = 1 ∧
        (table 0 0).postorder.map Tree.id = firstNames "node" (table 0 0).count) ∧
      (buildTree "<table><tr></table><p></p>" .html = .ok several ∧
        2 ≤ (Html.Body.elements (Html.documentOf (trim "<table><tr></table><p></p>"))).length ∧
        several.id = nameIn "node" 0 ∧ (postorderAll several.children).map Tree.id =
          (List.range' 1 (several.count - 1)).map (nameIn "node")) ∧
      buildTree "const v = <A><B/></A>;const w = <C/>;" .tsx = .ok roots ∧
        roots.postorder.map Tree.id = firstNames "node" roots.count := by
  intro table several roots
  have h1 : buildTree " <table><tr></table>" .html = .ok (table 0 0) := by decide +kernel
  have h2 : buildTree "<table><tr></table><p></p>" .html = .ok several := by decide +kernel
  have h3 : buildTree "const v = <A><B/></A>;const w = <C/>;" .tsx = .ok roots := by decide +kernel
  have hl1 : (Html.Body.elements (Html.documentOf (trim " <table><tr></table>"))).length = 1 := by
    decide +kernel
  have hl2 : 2 ≤ (Html.Body.elements (Html.documentOf (trim "<table><tr></table><p></p>"))).length := by
    decide +kernel
  obtain ⟨hsingle, -, -⟩ := ids_in_order h1
  obtain ⟨-, hseveral, -⟩ := ids_in_order h2
  obtain ⟨hroots, -, -⟩ := ids_in_order h3
  exact ⟨⟨h1, hl1, hsingle (.inr hl1)⟩, ⟨h2, hl2, hseveral rfl hl2⟩, h3,
    hroots (.inl (by decide))⟩

end MarkupNesting
