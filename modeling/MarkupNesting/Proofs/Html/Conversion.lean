import MarkupNesting.Html.Build
import MarkupNesting.Proofs.Naming

/-! The tree of an element without names and without a limit, and how its builder gives it: the
nodes are named children first, and only a depth past the limit makes the builder fail. -/

namespace MarkupNesting.Html

open Builder MarkupNesting.Tree

def rowsShape (depth : Nat) (rows : List Tree) : List Tree :=
  if rows.isEmpty then [] else [⟨"", "tbody", rows, some depth, none⟩]

mutual

/-- The tree of an element at a depth, with no names. -/
def shape (depth : Nat) : Node → Tree
  | ⟨kind, text, children⟩ =>
    let n : Node := ⟨kind, text, children⟩
    ⟨"", n.tag, shapes (n.tag = "table") depth [] children, some depth, n.attributes⟩

/-- The trees of what an element at a depth holds, after the rows of a run that is under way. -/
def shapes (table : Bool) (depth : Nat) (rows : List Tree) : List Node → List Tree
  | [] => rowsShape (depth + 1) rows
  | n :: ns =>
    if !n.isElement then shapes table depth rows ns
    else if table && n.tag = "tr" then shapes table depth (rows ++ [shape (depth + 2) n]) ns
    else rowsShape (depth + 1) rows ++ shape (depth + 1) n :: shapes table depth [] ns

end

theorem shape_mk (depth : Nat) (n : Node) :
    shape depth n =
      ⟨"", n.tag, shapes (n.tag = "table") depth [] n.children, some depth, n.attributes⟩ := by
  cases n
  rfl

@[simp] theorem shape_tag (depth : Nat) (n : Node) : (shape depth n).tag = n.tag := by
  cases n
  rfl

theorem shapes_false (depth : Nat) (ns : List Node) :
    shapes false depth [] ns = (ns.filter Node.isElement).map (shape (depth + 1)) := by
  induction ns with
  | nil => rfl
  | cons n ns ih => cases h : n.isElement <;> simp [shapes, rowsShape, h, ih]

/-- The names of a table body and of its rows do not depend on when its depth is checked. -/
theorem impliedBody_giveAll (depth : Nat) (rows : List Tree) :
    (do impliedBody depth (← giveAll rows)) = giveAll (rowsShape depth rows) := by
  cases rows with
  | nil => simp [giveAll_nil, rowsShape, impliedBody]
  | cons r rs =>
    have hd : deepestAll (rowsShape depth (r :: rs)) =
      max depth (deepestAll (r :: rs)) := Nat.max_zero _
    funext n
    have hb : impliedBody depth (namedAll n (r :: rs)) = do
        Builder.check depth
        return [⟨← fresh, "tbody", namedAll n (r :: rs), some depth, none⟩] := rfl
    rw [bind_apply]
    by_cases h1 : deepestAll (r :: rs) ≤ nestingLimit
    · rw [giveAll_of_le h1]
      by_cases h2 : depth ≤ nestingLimit
      · have h3 : deepestAll (rowsShape depth (r :: rs)) ≤ nestingLimit := by omega
        simp only [hb, bind_apply, check_of_le h2, giveAll_of_le h3]
        rfl
      · have h3 : nestingLimit < deepestAll (rowsShape depth (r :: rs)) := by omega
        simp only [hb, bind_apply, check_of_lt (Nat.lt_of_not_le h2), giveAll_of_lt h3]
    · have h3 : nestingLimit < deepestAll (rowsShape depth (r :: rs)) := by omega
      rw [giveAll_of_lt (Nat.lt_of_not_le h1), giveAll_of_lt h3]

theorem elementTree_mk (depth : Nat) (n : Node) :
    elementTree depth n = do
      Builder.check depth
      let trees ← contents (n.tag = "table") depth [] n.children
      return ⟨← fresh, n.tag, trees, some depth, n.attributes⟩ := by
  cases n
  rfl

mutual

theorem elementTree_eq_give (depth : Nat) : (n : Node) → elementTree depth n = give (shape depth n)
  | ⟨kind, text, children⟩ => by
    have h := contents_eq_giveAll ((⟨kind, text, children⟩ : Node).tag = "table") depth children []
    rw [giveAll_nil, pure_bind] at h
    rw [elementTree_mk, shape, give_mk, h]

theorem contents_eq_giveAll (table : Bool) (depth : Nat) : (ns : List Node) → (rows : List Tree) →
    (do contents table depth (← giveAll rows) ns) = giveAll (shapes table depth rows ns)
  | [], rows => by
    simp only [contents, shapes]
    exact impliedBody_giveAll (depth + 1) rows
  | n :: ns, rows => by
    rw [shapes]
    by_cases he : n.isElement
    · by_cases hr : (table && n.tag = "tr") = true
      · have ht := elementTree_eq_give (depth + 2) n
        have h := contents_eq_giveAll table depth ns (rows ++ [shape (depth + 2) n])
        rw [giveAll_append, giveAll_singleton] at h
        simp only [contents, he, hr, ht, Bool.not_true, Bool.false_eq_true, ↓reduceIte, ← h]
        simp
      · have ht := elementTree_eq_give (depth + 1) n
        have h := contents_eq_giveAll table depth ns []
        rw [giveAll_nil, pure_bind] at h
        simp only [contents, he, hr, ht, h, Bool.not_true, Bool.false_eq_true, ↓reduceIte,
          giveAll_append, giveAll_cons, ← impliedBody_giveAll]
        simp
    · have h := contents_eq_giveAll table depth ns rows
      simp only [contents, he, Bool.not_false, ↓reduceIte]
      exact h

end

theorem mapM_elementTree (depth : Nat) (ns : List Node) :
    ns.mapM (elementTree depth) = giveAll (ns.map (shape depth)) := by
  rw [funext (elementTree_eq_give depth), mapM_give]

end MarkupNesting.Html
