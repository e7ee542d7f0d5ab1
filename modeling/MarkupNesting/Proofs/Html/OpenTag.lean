import MarkupNesting.Html.Node
import MarkupNesting.Proofs.AttributeMaps

/-! What the tag of an element says of its attributes: an element has a map of attributes exactly if
some entry of its tag gives a name. -/

namespace MarkupNesting

namespace Attributes

theorem insertEntry_ne_nil (keep : String → String → String) (name value : String)
    (es : List (String × String)) : insertEntry keep name value es ≠ [] := by
  cases es with
  | nil => simp [insertEntry]
  | cons e es =>
    rw [insertEntry]
    split
    · simp
    · split <;> simp

theorem foldl_addFirst_ne_nil (es : List (String × String)) {a : Attributes} (h : a.entries ≠ []) :
    (es.foldl (fun a e => a.addFirst e.1 e.2) a).entries ≠ [] := by
  induction es generalizing a with
  | nil => exact h
  | cons e es ih => exact ih (insertEntry_ne_nil _ _ _ _)

theorem isEmpty_ofFirst (es : List (String × String)) : (ofFirst es).isEmpty = es.isEmpty := by
  cases es with
  | nil => rfl
  | cons e es =>
    have h : (ofFirst (e :: es)).entries ≠ [] :=
      foldl_addFirst_ne_nil es (insertEntry_ne_nil _ _ _ _)
    simpa [Attributes.isEmpty] using h

end Attributes

namespace Html.Node

/-- Whether the tag of an element has an attribute, that is an entry which gives a name. -/
def HasAttribute (n : Node) : Prop :=
  ∃ tag, n.openTag = some tag ∧ ∃ entry ∈ tag.children, entry.kind = .attributeEntry ∧
    ∃ part ∈ entry.children, part.kind = .attributeName

theorem foldl_addPart_isSome (parts : List Node) (found : Option String × String) :
    (parts.foldl addPart found).1.isSome = true ↔
      found.1.isSome = true ∨ ∃ part ∈ parts, part.kind = .attributeName := by
  induction parts generalizing found with
  | nil => simp
  | cons part parts ih =>
    have h : (addPart found part).1.isSome = true ↔
        found.1.isSome = true ∨ part.kind = .attributeName := by
      cases hk : part.kind <;> simp [addPart, hk]
    rw [List.foldl_cons, ih, h, List.exists_mem_cons_iff, or_assoc]

theorem namedValue_isSome (entry : Node) :
    entry.namedValue.isSome = true ↔ ∃ part ∈ entry.children, part.kind = .attributeName := by
  have h := foldl_addPart_isSome entry.children (none, "")
  simpa [namedValue] using h

theorem namedValues_ne_nil_iff (n : Node) : n.namedValues ≠ [] ↔ n.HasAttribute := by
  cases ht : n.openTag with
  | none => simp [namedValues, HasAttribute, ht]
  | some tag =>
    simp only [namedValues, HasAttribute, ht, ne_eq, List.filterMap_eq_nil_iff, List.mem_filter,
      Option.some.injEq, exists_eq_left', ← namedValue_isSome]
    simp [Option.ne_none_iff_isSome]

theorem attributes_eq_none_iff (n : Node) : n.attributes = none ↔ ¬ n.HasAttribute := by
  rw [← namedValues_ne_nil_iff, attributes, Attributes.isEmpty_ofFirst]
  cases n.namedValues <;> simp

theorem any_attributes (n : Node) :
    (n.attributes.any fun a => !a.isEmpty) = true ↔ n.HasAttribute := by
  rw [← not_iff_not, ← attributes_eq_none_iff, attributes]
  split
  · simp
  · next h => simp [h]

end Html.Node

end MarkupNesting
