import MarkupNesting.Html.Parse
import MarkupNesting.Proofs.Html.LoweredReading
import MarkupNesting.Proofs.Places

/-! The document of a source in lower case is the document of the source with its texts in lower
case. The grammar sees every source in lower case, and the texts are cut from the source at the same
places. -/

namespace MarkupNesting

namespace Grammar.Text

theorem chars_ofString_lower (s : String) :
    (ofString (lower s)).chars = (ofString s).chars.map Char.toLower := by
  simp [chars_ofString]

/-- A piece of a text in lower case is the piece of the text, in lower case. -/
theorem slice_lower (s : String) (start stop : Nat) :
    (ofString (lower s)).slice start stop = lower ((ofString s).slice start stop) := by
  rw [slice, slice, lower_ofList, chars_ofString_lower]
  simp

theorem skipWhile_eq {t u : Text} (h : u.chars = t.chars.map Char.toLower) {p : Char → Bool}
    (hp : ∀ c : Char, p c.toLower = p c) (i : Nat) : u.skipWhile p i = t.skipWhile p i := by
  have hsize : u.chars.size = t.chars.size := by rw [h, Array.size_map]
  fun_induction skipWhile t p i with
  | case1 i hi hc ih =>
    have hu : i < u.chars.size := hsize ▸ hi
    have hget : p u.chars[i] = true := by simpa [h, hp] using hc
    rw [skipWhile, dif_pos hu, if_pos hget, ih]
  | case2 i hi hc =>
    have hu : i < u.chars.size := hsize ▸ hi
    have hget : ¬ p u.chars[i] = true := by simpa [h, hp] using hc
    rw [skipWhile, dif_pos hu, if_neg hget]
  | case3 i hi => rw [skipWhile, dif_neg (hsize ▸ hi)]

end Grammar.Text

namespace Html

open Grammar

namespace Recovered

theorem textOf_lower (s : String) (kind : Kind) (e : Entry) :
    textOf (.ofString (lower s)) kind e = lower (textOf (.ofString s) kind e) := by
  have hskip := Text.skipWhile_eq (Text.chars_ofString_lower s) isNameChar_toLower e.start
  simp only [textOf]
  split
  · rw [hskip, Text.slice_lower]
  · exact Text.slice_lower s e.start e.stop
  · exact Text.slice_lower s e.start e.stop
  · exact Text.slice_lower s e.start e.stop
  · rfl

mutual

theorem node_lower (s : String) : (o : Outline) →
    node (.ofString (lower s)) o = (node (.ofString s) o).map Node.lowered
  | .node e cs => by
    rw [node, node, nodes_lower s cs]
    split
    · simp [textOf_lower]
    · rfl

theorem nodes_lower (s : String) : (os : List Outline) →
    nodes (.ofString (lower s)) os = (nodes (.ofString s) os).map Node.lowered
  | [] => rfl
  | o :: os => by rw [nodes, nodes, node_lower s o, nodes_lower s os, List.map_append]

end

theorem document_lower (source : String) : document (lower source) = (document source).lowered := by
  rw [document, document, lower_lower]
  cases Grammar.parse ⟨language, scanner, Text.ofString (lower source)⟩ with
  | none => rfl
  | some tree =>
    dsimp only
    rw [node_lower]
    cases node (Text.ofString source) (Outline.ofSubtree language tree) <;> rfl

end Recovered

theorem documentOf_lower (source : String) :
    documentOf (lower source) = (documentOf source).lowered := by
  rw [documentOf, documentOf, readDocument_lower]
  cases readDocument source with
  | none => exact Recovered.document_lower source
  | some n => rfl

end Html

end MarkupNesting
