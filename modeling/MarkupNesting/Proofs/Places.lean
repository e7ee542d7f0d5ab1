import Mathlib
import MarkupNesting.Failure
import MarkupNesting.Grammar.Text

/-! What is kept of a text that has been read: its characters, and the places in it by row and column. -/

namespace MarkupNesting

/-- The place after what has been read: its complete lines, and the bytes of the line that is not. -/
def placeAfter (read : List Char) : Place :=
  ⟨read.count '\n', ((read.reverse.takeWhile (· ≠ '\n')).map Char.utf8Size).sum⟩

theorem placeAfter_concat (read : List Char) (c : Char) :
    placeAfter (read ++ [c]) =
      if c = '\n' then ⟨(placeAfter read).line + 1, 0⟩
      else ⟨(placeAfter read).line, (placeAfter read).column + c.utf8Size⟩ := by
  by_cases h : c = '\n'
  · simp [placeAfter, h]
  · simp [placeAfter, h, Nat.add_comm]

namespace Grammar.Text

namespace Reading

structure Covers (r : Reading) (cs : List Char) : Prop where
  chars : r.text.chars = cs.toArray
  rows : r.text.rows.toList = cs.inits.map fun read => (placeAfter read).line
  columns : r.text.columns.toList = cs.inits.map fun read => (placeAfter read).column
  row : r.row = (placeAfter cs).line
  column : r.column = (placeAfter cs).column

theorem Covers.add {r : Reading} {cs : List Char} (h : r.Covers cs) (c : Char) :
    (r.add c).Covers (cs ++ [c]) := by
  obtain ⟨⟨chars, bytes, rows, columns⟩, byte, row, column⟩ := r
  obtain ⟨hchars, hrows, hcolumns, hrow, hcolumn⟩ := h
  have hp := placeAfter_concat cs c
  dsimp only at hchars hrows hcolumns hrow hcolumn
  by_cases hc : c = '\n' <;>
    constructor <;> simp_all [Reading.add, List.inits_append]

theorem covers_foldl (cs : List Char) : (cs.foldl add start).Covers cs := by
  induction cs using List.reverseRecOn with
  | nil => exact ⟨rfl, rfl, rfl, rfl, rfl⟩
  | append_singleton cs c ih =>
    rw [List.foldl_append]
    exact ih.add c

end Reading

theorem chars_ofString (s : String) : (ofString s).chars = s.toList.toArray :=
  (Reading.covers_foldl s.toList).chars

theorem getD_of_inits {xs : Array Nat} {cs : List Char} {f : List Char → Nat}
    (h : xs.toList = cs.inits.map f) (i : Nat) : xs.getD (min i cs.length) 0 = f (cs.take i) := by
  have hlt : min i cs.length < cs.inits.length := by
    rw [List.length_inits]
    omega
  rw [Array.getD_eq_getD_getElem?, ← Array.getElem?_toList, h, List.getElem?_map,
    List.getElem?_eq_getElem hlt, List.getElem_inits, Option.map_some, Option.getD_some,
    ← List.take_eq_take_min]

/-- The place of a position is the one after all that stands before it. -/
theorem place_ofString (s : String) (i : Nat) :
    (⟨(ofString s).row i, (ofString s).column i⟩ : Place) = placeAfter (s.toList.take i) := by
  obtain ⟨-, hrows, hcolumns, -, -⟩ := Reading.covers_foldl s.toList
  have hsize : (ofString s).size = s.toList.length := by
    rw [size, chars_ofString, List.size_toArray]
  have hrow : (ofString s).row i = (placeAfter (s.toList.take i)).line := by
    rw [row, hsize]
    exact getD_of_inits hrows i
  have hcolumn : (ofString s).column i = (placeAfter (s.toList.take i)).column := by
    rw [column, hsize]
    exact getD_of_inits hcolumns i
  rw [hrow, hcolumn]

end Grammar.Text

end MarkupNesting
