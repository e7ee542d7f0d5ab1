import MarkupNesting.Proofs.Json.Tokens

/-! The texts of JSON values with white space laid out in any way, the compact and the pretty text
among them, and the value that any of these is read as. -/

namespace MarkupNesting.Json

/-- Where white space goes: before every item and field at a depth of nesting, and before the end;
and after the colon of a field. -/
structure Spacing where
  line : Nat → List Char
  colon : List Char
  line_space : ∀ depth, ∀ c ∈ line depth, isSpace c = true
  colon_space : ∀ c ∈ colon, isSpace c = true

namespace Spacing

def none : Spacing := ⟨fun _ => [], [], by simp, by simp⟩

def lines : Spacing where
  line depth := newLine depth []
  colon := [' ']
  line_space depth c hc := by
    simp only [newLine, List.append_nil, List.mem_cons, List.mem_replicate] at hc
    rcases hc with rfl | ⟨-, rfl⟩ <;> rfl
  colon_space c hc := by
    rw [List.mem_singleton.mp hc]
    rfl

end Spacing

mutual

/-- The text of a value at a depth of nesting. -/
def spell (w : Spacing) (depth : Nat) : Json → List Char
  | array (j :: js) =>
    '[' :: (w.line (depth + 1) ++ spell w (depth + 1) j ++ spellItems w depth js)
  | object ((k, v) :: fs) =>
    '\x7b' :: (w.line (depth + 1) ++ writeString k (':' :: w.colon) ++ spell w (depth + 1) v ++
      spellFields w depth fs)
  | array [] => ['[', ']']
  | object [] => ['\x7b', '\x7d']
  | null => writeWord "null" []
  | bool b => writeWord (if b then "true" else "false") []
  | integer i => writeInteger i []
  | binary x => x.chars
  | string s => writeString s []

def spellItems (w : Spacing) (depth : Nat) : List Json → List Char
  | [] => w.line depth ++ [']']
  | j :: js => ',' :: (w.line (depth + 1) ++ spell w (depth + 1) j ++ spellItems w depth js)

def spellFields (w : Spacing) (depth : Nat) : List (String × Json) → List Char
  | [] => w.line depth ++ ['\x7d']
  | (k, v) :: fs =>
    ',' :: (w.line (depth + 1) ++ writeString k (':' :: w.colon) ++ spell w (depth + 1) v ++
      spellFields w depth fs)

end

theorem writeString_append (s : String) (xs ys : List Char) :
    writeString s xs ++ ys = writeString s (xs ++ ys) := by
  rw [writeString_eq, writeString_eq]
  simp

theorem writeInteger_append (i : Int) (rest : List Char) :
    writeInteger i [] ++ rest = writeInteger i rest := by
  cases i <;> simp [writeInteger]

theorem writeWord_append (s : String) (rest : List Char) :
    writeWord s [] ++ rest = writeWord s rest := by
  simp [writeWord]

mutual

theorem write_eq_spell (depth : Nat) (rest : List Char) : (j : Json) →
    j.write rest = spell .none depth j ++ rest
  | array [] => rfl
  | array (j :: js) => by
    have hj := write_eq_spell (depth + 1) (writeMoreItems js (']' :: rest)) j
    have hjs := writeMoreItems_eq_spell depth rest js
    rw [write, writeItems, hj, hjs, spell]
    simp [Spacing.none]
  | object [] => rfl
  | object ((k, v) :: fs) => by
    have hv := write_eq_spell (depth + 1) (writeMoreFields fs ('\x7d' :: rest)) v
    have hfs := writeMoreFields_eq_spell depth rest fs
    rw [write, writeFields, hv, hfs, spell]
    simp [Spacing.none, writeString_append]
  | null => (writeWord_append _ _).symm
  | bool b => (writeWord_append _ _).symm
  | integer i => (writeInteger_append _ _).symm
  | binary x => rfl
  | string s => (writeString_append s [] rest).symm

theorem writeMoreItems_eq_spell (depth : Nat) (rest : List Char) : (js : List Json) →
    writeMoreItems js (']' :: rest) = spellItems .none depth js ++ rest
  | [] => rfl
  | j :: js => by
    have hj := write_eq_spell (depth + 1) (writeMoreItems js (']' :: rest)) j
    have hjs := writeMoreItems_eq_spell depth rest js
    rw [writeMoreItems, hj, hjs, spellItems]
    simp [Spacing.none]

theorem writeMoreFields_eq_spell (depth : Nat) (rest : List Char) : (fs : List (String × Json)) →
    writeMoreFields fs ('\x7d' :: rest) = spellFields .none depth fs ++ rest
  | [] => rfl
  | (k, v) :: fs => by
    have hv := write_eq_spell (depth + 1) (writeMoreFields fs ('\x7d' :: rest)) v
    have hfs := writeMoreFields_eq_spell depth rest fs
    rw [writeMoreFields, hv, hfs, spellFields]
    simp [Spacing.none, writeString_append]

end

mutual

theorem writePretty_eq_spell (depth : Nat) (rest : List Char) : (j : Json) →
    writePretty depth j rest = spell .lines depth j ++ rest
  | array [] => rfl
  | array (j :: js) => by
    have hj := writePretty_eq_spell (depth + 1) (prettyItems depth js rest) j
    have hjs := prettyItems_eq_spell depth rest js
    rw [writePretty, hj, hjs, spell]
    simp [Spacing.lines, newLine]
  | object [] => rfl
  | object ((k, v) :: fs) => by
    have hv := writePretty_eq_spell (depth + 1) (prettyFields depth fs rest) v
    have hfs := prettyFields_eq_spell depth rest fs
    rw [writePretty, hv, hfs, spell]
    simp [Spacing.lines, newLine, writeString_append]
  | null => (writeWord_append _ _).symm
  | bool b => (writeWord_append _ _).symm
  | integer i => (writeInteger_append _ _).symm
  | binary x => rfl
  | string s => (writeString_append s [] rest).symm

theorem prettyItems_eq_spell (depth : Nat) (rest : List Char) : (js : List Json) →
    prettyItems depth js rest = spellItems .lines depth js ++ rest
  | [] => by simp [prettyItems, spellItems, Spacing.lines, newLine]
  | j :: js => by
    have hj := writePretty_eq_spell (depth + 1) (prettyItems depth js rest) j
    have hjs := prettyItems_eq_spell depth rest js
    rw [prettyItems, hj, hjs, spellItems]
    simp [Spacing.lines, newLine]

theorem prettyFields_eq_spell (depth : Nat) (rest : List Char) : (fs : List (String × Json)) →
    prettyFields depth fs rest = spellFields .lines depth fs ++ rest
  | [] => by simp [prettyFields, spellFields, Spacing.lines, newLine]
  | (k, v) :: fs => by
    have hv := writePretty_eq_spell (depth + 1) (prettyFields depth fs rest) v
    have hfs := prettyFields_eq_spell depth rest fs
    rw [prettyFields, hv, hfs, spellFields]
    simp [Spacing.lines, newLine, writeString_append]

end

theorem compact_eq_spell (j : Json) : j.compact = String.ofList (spell .none 0 j) := by
  rw [compact, write_eq_spell 0, List.append_nil]

theorem pretty_eq_spell (j : Json) : j.pretty = String.ofList (spell .lines 0 j) := by
  rw [pretty, writePretty_eq_spell, List.append_nil]

theorem spell_none (depth : Nat) (j : Json) : spell .none depth j = j.compact.toList := by
  rw [compact, String.toList_ofList, write_eq_spell depth, List.append_nil]

theorem spellItems_none (depth : Nat) (js : List Json) :
    spellItems .none depth js = (js.flatMap fun j => ',' :: j.compact.toList) ++ [']'] := by
  induction js with
  | nil => rfl
  | cons j js ih =>
    rw [spellItems, spell_none, ih, List.flatMap_cons]
    simp [Spacing.none]

theorem intercalate_comma (cs : List Char) (css : List (List Char)) :
    [','].intercalate (cs :: css) = cs ++ css.flatMap fun ds => ',' :: ds := by
  induction css generalizing cs with
  | nil => simp
  | cons ds css ih => simp [List.intercalate_cons_cons, ih]

/-- On one line the text of an array is made of those of its items. -/
theorem compact_array (js : List Json) :
    (array js).compact = "[" ++ ",".intercalate (js.map compact) ++ "]" := by
  apply String.toList_injective
  cases js with
  | nil => rfl
  | cons j js =>
    have hjoin := intercalate_comma j.compact.toList (js.map fun j => j.compact.toList)
    rw [List.flatMap_map] at hjoin
    have hitems : ((j :: js).map compact).map String.toList =
        j.compact.toList :: js.map fun j => j.compact.toList := by simp
    rw [compact_eq_spell, String.toList_ofList, spell, spell_none, spellItems_none, String.toList_append,
      String.toList_append, String.toList_intercalate, hitems]
    rw [show ",".toList = [','] from rfl, hjoin, ← List.append_assoc]
    rfl

end MarkupNesting.Json
