import Mathlib
import MarkupNesting.Proofs.Number.Digits
import MarkupNesting.Text.Reference

/-! References to characters by name and by number, and texts written with them: reading one gives
the character back and takes no more of the text than was written, so a text is got back however its
characters are written. -/

namespace MarkupNesting

namespace Reference

open Decimal

theorem takeWhile_ended {p : Char → Bool} {a : Char} {ds : List Char} (ha : p a = false)
    (hd : ∀ c ∈ ds, p c = true) (rest : List Char) : (ds ++ a :: rest).takeWhile p = ds := by
  rw [List.takeWhile_append_of_pos hd, List.takeWhile_cons_of_neg (by simp [ha]), List.append_nil]

theorem run_eq_some {p : Char → Bool} {ds : List Char} (hs : p ';' = false)
    (hd : ∀ c ∈ ds, p c = true) (hne : ds ≠ []) (rest : List Char) :
    run p (ds ++ ';' :: rest) = some ds := by
  simp [run, takeWhile_ended hs hd, hne]

def numeral (base : Nat) (ds : List Char) : Nat := Nat.ofDigits base (ds.reverse.map hexValue)

theorem valueIn_eq_numeral (base : Nat) (ds : List Char) :
    valueIn base hexValue ds = numeral base ds := by
  rw [valueIn, numeral, Nat.ofDigits_eq_foldr, List.foldr_map, List.foldl_eq_foldr_reverse]
  congr 1
  funext c n
  simp only [Nat.cast_id]
  ring

theorem hexValue_eq_digitValue {c : Char} (h : c.isDigit = true) : hexValue c = digitValue c := by
  simp [hexValue, digitValue, h]

theorem valueIn_digits {ds : List Char} (h : ∀ c ∈ ds, c.isDigit = true) :
    valueIn 10 hexValue ds = ofDigits ds :=
  List.foldl_ext _ _ _ fun n c hc => by rw [hexValue_eq_digitValue (h c hc)]

theorem numeral_digits (n : Nat) : numeral 10 (digits n) = n := by
  rw [← valueIn_eq_numeral, valueIn_digits fun _ => isDigit_of_mem_digits, ofDigits_digits]

theorem character_toNat (c : Char) : character c.toNat = some c := by
  have hv : c.toNat.isValidChar := c.valid
  rw [character, if_pos hv, Char.ofNat_toNat]

/-- The text of a reference, and the character that it names if there is one. -/
inductive Form : List Char → Option Char → Prop
  | named {name : List Char} (hd : ∀ c ∈ name, c.isAlpha = true) (hne : name ≠ []) :
    Form ('&' :: (name ++ [';'])) (names.lookup (String.ofList name))
  | decimal {ds : List Char} (hd : ∀ c ∈ ds, c.isDigit = true) (hne : ds ≠ [])
    (hl : ds.length ≤ 7) : Form ('&' :: '#' :: (ds ++ [';'])) (character (numeral 10 ds))
  | hex {m : Char} {ds : List Char} (hm : m = 'x' ∨ m = 'X') (hd : ∀ c ∈ ds, isHexDigit c = true)
    (hne : ds ≠ []) (hl : ds.length ≤ 6) :
    Form ('&' :: '#' :: m :: (ds ++ [';'])) (character (numeral 16 ds))

variable {r r' : List Char} {x x' : Option Char}

theorem read_named {name : List Char} (hd : ∀ c ∈ name, c.isAlpha = true) (hne : name ≠ [])
    (rest : List Char) :
    read (name ++ ';' :: rest) =
      (names.lookup (String.ofList name)).map fun c => (c, name.length + 1) := by
  have hr : run Char.isAlpha (name ++ ';' :: rest) = some name := run_eq_some rfl hd hne rest
  obtain ⟨c, cs, rfl⟩ := List.exists_cons_of_ne_nil hne
  have hc : c ≠ '#' := fun h => absurd (hd c (by simp)) (by simp [h])
  rw [List.cons_append] at hr ⊢
  rw [read]
  · simp only [hr, Option.bind_eq_bind, Option.bind_some]
    cases names.lookup (String.ofList (c :: cs)) <;> rfl
  · intro _ h
    exact hc (List.cons.inj h).1

theorem read_decimal {ds : List Char} (hd : ∀ c ∈ ds, c.isDigit = true) (hne : ds ≠ [])
    (hl : ds.length ≤ width.decimal) (rest : List Char) :
    read ('#' :: (ds ++ ';' :: rest)) =
      (character (numeral 10 ds)).map fun c => (c, ds.length + 2) := by
  have hr : run Char.isDigit (ds ++ ';' :: rest) = some ds := run_eq_some rfl hd hne rest
  obtain ⟨d, ds, rfl⟩ := List.exists_cons_of_ne_nil hne
  have h1 : d ≠ 'x' := fun h => absurd (hd d (by simp)) (by simp [h])
  have h2 : d ≠ 'X' := fun h => absurd (hd d (by simp)) (by simp [h])
  rw [List.cons_append] at hr ⊢
  rw [read]
  · simp only [hr, Option.bind_eq_bind, Option.bind_some, valueIn_eq_numeral]
    rw [if_neg (Nat.not_lt.mpr hl)]
    cases character (numeral 10 (d :: ds)) <;> rfl
  · intro _ h
    exact h1 (List.cons.inj h).1
  · intro _ h
    exact h2 (List.cons.inj h).1

theorem read_hex {m : Char} (hm : m = 'x' ∨ m = 'X') {ds : List Char}
    (hd : ∀ d ∈ ds, isHexDigit d = true) (hne : ds ≠ []) (hl : ds.length ≤ width.hex)
    (rest : List Char) :
    read ('#' :: m :: (ds ++ ';' :: rest)) =
      (character (numeral 16 ds)).map fun c => (c, ds.length + 3) := by
  have hr : run isHexDigit (ds ++ ';' :: rest) = some ds := run_eq_some rfl hd hne rest
  have hn : ¬ width.hex < ds.length := Nat.not_lt.mpr hl
  rcases hm with rfl | rfl <;>
    · simp only [read, hr, Option.bind_eq_bind, Option.bind_some, valueIn_eq_numeral, if_neg hn]
      cases character (numeral 16 ds) <;> rfl

/-- After its ampersand a reference is read whole, whatever follows it. -/
theorem Form.read (h : Form r x) : ∃ body, r = '&' :: body ∧
    ∀ rest, Reference.read (body ++ rest) = x.map fun c => (c, body.length) := by
  cases h with
  | named hd hne =>
    refine ⟨_, rfl, fun rest => ?_⟩
    rw [List.append_assoc, List.length_append]
    exact read_named hd hne rest
  | @decimal ds hd hne hl =>
    refine ⟨_, rfl, fun rest => ?_⟩
    have hr := read_decimal hd hne hl rest
    simpa [Nat.add_assoc] using hr
  | hex hm hd hne hl =>
    refine ⟨_, rfl, fun rest => ?_⟩
    have hr := read_hex hm hd hne hl rest
    simpa [Nat.add_assoc] using hr

/-- The ways to write a character. -/
inductive Spells (c : Char) : List Char → Prop
  | itself (h : c ≠ '&') : Spells c [c]
  | named {name : String} (h : (name, c) ∈ names) : Spells c ('&' :: (name.toList ++ [';']))
  | decimal {ds : List Char} (hd : ∀ d ∈ ds, d.isDigit = true) (hne : ds ≠ [])
    (hl : ds.length ≤ 7) (hc : numeral 10 ds = c.toNat) : Spells c ('&' :: '#' :: (ds ++ [';']))
  | hex {m : Char} {ds : List Char} (hm : m = 'x' ∨ m = 'X') (hd : ∀ d ∈ ds, isHexDigit d = true)
    (hne : ds ≠ []) (hl : ds.length ≤ 6) (hc : numeral 16 ds = c.toNat) :
    Spells c ('&' :: '#' :: m :: (ds ++ [';']))

theorem form_of_mem_names {name : String} {c : Char} (h : (name, c) ∈ names) :
    Form ('&' :: (name.toList ++ [';'])) (some c) := by
  have hname : (∀ d ∈ name.toList, d.isAlpha = true) ∧ name.toList ≠ [] ∧
      names.lookup name = some c := by
    simp only [names, List.mem_cons, Prod.mk.injEq, List.not_mem_nil, or_false] at h
    rcases h with ⟨rfl, rfl⟩ | ⟨rfl, rfl⟩ | ⟨rfl, rfl⟩ | ⟨rfl, rfl⟩ |
      ⟨rfl, rfl⟩ | ⟨rfl, rfl⟩ <;>
      exact ⟨by simp, by simp, rfl⟩
  obtain ⟨hd, hne, hlookup⟩ := hname
  have hform := Form.named hd hne
  rwa [String.ofList_toList, hlookup] at hform

theorem decodeFrom_form_some {c : Char} (h : Form r (some c)) (rest : List Char) :
    decodeFrom 0 (r ++ rest) = c :: decodeFrom 0 rest := by
  obtain ⟨body, rfl, hread⟩ := h.read
  rw [List.cons_append, decodeFrom, if_pos rfl, hread]
  simp [decodeFrom_drop body.length]

theorem decodeFrom_spelled {c : Char} {w : List Char} (h : Spells c w) (rest : List Char) :
    decodeFrom 0 (w ++ rest) = c :: decodeFrom 0 rest := by
  cases h with
  | itself h => rw [List.singleton_append, decodeFrom, if_neg h]
  | named h => exact decodeFrom_form_some (form_of_mem_names h) rest
  | decimal hd hne hl hc =>
    exact decodeFrom_form_some (character_toNat c ▸ hc ▸ .decimal hd hne hl) rest
  | hex hm hd hne hl hc =>
    exact decodeFrom_form_some (character_toNat c ▸ hc ▸ .hex hm hd hne hl) rest

theorem decodeFrom_flatten {cs : List Char} {ws : List (List Char)} (h : List.Forall₂ Spells cs ws)
    (rest : List Char) : decodeFrom 0 (ws.flatten ++ rest) = cs ++ decodeFrom 0 rest := by
  induction h with
  | nil => rfl
  | cons hc _ ih =>
    rw [List.flatten_cons, List.append_assoc, decodeFrom_spelled hc, ih, List.cons_append]

def escapeChar (c : Char) : List Char :=
  if c.isAlphanum then [c] else '&' :: ('#' :: digits c.toNat ++ [';'])

theorem length_digits_toNat_le (c : Char) : (digits c.toNat).length ≤ width.decimal := by
  have hv : c.toNat.isValidChar := c.valid
  apply length_digits_lt
  simp only [Nat.isValidChar] at hv
  omega

theorem spells_escapeChar (c : Char) : Spells c (escapeChar c) := by
  rw [escapeChar]
  split
  · next hc => exact .itself fun h => absurd hc (by simp [h])
  · exact .decimal (fun _ => isDigit_of_mem_digits) (digits_ne_nil _) (length_digits_toNat_le c)
      (numeral_digits _)

theorem decodeFrom_escape (cs : List Char) : decodeFrom 0 (cs.flatMap escapeChar) = cs := by
  have hcs : List.Forall₂ Spells cs (cs.map escapeChar) := by
    rw [List.forall₂_map_right_iff, List.forall₂_same]
    exact fun c _ => spells_escapeChar c
  simpa [List.flatMap_def] using decodeFrom_flatten hcs []

end Reference

open Reference

/-- A text is got back however its characters are written, and nothing that a reference gives is
joined to what follows. -/
theorem decodeReferences_spelled {s : String} {ws : List (List Char)}
    (h : List.Forall₂ Spells s.toList ws) :
    decodeReferences (String.ofList ws.flatten) = s ∧
      ∀ rest, decodeReferences (String.ofList ws.flatten ++ rest) = s ++ decodeReferences rest := by
  have hrest : ∀ rest, decodeReferences (String.ofList ws.flatten ++ rest) =
      s ++ decodeReferences rest := by
    intro rest
    rw [decodeReferences, decodeReferences, String.toList_append, String.toList_ofList,
      decodeFrom_flatten h, String.ofList_append, String.ofList_toList]
  refine ⟨?_, hrest⟩
  have hempty := hrest ""
  rwa [String.append_empty, show decodeReferences "" = "" from rfl, String.append_empty] at hempty

/-- The ampersand by its name, and then what would be the rest of a reference. -/
theorem decodeReferences_spelled_lt :
    List.Forall₂ Spells "&lt;".toList
        ["&amp;".toList, "l".toList, "&#0000116;".toList, "&#X3b;".toList] ∧
      decodeReferences "&amp;l&#0000116;&#X3b;" = "&lt;" ∧
      ∀ rest, decodeReferences ("&amp;l&#0000116;&#X3b;" ++ rest) = "&lt;" ++ decodeReferences rest := by
  have hamp : Spells '&' ('&' :: ("amp".toList ++ [';'])) := .named (by simp [names])
  have hl : Spells 'l' ['l'] := .itself (by decide)
  have ht : Spells 't' ('&' :: '#' :: (['0', '0', '0', '0', '1', '1', '6'] ++ [';'])) :=
    .decimal (by simp) (by simp) (by simp) (by simp [numeral, hexValue, Nat.ofDigits])
  have hend : Spells ';' ('&' :: '#' :: 'X' :: (['3', 'b'] ++ [';'])) :=
    .hex (.inr rfl) (by simp [isHexDigit]) (by simp) (by simp)
      (by simp [numeral, hexValue, Nat.ofDigits])
  have h : List.Forall₂ Spells "&lt;".toList
      ["&amp;".toList, "l".toList, "&#0000116;".toList, "&#X3b;".toList] := by
    simpa only [String.reduceToList, List.cons_append, List.nil_append] using
      List.Forall₂.cons hamp (.cons hl (.cons ht (.cons hend .nil)))
  have hdecoded := decodeReferences_spelled h
  simp only [List.flatten_cons, List.flatten_nil, String.ofList_append, String.ofList_toList,
    String.ofList_nil, String.append_empty, String.reduceAppend] at hdecoded
  exact ⟨h, hdecoded⟩

/-- A text written so that nothing but letters, digits and references by number stands in it. -/
def escape (s : String) : List Char := s.toList.flatMap Reference.escapeChar

theorem mem_escape {c : Char} {s : String} (h : c ∈ escape s) :
    c.isAlphanum = true ∨ c = '&' ∨ c = '#' ∨ c = ';' := by
  obtain ⟨d, -, hd⟩ := List.mem_flatMap.mp h
  rw [Reference.escapeChar] at hd
  split at hd
  · next ha =>
    rw [List.mem_singleton] at hd
    exact .inl (hd ▸ ha)
  · simp only [List.cons_append, List.mem_cons, List.mem_append, List.not_mem_nil, or_false] at hd
    rcases hd with hd | hd | hd | hd
    · exact .inr (.inl hd)
    · exact .inr (.inr (.inl hd))
    · have hg := Decimal.isDigit_of_mem_digits hd
      exact .inl (by simp [Char.isAlphanum, hg])
    · exact .inr (.inr (.inr hd))

theorem ne_of_mem_escape {c : Char} {s : String} (h : c ∈ escape s) :
    c ≠ '\x22' ∧ c ≠ '<' ∧ c ≠ '\x00' := by
  rcases mem_escape h with h | rfl | rfl | rfl
  · refine ⟨?_, ?_, ?_⟩ <;> rintro rfl <;> simp at h
  all_goals decide

theorem decodeReferences_escape (s : String) : decodeReferences (String.ofList (escape s)) = s := by
  rw [decodeReferences, String.toList_ofList, escape, Reference.decodeFrom_escape, String.ofList_toList]

end MarkupNesting
