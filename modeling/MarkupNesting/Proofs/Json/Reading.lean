import MarkupNesting.Proofs.Json.Spelling

/-! Reading JSON values. Where a value is written in any way of spacing it is read, and no more of
the text is taken; only natural numbers that do not fit 64 bits are read as something else. -/

namespace MarkupNesting.Json

open Binary64

mutual

def EachNumber (p : Json → Prop) : Json → Prop
  | integer i => p (integer i)
  | binary x => p (binary x)
  | array items => EachNumberIn p items
  | object fields => EachNumberAmong p fields
  | null | bool _ | string _ => True

def EachNumberIn (p : Json → Prop) : List Json → Prop
  | [] => True
  | j :: js => j.EachNumber p ∧ EachNumberIn p js

def EachNumberAmong (p : Json → Prop) : List (String × Json) → Prop
  | [] => True
  | (_, v) :: fs => v.EachNumber p ∧ EachNumberAmong p fs

end

/-- The numbers that an analysis writes: natural numbers, and numbers with two decimal places. -/
def IsWritten : Json → Prop
  | integer (.ofNat _) => True
  | binary x => ∃ k < hundredthsLimit, x = nearest k 100
  | _ => False

/-- Those that are read back: natural numbers of at most 64 bits. -/
def IsExact : Json → Prop
  | integer (.ofNat n) => n < twoTo 64
  | binary x => ∃ k < hundredthsLimit, x = nearest k 100
  | _ => False

mutual

/-- What the text of a value is read as. -/
def asRead : Json → Option Json
  | integer (.ofNat n) => readNatural n
  | array items => (asReadIn items).map array
  | object fields => (asReadAmong fields).map object
  | j => some j

def asReadIn : List Json → Option (List Json)
  | [] => some []
  | j :: js => do return (← j.asRead) :: (← asReadIn js)

def asReadAmong : List (String × Json) → Option (List (String × Json))
  | [] => some []
  | (k, v) :: fs => do return (k, ← v.asRead) :: (← asReadAmong fs)

end

mutual

theorem EachNumber.mono {p q : Json → Prop} (h : ∀ j, p j → q j) : (j : Json) →
    j.EachNumber p → j.EachNumber q
  | integer _, hj | binary _, hj => h _ hj
  | array items, hj => EachNumberIn.mono h items hj
  | object fields, hj => EachNumberAmong.mono h fields hj
  | null, _ | bool _, _ | string _, _ => trivial

theorem EachNumberIn.mono {p q : Json → Prop} (h : ∀ j, p j → q j) : (js : List Json) →
    EachNumberIn p js → EachNumberIn q js
  | [], _ => trivial
  | j :: js, hj => ⟨EachNumber.mono h j hj.1, EachNumberIn.mono h js hj.2⟩

theorem EachNumberAmong.mono {p q : Json → Prop} (h : ∀ j, p j → q j) : (fs : List (String × Json)) →
    EachNumberAmong p fs → EachNumberAmong q fs
  | [], _ => trivial
  | (_, v) :: fs, hj => ⟨EachNumber.mono h v hj.1, EachNumberAmong.mono h fs hj.2⟩

end

theorem isWritten_of_isExact : (j : Json) → IsExact j → IsWritten j
  | integer (.ofNat _), _ => trivial
  | integer (.negSucc _), h => h.elim
  | binary _, h => h
  | null, h | bool _, h | string _, h | array _, h | object _, h => h.elim

mutual

/-- A value whose natural numbers fit is read as it is. -/
theorem asRead_eq_self : (j : Json) → j.EachNumber IsExact → j.asRead = some j
  | integer (.ofNat n), h => readNatural_eq h
  | integer (.negSucc _), _ | binary _, _ | null, _ | bool _, _ | string _, _ => rfl
  | array items, h => by rw [asRead, asReadIn_eq_self items h, Option.map_some]
  | object fields, h => by rw [asRead, asReadAmong_eq_self fields h, Option.map_some]

theorem asReadIn_eq_self : (js : List Json) → EachNumberIn IsExact js → asReadIn js = some js
  | [], _ => rfl
  | j :: js, h => by
    rw [asReadIn, asRead_eq_self j h.1, asReadIn_eq_self js h.2]
    rfl

theorem asReadAmong_eq_self : (fs : List (String × Json)) → EachNumberAmong IsExact fs →
    asReadAmong fs = some fs
  | [], _ => rfl
  | (k, v) :: fs, h => by
    rw [asReadAmong, asRead_eq_self v h.1, asReadAmong_eq_self fs h.2]
    rfl

end

theorem asReadIn_map {α : Type} {f : α → Json} {g : α → Option Json} {xs : List α}
    (h : ∀ x ∈ xs, (f x).asRead = g x) : asReadIn (xs.map f) = xs.mapM g := by
  induction xs with
  | nil => rfl
  | cons x xs ih =>
    rw [List.forall_mem_cons] at h
    rw [List.map_cons, asReadIn, List.mapM_cons, h.1, ih h.2]

theorem skipSpace_append {gap : List Char} (h : ∀ c ∈ gap, isSpace c = true) (cs : List Char) :
    skipSpace (gap ++ cs) = skipSpace cs := List.dropWhile_append_of_pos h

theorem skipSpace_cons {c : Char} (h : isSpace c = false) (cs : List Char) :
    skipSpace (c :: cs) = c :: cs := List.dropWhile_cons_of_neg (by simp [h])

theorem readValue_gap (fuel : Nat) {gap : List Char} (h : ∀ c ∈ gap, isSpace c = true) (cs : List Char) :
    readValue fuel (gap ++ cs) = readValue fuel cs := by
  cases fuel with
  | zero => rw [readValue, readValue]
  | succ fuel => rw [readValue, readValue, skipSpace_append h]

theorem readItems_gap (fuel : Nat) {gap : List Char} (h : ∀ c ∈ gap, isSpace c = true) (cs : List Char) :
    readItems fuel (gap ++ cs) = readItems fuel cs := by
  cases fuel with
  | zero => rw [readItems, readItems]
  | succ fuel => rw [readItems, readItems, readValue_gap fuel h]

theorem readFields_gap (fuel : Nat) {gap : List Char} (h : ∀ c ∈ gap, isSpace c = true)
    (cs : List Char) : readFields fuel (gap ++ cs) = readFields fuel cs := by
  cases fuel with
  | zero => rw [readFields, readFields]
  | succ fuel => rw [readFields, readFields, skipSpace_append h]

theorem endsNumber_of_isSpace {c : Char} (h : isSpace c = true) :
    c.isDigit = false ∧ c ≠ '.' ∧ c ≠ 'e' ∧ c ≠ 'E' := by
  simp only [isSpace, Bool.or_eq_true, decide_eq_true_eq] at h
  rcases h with ((rfl | rfl) | rfl) | rfl <;> decide

/-- A number ends before white space and what ends it without. -/
theorem endsNumber_gap {gap : List Char} (h : ∀ c ∈ gap, isSpace c = true) {cs : List Char}
    (hc : EndsNumber cs) : EndsNumber (gap ++ cs) := by
  cases gap with
  | nil => exact hc
  | cons c gap => exact endsNumber_cons (endsNumber_of_isSpace (h c (by simp))) _

section Spell

variable (w : Spacing) (depth : Nat)

theorem endsNumber_spellItems (js : List Json) (rest : List Char) :
    EndsNumber (spellItems w depth js ++ rest) := by
  cases js with
  | nil =>
    rw [spellItems, List.append_assoc]
    exact endsNumber_gap (w.line_space depth) (endsNumber_cons (by decide) _)
  | cons j js =>
    rw [spellItems]
    exact endsNumber_cons (by decide) _

theorem endsNumber_spellFields (fs : List (String × Json)) (rest : List Char) :
    EndsNumber (spellFields w depth fs ++ rest) := by
  cases fs with
  | nil =>
    rw [spellFields, List.append_assoc]
    exact endsNumber_gap (w.line_space depth) (endsNumber_cons (by decide) _)
  | cons f fs =>
    rw [spellFields]
    exact endsNumber_cons (by decide) _

theorem ne_of_isDigit {c : Char} (h : c.isDigit = true) {x : Char} (hx : x.isDigit = false) : c ≠ x := by
  rintro rfl
  rw [hx] at h
  cases h

theorem isSpace_of_isDigit {c : Char} (h : c.isDigit = true) : isSpace c = false := by
  have hne := fun x hx => ne_of_isDigit h (x := x) hx
  simp [isSpace, hne ' ' (by decide), hne '\n' (by decide), hne '\t' (by decide), hne '\r' (by decide)]

theorem readValue_digit (fuel : Nat) {c : Char} (h : c.isDigit = true) (cs : List Char) :
    readValue (fuel + 1) (c :: cs) = readNumber false (c :: cs) := by
  have hne := fun x hx => ne_of_isDigit h (x := x) hx
  rw [readValue, skipSpace_cons (isSpace_of_isDigit h)]
  split
  all_goals simp_all

theorem exists_digit_natural (n : Nat) :
    ∃ c cs, Decimal.digits n = c :: cs ∧ c.isDigit = true := by
  obtain ⟨c, cs, hcs⟩ := List.exists_cons_of_ne_nil (Decimal.digits_ne_nil n)
  exact ⟨c, cs, hcs, Decimal.isDigit_of_mem_digits (n := n) (by simp [hcs])⟩

theorem exists_digit_hundredths {k : Nat} (hk : k < hundredthsLimit) :
    ∃ c cs, (nearest k 100).chars = c :: cs ∧ c.isDigit = true := by
  obtain ⟨whole, fraction, hchars, hd⟩ := exists_chars hk
  obtain ⟨c, cs, hcs⟩ := List.exists_cons_of_ne_nil hd.whole_ne_nil
  exact ⟨c, cs ++ '.' :: fraction, by rw [hchars, hcs, List.cons_append],
    hd.whole_digits c (by simp [hcs])⟩

theorem exists_head_spell : {j : Json} → j.EachNumber IsWritten →
    ∃ c cs, spell w depth j = c :: cs ∧ isSpace c = false ∧ c ≠ ']'
  | null, _ => ⟨'n', "ull".toList, by simp [spell, writeWord], by decide, by decide⟩
  | bool true, _ => ⟨'t', "rue".toList, by simp [spell, writeWord], by decide, by decide⟩
  | bool false, _ => ⟨'f', "alse".toList, by simp [spell, writeWord], by decide, by decide⟩
  | integer (.negSucc _), h => h.elim
  | integer (.ofNat n), _ => by
    obtain ⟨c, cs, hcs, hc⟩ := exists_digit_natural n
    exact ⟨c, cs, by simp [spell, writeInteger, hcs], isSpace_of_isDigit hc,
      ne_of_isDigit hc (by decide)⟩
  | binary x, h => by
    obtain ⟨k, hk, rfl⟩ := h
    obtain ⟨c, cs, hcs, hc⟩ := exists_digit_hundredths hk
    exact ⟨c, cs, hcs, isSpace_of_isDigit hc, ne_of_isDigit hc (by decide)⟩
  | string s, _ => ⟨'\x22', _, writeString_eq s [], by decide, by decide⟩
  | array [], _ => ⟨'[', _, rfl, by decide, by decide⟩
  | array (_ :: _), _ => ⟨'[', _, rfl, by decide, by decide⟩
  | object [], _ => ⟨'\x7b', _, rfl, by decide, by decide⟩
  | object (_ :: _), _ => ⟨'\x7b', _, rfl, by decide, by decide⟩

theorem readValue_word (fuel : Nat) (rest : List Char) :
    readValue (fuel + 1) ("null".toList ++ rest) = some (null, rest) ∧
      readValue (fuel + 1) ("true".toList ++ rest) = some (bool true, rest) ∧
      readValue (fuel + 1) ("false".toList ++ rest) = some (bool false, rest) :=
  ⟨rfl, rfl, rfl⟩

theorem readValue_string {fuel : Nat} {s : String} (h : s.toList.length < fuel) (rest : List Char) :
    readValue (fuel + 1) (writeString s rest) = some (string s, rest) := by
  rw [writeString_eq, readValue, skipSpace_cons (by decide)]
  simp only [readString_escaped fuel [] s.toList rest h]
  simp

theorem length_writeString (s : String) (rest : List Char) :
    s.toList.length + rest.length + 2 ≤ (writeString s rest).length := by
  have hle := length_le_escaped s.toList
  simp only [writeString_eq, List.length_cons, List.length_append]
  omega

def itemsText : List Json → List Char
  | [] => []
  | j :: js => spell w (depth + 1) j ++ spellItems w depth js

def fieldsText : List (String × Json) → List Char
  | [] => []
  | (k, v) :: fs => writeString k (':' :: (w.colon ++ (spell w (depth + 1) v ++ spellFields w depth fs)))

theorem spell_array (j : Json) (js : List Json) :
    spell w depth (array (j :: js)) = '[' :: (w.line (depth + 1) ++ itemsText w depth (j :: js)) := by
  rw [spell, itemsText, List.append_assoc]

theorem spellItems_cons (j : Json) (js : List Json) :
    spellItems w depth (j :: js) = ',' :: (w.line (depth + 1) ++ itemsText w depth (j :: js)) := by
  rw [spellItems, itemsText, List.append_assoc]

theorem spell_object (f : String × Json) (fs : List (String × Json)) :
    spell w depth (object (f :: fs)) =
      '\x7b' :: (w.line (depth + 1) ++ fieldsText w depth (f :: fs)) := by
  obtain ⟨k, v⟩ := f
  rw [spell, fieldsText]
  simp [writeString_append]

theorem spellFields_cons (f : String × Json) (fs : List (String × Json)) :
    spellFields w depth (f :: fs) = ',' :: (w.line (depth + 1) ++ fieldsText w depth (f :: fs)) := by
  obtain ⟨k, v⟩ := f
  rw [spellFields, fieldsText]
  simp [writeString_append]

theorem skipSpace_spellItems_nil (rest : List Char) :
    skipSpace (spellItems w depth [] ++ rest) = ']' :: rest := by
  rw [spellItems, List.append_assoc, skipSpace_append (w.line_space depth)]
  rfl

theorem skipSpace_spellFields_nil (rest : List Char) :
    skipSpace (spellFields w depth [] ++ rest) = '\x7d' :: rest := by
  rw [spellFields, List.append_assoc, skipSpace_append (w.line_space depth)]
  rfl

theorem length_spellItems_pos (js : List Json) : 0 < (spellItems w depth js).length := by
  cases js with
  | nil => simp [spellItems]
  | cons j js => simp [spellItems]

theorem length_spellFields_pos (fs : List (String × Json)) : 0 < (spellFields w depth fs).length := by
  cases fs with
  | nil => simp [spellFields]
  | cons f fs => simp [spellFields]

mutual

/-- A value is read where it was written. -/
theorem readValue_spell : (j : Json) → j.EachNumber IsWritten → ∀ depth (fuel : Nat),
    (spell w depth j).length < fuel → ∀ {rest : List Char}, EndsNumber rest →
    readValue fuel (spell w depth j ++ rest) = j.asRead.map fun j => (j, rest)
  | j, _, _, 0, hf, _, _ => by cases hf
  | null, _, _, fuel + 1, _, rest, _ => by
    rw [spell, writeWord_append]
    exact (readValue_word fuel rest).1
  | bool true, _, _, fuel + 1, _, rest, _ => by
    rw [spell, writeWord_append]
    exact (readValue_word fuel rest).2.1
  | bool false, _, _, fuel + 1, _, rest, _ => by
    rw [spell, writeWord_append]
    exact (readValue_word fuel rest).2.2
  | integer (.negSucc _), h, _, _, _, _, _ => h.elim
  | integer (.ofNat n), _, _, fuel + 1, _, rest, hr => by
    obtain ⟨c, cs, hcs, hc⟩ := exists_digit_natural n
    have hn := readNumber_natural n hr
    rw [hcs] at hn
    rw [spell, writeInteger_append, writeInteger, hcs, List.cons_append, readValue_digit fuel hc]
    exact hn
  | binary x, h, _, fuel + 1, _, rest, hr => by
    obtain ⟨k, hk, rfl⟩ := h
    obtain ⟨c, cs, hcs, hc⟩ := exists_digit_hundredths hk
    have hn := readNumber_hundredths hk hr
    rw [hcs] at hn
    rw [spell, hcs, List.cons_append, readValue_digit fuel hc]
    exact hn
  | string s, _, depth, fuel + 1, hf, rest, _ => by
    have hlen := length_writeString s []
    rw [spell] at hf
    rw [spell, writeString_append, List.nil_append]
    exact readValue_string (by omega) rest
  | array [], _, _, fuel + 1, _, rest, _ => rfl
  | object [], _, _, fuel + 1, _, rest, _ => rfl
  | array (j :: js), h, depth, fuel + 1, hf, rest, _ => by
    rw [spell_array, List.length_cons, List.length_append] at hf
    have hitems := readItems_spell (j :: js) h depth fuel (by omega) rest (by simp)
    obtain ⟨c, cs, hcs, hspace, hend⟩ := exists_head_spell w (depth + 1) h.1
    -- the first item is neither white space nor the end
    have hskip : skipSpace (w.line (depth + 1) ++ (itemsText w depth (j :: js) ++ rest)) =
        itemsText w depth (j :: js) ++ rest := by
      rw [skipSpace_append (w.line_space _), itemsText, hcs]
      exact skipSpace_cons hspace _
    -- so the match on the end of the array falls through
    have hnot : ∀ more, itemsText w depth (j :: js) ++ rest ≠ ']' :: more := by
      intro more heq
      rw [itemsText, hcs] at heq
      exact hend (List.cons.inj heq).1
    rw [spell_array, List.cons_append, List.append_assoc, readValue, skipSpace_cons (by decide)]
    simp only [hskip, hitems, asRead]
    cases asReadIn (j :: js) <;> rfl
  | object (f :: fs), h, depth, fuel + 1, hf, rest, _ => by
    rw [spell_object, List.length_cons, List.length_append] at hf
    have hfields := readFields_spell (f :: fs) h depth fuel (by omega) rest (by simp)
    obtain ⟨cs, hcs⟩ : ∃ cs, fieldsText w depth (f :: fs) = '\x22' :: cs := ⟨_, writeString_eq _ _⟩
    have hskip : skipSpace (w.line (depth + 1) ++ (fieldsText w depth (f :: fs) ++ rest)) =
        fieldsText w depth (f :: fs) ++ rest := by
      rw [skipSpace_append (w.line_space _), hcs]
      exact skipSpace_cons (by decide) _
    have hnot : ∀ more, fieldsText w depth (f :: fs) ++ rest ≠ '\x7d' :: more := by
      intro more heq
      rw [hcs] at heq
      exact absurd (List.cons.inj heq).1 (by decide)
    rw [spell_object, List.cons_append, List.append_assoc, readValue, skipSpace_cons (by decide)]
    simp only [hskip, hfields, asRead]
    cases asReadAmong (f :: fs) <;> rfl

theorem readItems_spell : (js : List Json) → EachNumberIn IsWritten js → ∀ depth (fuel : Nat),
    (itemsText w depth js).length < fuel → ∀ rest : List Char, js ≠ [] →
    readItems fuel (itemsText w depth js ++ rest) = (asReadIn js).map fun js => (js, rest)
  | _, _, _, 0, hf, _, _ => by cases hf
  | [], _, _, _, _, _, hne => absurd rfl hne
  | j :: js, h, depth, fuel + 1, hf, rest, _ => by
    have hpos := length_spellItems_pos w depth js
    rw [itemsText, List.length_append] at hf
    have hj := readValue_spell j h.1 (depth + 1) fuel (by omega)
      (endsNumber_spellItems w depth js rest)
    rw [itemsText, List.append_assoc, readItems, hj, asReadIn]
    cases hread : j.asRead with
    | none => rfl
    | some k =>
      cases js with
      | nil =>
        simp only [Option.map_some, Option.bind_eq_bind, Option.bind_some, skipSpace_spellItems_nil,
          asReadIn]
        rfl
      | cons i is =>
        rw [spellItems_cons, List.length_cons, List.length_append] at hf
        have his := readItems_spell (i :: is) h.2 depth fuel (by omega) rest (by simp)
        rw [← readItems_gap fuel (w.line_space (depth + 1))] at his
        rw [spellItems_cons, List.cons_append, List.append_assoc]
        have hcomma := skipSpace_cons (show isSpace ',' = false by decide)
        simp only [Option.map_some, Option.bind_eq_bind, Option.bind_some, hcomma, his]
        cases asReadIn (i :: is) <;> rfl

theorem readFields_spell : (fs : List (String × Json)) → EachNumberAmong IsWritten fs →
    ∀ depth (fuel : Nat), (fieldsText w depth fs).length < fuel → ∀ rest : List Char, fs ≠ [] →
    readFields fuel (fieldsText w depth fs ++ rest) = (asReadAmong fs).map fun fs => (fs, rest)
  | _, _, _, 0, hf, _, _ => by cases hf
  | [], _, _, _, _, _, hne => absurd rfl hne
  | (k, v) :: fs, h, depth, fuel + 1, hf, rest, _ => by
    have hpos := length_spellFields_pos w depth fs
    have hlen := length_writeString k
      (':' :: (w.colon ++ (spell w (depth + 1) v ++ spellFields w depth fs)))
    simp only [List.length_cons, List.length_append] at hlen
    rw [fieldsText] at hf
    have hv := readValue_spell v h.1 (depth + 1) fuel (by omega)
      (endsNumber_spellFields w depth fs rest)
    rw [← readValue_gap fuel w.colon_space] at hv
    have hquote := skipSpace_cons (show isSpace '\x22' = false by decide)
    have hcolon := skipSpace_cons (show isSpace ':' = false by decide)
    have hkey := readString_escaped fuel [] k.toList
      (':' :: (w.colon ++ (spell w (depth + 1) v ++ (spellFields w depth fs ++ rest)))) (by omega)
    rw [List.reverse_nil, List.nil_append, String.ofList_toList] at hkey
    rw [fieldsText, writeString_append, writeString_eq, readFields, hquote]
    simp only [List.cons_append, List.append_assoc, hkey, Option.bind_eq_bind, Option.bind_some, hcolon,
      hv, asReadAmong]
    cases hread : v.asRead with
    | none => rfl
    | some j =>
      cases fs with
      | nil =>
        simp only [Option.map_some, Option.bind_some, skipSpace_spellFields_nil, asReadAmong]
        rfl
      | cons f fs =>
        have hmore : (spellFields w depth (f :: fs)).length =
            (w.line (depth + 1)).length + (fieldsText w depth (f :: fs)).length + 1 := by
          rw [spellFields_cons, List.length_cons, List.length_append]
        have hfs := readFields_spell (f :: fs) h.2 depth fuel (by omega) rest (by simp)
        rw [← readFields_gap fuel (w.line_space (depth + 1))] at hfs
        have hcomma := skipSpace_cons (show isSpace ',' = false by decide)
        rw [spellFields_cons, List.cons_append, List.append_assoc]
        simp only [Option.map_some, Option.bind_some, hcomma, hfs]
        cases asReadAmong (f :: fs) <;> rfl

end

end Spell

/-- A text of a value, with white space after it, is read as the value. -/
theorem parse_spell (w : Spacing) {j : Json} (hj : j.EachNumber IsWritten) {gap : List Char}
    (hg : ∀ c ∈ gap, isSpace c = true) :
    parse (String.ofList (spell w 0 j ++ gap)) = j.asRead := by
  have hends : EndsNumber gap := by simpa using endsNumber_gap hg endsNumber_nil
  have hlen : (spell w 0 j).length < (spell w 0 j ++ gap).length + 1 := by
    rw [List.length_append]
    omega
  have hread := readValue_spell w j hj 0 _ hlen hends
  have hskip : skipSpace gap = [] := by simpa [skipSpace] using skipSpace_append hg []
  rw [parse]
  simp only [String.toList_ofList, hread]
  cases j.asRead with
  | none => rfl
  | some k => simp [hskip]

theorem parse_compact {j : Json} (hj : j.EachNumber IsWritten) (gap : String)
    (hg : ∀ c ∈ gap.toList, isSpace c = true) : parse (j.compact ++ gap) = j.asRead := by
  have h := parse_spell .none hj hg
  rwa [String.ofList_append, ← compact_eq_spell, String.ofList_toList] at h

theorem parse_pretty {j : Json} (hj : j.EachNumber IsWritten) (gap : String)
    (hg : ∀ c ∈ gap.toList, isSpace c = true) : parse (j.pretty ++ gap) = j.asRead := by
  have h := parse_spell .lines hj hg
  rwa [String.ofList_append, ← pretty_eq_spell, String.ofList_toList] at h

end MarkupNesting.Json
