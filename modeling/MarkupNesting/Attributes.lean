/-! The attributes of an element: names with values, each name once, in the order of the names. -/

namespace MarkupNesting

structure Attributes where
  entries : List (String × String)
  sorted : entries.Pairwise (·.1 < ·.1)
deriving DecidableEq

namespace Attributes

def empty : Attributes := ⟨[], .nil⟩

def isEmpty (a : Attributes) : Bool := a.entries.isEmpty

def get? (a : Attributes) (name : String) : Option String := a.entries.lookup name

/-- Adds a name with a value; of one name with two values `keep` says which stays. -/
def insertEntry (keep : String → String → String) (name value : String) :
    List (String × String) → List (String × String)
  | [] => [(name, value)]
  | (n, v) :: rest =>
    if name < n then (name, value) :: (n, v) :: rest
    else if n < name then (n, v) :: insertEntry keep name value rest
    else (n, keep v value) :: rest

theorem mem_insertEntry {keep : String → String → String} {name value : String}
    {es : List (String × String)} {e : String × String} (h : e ∈ insertEntry keep name value es) :
    e.1 = name ∨ ∃ f ∈ es, f.1 = e.1 := by
  induction es with
  | nil => simp [insertEntry] at h; exact .inl (by rw [h])
  | cons f rest ih =>
    obtain ⟨n, v⟩ := f
    simp only [insertEntry] at h
    split at h
    · simp only [List.mem_cons] at h
      rcases h with h | h | h
      · exact .inl (by rw [h])
      · exact .inr ⟨(n, v), by simp, by rw [h]⟩
      · exact .inr ⟨e, by simp [h], rfl⟩
    · split at h
      · simp only [List.mem_cons] at h
        rcases h with h | h
        · exact .inr ⟨(n, v), by simp, by rw [h]⟩
        · rcases ih h with h1 | ⟨f, hf, h1⟩
          · exact .inl h1
          · exact .inr ⟨f, by simp [hf], h1⟩
      · simp only [List.mem_cons] at h
        rcases h with h | h
        · exact .inr ⟨(n, v), by simp, by rw [h]⟩
        · exact .inr ⟨e, by simp [h], rfl⟩

theorem insertEntry_sorted (keep : String → String → String) (name value : String)
    {es : List (String × String)} (h : es.Pairwise (·.1 < ·.1)) :
    (insertEntry keep name value es).Pairwise (·.1 < ·.1) := by
  induction es with
  | nil => simp [insertEntry]
  | cons e rest ih =>
    obtain ⟨n, v⟩ := e
    rw [List.pairwise_cons] at h
    simp only [insertEntry]
    split
    · next hn =>
      refine .cons (fun f hf => ?_) (.cons h.1 h.2)
      rw [List.mem_cons] at hf
      rcases hf with hf | hf
      · exact hf ▸ hn
      · exact String.lt_trans hn (h.1 f hf)
    · split
      · next hn =>
        refine .cons (fun f hf => ?_) (ih h.2)
        rcases mem_insertEntry hf with h1 | ⟨g, hg, h1⟩
        · exact h1 ▸ hn
        · exact h1 ▸ h.1 g hg
      · exact .cons h.1 h.2

def addFirst (a : Attributes) (name value : String) : Attributes :=
  ⟨insertEntry (fun old _ => old) name value a.entries, insertEntry_sorted _ _ _ a.sorted⟩

def put (a : Attributes) (name value : String) : Attributes :=
  ⟨insertEntry (fun _ new => new) name value a.entries, insertEntry_sorted _ _ _ a.sorted⟩

/-- The map of a list of names with values, the first value of a name being kept. -/
def ofFirst (es : List (String × String)) : Attributes :=
  es.foldl (fun a e => a.addFirst e.1 e.2) empty

/-- The map of a list of names with values, the last value of a name being kept. -/
def ofLast (es : List (String × String)) : Attributes :=
  es.foldl (fun a e => a.put e.1 e.2) empty

theorem ext_entries {a b : Attributes} (h : a.entries = b.entries) : a = b := by
  cases a; cases b; simp_all

end Attributes

end MarkupNesting
