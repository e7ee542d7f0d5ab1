import MarkupNesting.Attributes

/-! The tree of elements. Every element has a name, a tag and children in order; its depth and its
attributes may be recorded with it. -/

namespace MarkupNesting

structure Tree where
  id : String
  tag : String
  children : List Tree
  depth : Option Nat
  attributes : Option Attributes

namespace Tree

mutual

def decEq : (s t : Tree) → Decidable (s = t)
  | ⟨i, g, cs, d, a⟩, ⟨j, h, ds, e, b⟩ =>
    if h1 : i = j ∧ g = h ∧ d = e ∧ a = b then
      match decEqList cs ds with
      | .isTrue h2 => .isTrue (by simp [h1, h2])
      | .isFalse h2 => .isFalse (by simp [h2])
    else .isFalse fun h => h1 (by simp only [mk.injEq] at h; simp [h])

def decEqList : (ss ts : List Tree) → Decidable (ss = ts)
  | [], [] => .isTrue rfl
  | [], _ :: _ => .isFalse (by simp)
  | _ :: _, [] => .isFalse (by simp)
  | s :: ss, t :: ts =>
    match decEq s t, decEqList ss ts with
    | .isTrue h1, .isTrue h2 => .isTrue (by simp [h1, h2])
    | .isFalse h1, _ => .isFalse (by simp [h1])
    | _, .isFalse h2 => .isFalse (by simp [h2])

end

instance : DecidableEq Tree := decEq

instance : Inhabited Tree := ⟨⟨"", "", [], none, none⟩⟩

mutual

def count : Tree → Nat
  | ⟨_, _, children, _, _⟩ => countAll children + 1

def countAll : List Tree → Nat
  | [] => 0
  | t :: ts => t.count + countAll ts

end

theorem count_pos (t : Tree) : 0 < t.count := by cases t; simp [count]

@[simp] theorem countAll_append (ss ts : List Tree) :
    countAll (ss ++ ts) = countAll ss + countAll ts := by
  induction ss with
  | nil => simp [countAll]
  | cons s ss ih => simp [countAll, ih, Nat.add_assoc]

/-- Whether any attribute is recorded. -/
def hasAttributes (t : Tree) : Bool := t.attributes.any fun a => !a.isEmpty

end Tree

end MarkupNesting
