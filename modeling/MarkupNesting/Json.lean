import MarkupNesting.Number.Binary64

/-! JSON values. -/

namespace MarkupNesting

inductive Json where
  | null
  | bool (b : Bool)
  | integer (i : Int)
  | binary (x : Binary64)
  | string (s : String)
  | array (items : List Json)
  | object (fields : List (String × Json))

namespace Json

instance : Inhabited Json := ⟨null⟩

def natural (n : Nat) : Json := integer n

def strings (ss : List String) : Json := array (ss.map string)

/-- A field that is written only if it has a value. -/
def optional {α : Type} (name : String) (f : α → Json) : Option α → List (String × Json)
  | some a => [(name, f a)]
  | none => []

def field? (name : String) : Json → Option Json
  | object fields => fields.lookup name
  | _ => none

def string? : Json → Option String
  | string s => some s
  | _ => none

def bool? : Json → Option Bool
  | bool b => some b
  | _ => none

def natural? (bits : Nat) : Json → Option Nat
  | integer (.ofNat n) => if n < Binary64.twoTo bits then some n else none
  | _ => none

/-- Any number, integers being taken to the nearest binary64. -/
def binary? : Json → Option Binary64
  | binary x => some x
  | integer (.ofNat n) => some (.ofNat n)
  | integer (.negSucc n) => some (Binary64.ofNat (n + 1)).neg
  | _ => none

def array? : Json → Option (List Json)
  | array items => some items
  | _ => none

def strings? (j : Json) : Option (List String) := do (← j.array?).mapM string?

/-- A value that may be absent or null. -/
def optional? {α : Type} (f : Json → Option α) : Option Json → Option (Option α)
  | none | some null => some none
  | some j => (f j).map some

end Json

end MarkupNesting
