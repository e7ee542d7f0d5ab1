import MarkupNesting.Failure

/-! The syntax tree of a module, as far as JSX is concerned. Punctuation is left out. -/

namespace MarkupNesting.Jsx

inductive Kind where
  | element
  | selfClosingElement
  | fragment
  | openingElement
  /-- An expression in braces. -/
  | container
  | parenthesized
  | comment
  /-- A name without dots, its text as written. -/
  | name
  /-- A name with a dot. -/
  | dotted
  | other
deriving DecidableEq, Repr

/-- What a node is to the node above it. -/
inductive Role where
  | name
  | object
  | property
  | none
deriving DecidableEq, Repr

/-- How a node came about: it was read, it stands for what does not fit, or it was supplied where it
is missing. A missing node has the kind it is reported by. -/
inductive Origin where
  | read
  | error
  | missing (reported : String)
deriving DecidableEq, Repr

structure Node where
  kind : Kind
  role : Role
  origin : Origin
  /-- Whether the node is more than punctuation. -/
  named : Bool
  place : Place
  text : String
  children : List Node

namespace Node

def isJsx (n : Node) : Bool :=
  n.kind = .element || n.kind = .selfClosingElement || n.kind = .fragment

mutual

def count : Node → Nat
  | ⟨_, _, _, _, _, _, children⟩ => countAll children + 1

def countAll : List Node → Nat
  | [] => 0
  | n :: ns => n.count + countAll ns

end

@[simp] theorem countAll_append (ms ns : List Node) :
    countAll (ms ++ ns) = countAll ms + countAll ns := by
  induction ms with
  | nil => simp [countAll]
  | cons m ms ih => simp [countAll, ih, Nat.add_assoc]

mutual

def hasFault : Node → Bool
  | ⟨_, _, origin, _, _, _, children⟩ => origin ≠ .read || anyFault children

def anyFault : List Node → Bool
  | [] => false
  | n :: ns => n.hasFault || anyFault ns

end

end Node

end MarkupNesting.Jsx
