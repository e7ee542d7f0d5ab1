import MarkupNesting.Grammar.Pattern

/-! Grammars as they are written down: rules over tokens and the names of other rules, and the
orders that settle which of two readings is meant. -/

namespace MarkupNesting.Grammar

/-- A token: what it matches, and how it stands against others that match the same text. An
immediate token has no space before it. -/
structure Token where
  pattern : Pattern
  literal : Option String
  immediate : Bool
  precedence : Int
deriving DecidableEq, Hashable

namespace Token

def ofLiteral (text : String) : Token := ⟨.text text, some text, false, 0⟩
def ofPattern (p : Pattern) : Token := ⟨p, none, false, 0⟩

/-- Of two tokens of one precedence that match the same text, the more specific one is meant: a
literal before a pattern, then one that allows no space before it. -/
def specificity (t : Token) : Nat :=
  (if t.literal.isSome then 2 else 0) + (if t.immediate then 1 else 0)

end Token

/-- How tightly a rule binds: not said, by number, or by a name that the grammar's orders rank. -/
inductive Binding where
  | unsaid
  | level (n : Int)
  | named (name : String)
deriving DecidableEq, Hashable

inductive Side where
  | none
  | left
  | right
deriving DecidableEq, Hashable

/-- The name under which a part of a rule appears in the tree; literal names are not shown. -/
structure Alias where
  name : String
  shown : Bool
deriving DecidableEq, Hashable

/-- A rule over parts of type `α`: names and tokens when written down, numbers once compiled. -/
inductive Rule (α : Type) where
  | blank
  | part (a : α)
  | seq (r s : Rule α)
  | choice (r s : Rule α)
  | repeat1 (r : Rule α)
  | binding (b : Binding) (r : Rule α)
  | side (a : Side) (r : Rule α)
  | weight (n : Int) (r : Rule α)
  | otherName (a : Alias) (r : Rule α)
  | field (name : String) (r : Rule α)
deriving DecidableEq, Hashable

inductive Term where
  | name (n : String)
  | token (t : Token)
deriving DecidableEq, Hashable

abbrev Written := Rule Term

namespace Written

instance : Coe String Written := ⟨fun s => .part (.token (.ofLiteral s))⟩

def nt (name : String) : Written := .part (.name name)
def pattern (p : Pattern) : Written := .part (.token (.ofPattern p))

def immediate (p : Int) (q : Pattern) : Written := .part (.token ⟨q, none, true, p⟩)

def cat : List Written → Written
  | [] => .blank
  | [r] => r
  | r :: rs => .seq r (cat rs)

def oneOf : List Written → Written
  | [] => .blank
  | [r] => r
  | r :: rs => .choice r (oneOf rs)

def opt (r : Written) : Written := .choice r .blank
def many (r : Written) : Written := .choice (.repeat1 r) .blank

def between1 (separator r : Written) : Written := .seq r (many (.seq separator r))
def commas1 (r : Written) : Written := between1 "," r
def commas (r : Written) : Written := opt (commas1 r)

def level (p : Int) (r : Written) : Written := .binding (.level p) r
def levelLeft (p : Int) (r : Written) : Written := .binding (.level p) (.side .left r)
def bound (b : String) (r : Written) : Written := .binding (.named b) r
def left (r : Written) : Written := .binding (.level 0) (.side .left r)
def right (r : Written) : Written := .binding (.level 0) (.side .right r)
def boundLeft (b : String) (r : Written) : Written := .binding (.named b) (.side .left r)
def boundRight (b : String) (r : Written) : Written := .binding (.named b) (.side .right r)

/-- Readings with this rule weigh `n` more when two readings of the same text are compared. -/
def weighing (n : Int) (r : Written) : Written := .weight n r
def fld (name : String) (r : Written) : Written := .field name r

def as (r : Written) (kind : String) : Written := .otherName ⟨kind, true⟩ r

def literal (text : String) : Written := .part (.token (.ofLiteral text))

def asLiteral (r : Written) (text : String) : Written := .otherName ⟨text, false⟩ r

end Written

/-- An entry of an order of bindings: a named binding, or all items of a rule. -/
inductive Rank where
  | binding (name : String)
  | rule (name : String)
deriving DecidableEq

/-- A grammar as written. Of the rules, the first is the start. -/
structure Description where
  rules : List (String × Written)
  /-- Tokens that a hand-written scanner recognises. -/
  scanned : List Written
  /-- Tokens that may stand anywhere. -/
  extras : List String
  /-- Characters that may stand before any token. -/
  space : CharSet
  /-- Rules that only group others and are not shown. -/
  groups : List String
  /-- Rules that are replaced by their bodies. -/
  inlined : List String
  /-- Each order lists bindings from the tightest. -/
  orders : List (List Rank)
  /-- The token that keywords are cut from. -/
  word : Option String
  /-- The sets of tokens that are told apart from one another, by label. -/
  contexts : List (List String)
  /-- Tokens that are read only where they are expected, by label. -/
  contextual : List String

end MarkupNesting.Grammar
