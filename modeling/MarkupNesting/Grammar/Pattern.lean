/-! Patterns of tokens over sets of characters, matched by partial derivatives: reading a character
turns a pattern into the patterns of what may follow, so a set of patterns is all the state a lexer
needs. -/

namespace MarkupNesting.Grammar

/-- The characters whose code lies in one of the closed ranges, or in none of them. -/
structure CharSet where
  complement : Bool
  ranges : List (Nat × Nat)
deriving DecidableEq, Hashable

namespace CharSet

def contains (s : CharSet) (c : Char) : Bool :=
  s.complement != s.ranges.any fun r => r.1 ≤ c.toNat && c.toNat ≤ r.2

def ofChars (cs : List Char) : CharSet :=
  ⟨false, cs.map fun c => (c.toNat, c.toNat)⟩

def range (low high : Char) : CharSet :=
  ⟨false, [(low.toNat, high.toNat)]⟩

def single (c : Char) : CharSet :=
  ofChars [c]

def union (ss : List CharSet) : CharSet :=
  ⟨false, ss.flatMap (·.ranges)⟩

def except (s : CharSet) : CharSet :=
  ⟨!s.complement, s.ranges⟩

/-- White space of the token patterns: U+0009 to U+000D and the space. -/
def space : CharSet := ⟨false, [(9, 13), (32, 32)]⟩
def digit : CharSet := range '0' '9'
def octal : CharSet := range '0' '7'
def lower : CharSet := range 'a' 'z'
def letter : CharSet := union [lower, range 'A' 'Z']
def hex : CharSet := union [digit, range 'a' 'f', range 'A' 'F']

/-- The space separators of Unicode (general category Zs). -/
def spaceSeparator : CharSet :=
  ⟨false, [(0x20, 0x20), (0xa0, 0xa0), (0x1680, 0x1680), (0x2000, 0x200a), (0x202f, 0x202f),
    (0x205f, 0x205f), (0x3000, 0x3000)]⟩

end CharSet

inductive Pattern where
  | empty
  | chars (s : CharSet)
  | seq (p q : Pattern)
  | alt (p q : Pattern)
  | star (p : Pattern)
deriving DecidableEq, Hashable

namespace Pattern

def nullable : Pattern → Bool
  | empty => true
  | chars _ => false
  | seq p q => p.nullable && q.nullable
  | alt p q => p.nullable || q.nullable
  | star _ => true

/-- One pattern after another; nothing is kept of an empty first one. -/
def andThen : Pattern → Pattern → Pattern
  | empty, q => q
  | p, q => seq p q

/-- What may follow once the pattern has read `c`; no pattern at all if it cannot. -/
def after (c : Char) : Pattern → List Pattern
  | empty => []
  | chars s => if s.contains c then [empty] else []
  | seq p q => (p.after c).map (·.andThen q) ++ if p.nullable then q.after c else []
  | alt p q => p.after c ++ q.after c
  | star p => (p.after c).map (·.andThen (star p))

def accepts : Pattern → List Char → Bool
  | p, [] => p.nullable
  | p, c :: cs => (p.after c).any (accepts · cs)

def all (ps : List Pattern) : Pattern := ps.foldr andThen empty

def any : List Pattern → Pattern
  | [] => chars ⟨false, []⟩
  | [p] => p
  | p :: ps => alt p (any ps)

def noneOf (listed : String) (sets : List CharSet) : Pattern :=
  chars (CharSet.union (.ofChars listed.toList :: sets)).except

def oneOf (listed : String) : Pattern := chars (.ofChars listed.toList)
def char (c : Char) : Pattern := chars (.single c)
def text (s : String) : Pattern := all (s.toList.map char)
def opt (p : Pattern) : Pattern := alt p empty
def plus (p : Pattern) : Pattern := seq p (star p)

def times (p : Pattern) : Nat → Pattern
  | 0 => empty
  | n + 1 => p.andThen (p.times n)

def upTo (p : Pattern) : Nat → Pattern
  | 0 => empty
  | n + 1 => opt (p.andThen (p.upTo n))

/-- Between once and `n + 1` times. -/
def between (p : Pattern) (n : Nat) : Pattern := p.andThen (p.upTo n)

end Pattern

end MarkupNesting.Grammar
