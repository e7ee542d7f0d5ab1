import MarkupNesting.Grammar.Language
import MarkupNesting.Grammar.Text

/-! Trees under construction. A tree knows how much of the text it covers and what the errors in it
cost; of several readings of a text the cheapest is kept. -/

namespace MarkupNesting.Grammar

/-- What errors cost: each place of recovery, each token supplied, and each tree, row and byte that
is skipped. -/
structure Costs where
  recovery : Nat
  missing : Nat
  tree : Nat
  row : Nat
  byte : Nat

def costs : Costs := ⟨500, 110, 100, 30, 1⟩

/-- The facts of a tree. Positions are those of its text, `origin` that of the space before it;
`σ` is the state of the scanner. -/
structure Facts (σ : Type) where
  symbol : Symbol
  origin : Nat
  start : Nat
  stop : Nat
  extra : Bool := false
  missing : Bool := false
  visible : Bool := false
  cost : Nat := 0
  weight : Int := 0
  shape : Nat := 0
  /-- How many visible trees it holds, and how many right below it. -/
  visibleWithin : Nat := 0
  visibleBelow : Nat := 0
  /-- Whether a scanned token is within, and the state of the scanner after the last of them. -/
  hasScanned : Bool := false
  scanned : Option σ := none
  changed : Bool := false

inductive Subtree (σ : Type) where
  | node (facts : Facts σ) (children : List (Subtree σ))

namespace Subtree

variable {σ : Type}

def facts : Subtree σ → Facts σ
  | node f _ => f

def children : Subtree σ → List (Subtree σ)
  | node _ cs => cs

def symbol (t : Subtree σ) : Symbol := t.facts.symbol
def isExtra (t : Subtree σ) : Bool := t.facts.extra
def weight (t : Subtree σ) : Int := t.facts.weight

def cost (t : Subtree σ) : Nat :=
  if t.facts.missing then costs.missing + costs.recovery else t.facts.cost

def count (t : Subtree σ) : Nat :=
  t.facts.visibleWithin + (if t.facts.visible then 1 else 0) +
    (if t.symbol = .skipped then 1 else 0)

def withExtra (t : Subtree σ) (extra : Bool) : Subtree σ :=
  node { t.facts with extra } t.children

def addWeight (t : Subtree σ) (w : Int) : Subtree σ :=
  node { t.facts with weight := t.weight + w } t.children

def firstSymbol : Subtree σ → Symbol
  | node f [] => f.symbol
  | node _ (t :: _) => t.firstSymbol

end Subtree

namespace Language

variable (L : Language)

def display : Symbol → Bool × Bool × String
  | .error => (true, true, "ERROR")
  | .skipped => (false, false, "")
  | s =>
    match L.aliases[s]? with
    | some a => (true, a.shown, a.name)
    | none =>
      match s with
      | .token i =>
        match L.terminals[i]? with
        | some t => (t.display != .hidden, t.display == .named, t.name)
        | none =>
          match L.scanned[i - L.terminals.size]? with
          | some x => if i == L.finish then (false, true, "end")
            else (x.display == .named, x.display == .named, x.name)
          | none => (false, true, "end")
      | .rule i =>
        match L.rules[i]? with
        | some r => (r.display == .named && !r.group, true, r.name)
        | none => (false, true, "")
      | _ => (false, false, "")

/-- The order of symbols: the end, the word, other tokens, rules, skipped text, errors. -/
def rank : Symbol → Nat
  | .token i => if i == L.finish then 0 else if L.word == some i then 1 else i + 2
  | .rule i => L.finish + 2 + i
  | .skipped => L.finish + L.rules.size + 3
  | .error => L.finish + L.rules.size + 4

def shapeOf (i : Nat) : Shape := L.shapes.getD i []

def leaf {σ : Type} (symbol : Symbol) (origin start stop : Nat) : Subtree σ :=
  .node { symbol, origin, start, stop
          extra := symbol = .token L.finish, visible := (L.display symbol).1 } []

def missingLeaf {σ : Type} (symbol : Symbol) (i : Nat) : Subtree σ :=
  .node { symbol, origin := i, start := i, stop := i, missing := true
          visible := (L.display symbol).1 } []

/-- What a child adds to the facts of the node above it; `step` counts the children that are not
extra. -/
def addChild {σ : Type} (shape : Shape) (inError : Bool) (acc : Facts σ × Nat) (t : Subtree σ) :
    Facts σ × Nat :=
  let (f, step) := acc
  let c := t.facts
  let childless := t.children.isEmpty
  let skippedTrees :=
    if inError && !c.extra && !(c.symbol == .error && childless) then
      if c.visible then 1 else if childless then 0 else c.visibleBelow
    else 0
  let renamed := !c.extra && ((shape[step]?.bind (·.1)).isSome)
  let shown := renamed || c.visible
  ({ f with
      stop := c.stop
      cost := f.cost + (if c.symbol = .skipped then 0 else t.cost) + costs.tree * skippedTrees
      weight := f.weight + c.weight
      visibleWithin := f.visibleWithin + c.visibleWithin + (if shown then 1 else 0)
      visibleBelow := f.visibleBelow + (if shown then 1 else if childless then 0 else c.visibleBelow)
      hasScanned := f.hasScanned || c.hasScanned
      scanned := c.scanned.or f.scanned
      changed := f.changed || c.changed },
    if c.extra then step else step + 1)

def node {σ : Type} (text : Text) (symbol : Symbol) (shape : Nat) (children : List (Subtree σ)) :
    Subtree σ :=
  let inError := symbol == .error || symbol == .skipped
  let (origin, start) := match children with
    | t :: _ => (t.facts.origin, t.facts.start)
    | [] => (0, 0)
  let base : Facts σ :=
    { symbol, origin, start, stop := 0, shape, visible := (L.display symbol).1 }
  let f := (children.foldl (addChild (L.shapeOf shape) inError) (base, 0)).1
  let own := if !inError then 0
    else costs.recovery + if children.isEmpty then 0
      else costs.byte * (text.byte f.stop - text.byte f.start) +
        costs.row * (text.row f.stop - text.row f.start)
  .node { f with cost := f.cost + own } children

def compareTrees {σ : Type} : Nat → List (Subtree σ × Subtree σ) → Ordering
  | 0, _ => .eq
  | _ + 1, [] => .eq
  | fuel + 1, (x, y) :: rest =>
    match compare (L.rank x.symbol) (L.rank y.symbol) with
    | .lt => .lt
    | .gt => .gt
    | .eq =>
      match compare x.children.length y.children.length with
      | .lt => .lt
      | .gt => .gt
      | .eq => compareTrees fuel ((x.children.zip y.children) ++ rest)

/-- Whether the second of two readings is to be kept: the cheaper, then the heavier; among costly
ones the later, and else the smaller by comparison. -/
def prefersSecond {σ : Type} (x y : Subtree σ) : Bool :=
  if y.cost < x.cost then true
  else if x.cost < y.cost then false
  else if x.weight < y.weight then true
  else if y.weight < x.weight then false
  else if 0 < x.cost then true
  else L.compareTrees 100000 [(x, y)] == .gt

end Language

end MarkupNesting.Grammar
