import MarkupNesting.Grammar.Automaton
import MarkupNesting.Grammar.Lexer
import MarkupNesting.Grammar.Subtree

/-! The stacks of the parser. Several versions of the parse run side by side on stacks that share
their lower parts; two versions in the same state at the same place are merged. -/

namespace MarkupNesting.Grammar

structure ScannedToken (σ : Type) where
  index : Nat
  start : Nat
  stop : Nat
  state : σ

/-- A hand-written scanner. It is told which scanned tokens may come. -/
structure Scanner (σ : Type) where
  initial : σ
  scan : Text → Nat → (Nat → Bool) → σ → Option (ScannedToken σ)

structure Setting (σ : Type) where
  language : Language
  scanner : Scanner σ
  text : Text

structure Lookahead (σ : Type) where
  tree : Subtree σ
  keyword : Bool
  state : Nat
  context : TokenSet
  scanned : TokenSet

structure Link (σ : Type) where
  target : Nat
  tree : Option (Subtree σ)

/-- A node of the stacks. Its links lead down. -/
structure StackNode (σ : Type) where
  state : Nat
  links : List (Link σ)
  position : Nat
  cost : Nat
  weight : Int
  count : Nat

inductive Status where
  | active
  | halted
  | paused
deriving DecidableEq

/-- A place below the top of a stack to which recovery may go back. -/
structure Landmark where
  position : Nat
  depth : Nat
  state : Nat

structure Version (σ : Type) where
  top : Nat
  countAtError : Nat
  scanner : σ
  status : Status
  lookahead : Option (Lookahead σ)
  landmarks : Option (List Landmark)

structure Machine (σ : Type) where
  automaton : Automaton
  nodes : Array (StackNode σ)
  versions : Array (Version σ)
  finished : Option (Subtree σ)
  accepted : Nat
  /-- The last token read, with the position and scanner state it was read at. -/
  last : Option (Nat × σ × Lookahead σ)

abbrev Run (σ : Type) := StateM (Machine σ)

/-- What a walk down a stack says of a node: whether the path to it is wanted, and whether the walk
ends there. -/
structure Verdict where
  take : Bool
  stop : Bool

/-- A walk under way: the node reached, the trees passed from the bottom up, and how many of them
count. -/
structure Walker (σ : Type) where
  node : Nat
  trees : List (Subtree σ)
  count : Nat

/-- A path that was taken: its trees, and the version whose top is the node it ends at. -/
structure Slice (σ : Type) where
  trees : List (Subtree σ)
  version : Nat

namespace Machine

variable {σ : Type} [BEq σ] (S : Setting σ)

def entering {α : Type} (x : Entering α) : Run σ α := do
  let m ← get
  let automaton := m.automaton
  let (a, automaton) := x.run automaton
  set { m with automaton }
  return a

def actionsAt (s t : Nat) : Run σ (List Action) := entering (Automaton.actionsAt S.language s t)

def actionsOn (s : Nat) : Symbol → Run σ (List Action)
  | .token t => actionsAt S s t
  | _ => return []

def nextState (s : Nat) (x : Symbol) : Run σ Nat := entering (Automaton.next S.language s x)
def stateInfo (s : Nat) : Run σ State := entering (Automaton.state s)

def node (i : Nat) : Run σ (StackNode σ) :=
  return (← get).nodes.getD i ⟨0, [], 0, 0, 0, 0⟩

def version (v : Nat) : Run σ (Version σ) :=
  return (← get).versions.getD v ⟨0, 0, S.scanner.initial, .halted, none, none⟩

def versionCount : Run σ Nat := return (← get).versions.size

def modifyNode (i : Nat) (f : StackNode σ → StackNode σ) : Run σ Unit :=
  modify fun m => { m with nodes := m.nodes.modify i f }

def modifyVersion (v : Nat) (f : Version σ → Version σ) : Run σ Unit :=
  modify fun m => { m with versions := m.versions.modify v f }

def setStatus (v : Nat) (s : Status) : Run σ Unit := modifyVersion v fun x => { x with status := s }

def topOf (v : Nat) : Run σ (StackNode σ) := do node (← version S v).top

def addNode (n : StackNode σ) : Run σ Nat := do
  let m ← get
  let i := m.nodes.size
  set { m with nodes := m.nodes.push n }
  return i

def addVersion (x : Version σ) : Run σ Nat := do
  let m ← get
  let i := m.versions.size
  set { m with versions := m.versions.push x }
  return i

def remove (v : Nat) : Run σ Unit :=
  modify fun m => { m with versions := m.versions.eraseIdxIfInBounds v }

def push (v : Nat) (tree : Option (Subtree σ)) (state : Nat) : Run σ Unit := do
  let x ← version S v
  let below ← node x.top
  let links := [Link.mk x.top tree]
  match tree with
  | some t =>
    let i ← addNode ⟨state, links, max below.position t.facts.stop, below.cost + t.cost,
      below.weight + t.weight, below.count + t.count⟩
    modifyVersion v fun x => { x with top := i }
  | none =>
    let i ← addNode { below with state, links }
    modifyVersion v fun x => { x with top := i, countAtError := below.count }

def errorCost (v : Nat) : Run σ Nat := do
  let x ← version S v
  let n ← node x.top
  let unfinished := x.status == .paused || n.state == 0 && (match n.links with
    | l :: _ => l.tree.isNone
    | [] => true)
  return if unfinished then n.cost + costs.recovery else n.cost

def countSinceError (v : Nat) : Run σ Nat := do
  let x ← version S v
  let n ← node x.top
  let mark := min n.count x.countAtError
  modifyVersion v fun x => { x with countAtError := mark }
  return n.count - mark

def renumber (v w : Nat) : Run σ Unit := do
  if v != w then
    let source ← version S v
    let target ← version S w
    let landmarks := if target.landmarks.isSome && source.landmarks.isNone then target.landmarks
      else source.landmarks
    modifyVersion w fun _ => { source with landmarks }
    remove v

def scannedState (t : Subtree σ) : σ :=
  if t.facts.hasScanned then t.facts.scanned.getD S.scanner.initial else S.scanner.initial

/-- Whether two trees may stand for one another on a stack. -/
def interchangeable : Option (Subtree σ) → Option (Subtree σ) → Bool
  | none, none => true
  | some l, some r =>
    l.symbol == r.symbol && ((0 < l.cost && 0 < r.cost) ||
      (l.facts.start - l.facts.origin == r.facts.start - r.facts.origin &&
        l.facts.stop - l.facts.start == r.facts.stop - r.facts.start &&
        l.children.length == r.children.length && l.isExtra == r.isExtra &&
        scannedState S l == scannedState S r))
  | _, _ => false

/-- Adds a link to a node; where it leads to an equal place over an interchangeable tree, the places
become one. -/
def addLink : Nat → Nat → Link σ → Run σ Unit
  | 0, _, _ => return
  | fuel + 1, i, link => do
    if link.target == i then return
    let n ← node i
    let target ← node link.target
    let addedWeight := target.weight + (link.tree.elim 0 (·.weight))
    let addedCount := target.count + (link.tree.elim 0 (·.count))
    let mut k := 0
    for old in n.links do
      if interchangeable S old.tree link.tree then
        if old.target == link.target then
          let heavier : Bool := match link.tree, old.tree with
            | some t, some u => u.weight < t.weight
            | _, _ => false
          if heavier then
            modifyNode i fun n => { n with links := n.links.set k link, weight := addedWeight }
          return
        let oldTarget ← node old.target
        if oldTarget.state == target.state && oldTarget.position == target.position &&
            oldTarget.cost == target.cost then
          for l in target.links do
            addLink fuel old.target l
          modifyNode i fun n => { n with weight := max n.weight addedWeight }
          return
      k := k + 1
    if n.links.length < 8 then
      modifyNode i fun n => { n with
        links := n.links ++ [link]
        count := max n.count addedCount
        weight := max n.weight addedWeight }

def canMerge (v w : Nat) : Run σ Bool := do
  let x ← version S v
  let y ← version S w
  let n ← node x.top
  let k ← node y.top
  return x.status == .active && y.status == .active && n.state == k.state &&
    n.position == k.position && n.cost == k.cost && x.scanner == y.scanner

def merge (v w : Nat) : Run σ Bool := do
  if !(← canMerge S v w) then return false
  let x ← version S v
  let y ← version S w
  for l in (← node y.top).links do
    addLink S ((← get).nodes.size + 1) x.top l
  let n ← node x.top
  if n.state == 0 then
    modifyVersion v fun x => { x with countAtError := n.count }
  remove w
  return true

/-- The version for a node at which a path ends: that of an earlier slice, or a new one. -/
def sliceAt (v : Nat) (slices : List (Slice σ)) (trees : List (Subtree σ)) (i : Nat) :
    Run σ (List (Slice σ)) := do
  let mut k := slices.length
  for s in slices.reverse do
    if (← version S s.version).top == i then
      return slices.take k ++ [⟨trees, s.version⟩] ++ slices.drop k
    k := k - 1
  let x ← version S v
  let w ← addVersion { x with top := i, status := .active, lookahead := none, landmarks := none }
  return slices ++ [⟨trees, w⟩]

/-- Walks down all paths from the top of a version and takes those that `visit` wants. Versions for
the places where they end are added. -/
def walk {β : Type} (v : Nat) (visit : β → Walker σ → Run σ (β × Verdict)) (start : β) :
    Run σ (List (Slice σ)) := do
  let x ← version S v
  let mut state := start
  let mut slices : List (Slice σ) := []
  let mut walkers : List (Walker σ) := [⟨x.top, [], 0⟩]
  for _ in [0:(← get).nodes.size + 1] do
    if walkers.isEmpty then break
    let mut kept : List (Walker σ) := []
    let mut added : List (Walker σ) := []
    let mut remaining := walkers.length
    for w in walkers do
      remaining := remaining - 1
      let (s, verdict) ← visit state w
      state := s
      let n ← node w.node
      if verdict.take then
        slices ← sliceAt S v slices w.trees w.node
      if !verdict.stop then
        let along (l : Link σ) : Walker σ :=
          match l.tree with
          | some t => ⟨l.target, t :: w.trees, if t.isExtra then w.count else w.count + 1⟩
          | none => ⟨l.target, w.trees, w.count + 1⟩
        match n.links with
        | [] => pure ()
        | first :: others =>
          for l in others do
            if kept.length + 1 + remaining + added.length < 64 then
              added := added ++ [along l]
          kept := kept ++ [along first]
    walkers := kept ++ added
  return slices

def popCount (v count : Nat) : Run σ (List (Slice σ)) :=
  walk S v (fun () w => return ((), ⟨w.count == count, w.count == count⟩)) ()

def popAll (v : Nat) : Run σ (List (Slice σ)) :=
  walk S v (fun () w => return ((), ⟨(← node w.node).links.isEmpty, false⟩)) ()

def popError (v : Nat) : Run σ (List (Subtree σ)) := do
  let isError (t : Option (Subtree σ)) : Bool := (t.map (·.symbol)) == some .error
  let n ← topOf S v
  if !n.links.any (isError ·.tree) then return []
  let slices ← walk S v (fun found w =>
    return match w.trees with
    | [] => (found, ⟨false, false⟩)
    | t :: _ => if !found && t.symbol == .error then (true, ⟨true, true⟩) else (found, ⟨false, true⟩))
    false
  match slices with
  | [] => return []
  | s :: _ =>
    renumber S s.version v
    return s.trees

def landmarksOf (v depth : Nat) : Run σ (List Landmark) := do
  let x ← version S v
  let mut found : List Landmark := []
  let mut walkers : List (Nat × Nat) := [(x.top, 0)]
  for _ in [0:(← get).nodes.size + 1] do
    if walkers.isEmpty then break
    let mut kept : List (Nat × Nat) := []
    let mut added : List (Nat × Nat) := []
    let mut remaining := walkers.length
    for (i, d) in walkers do
      remaining := remaining - 1
      let n ← node i
      if d ≤ depth then
        let near := found.reverse.takeWhile fun e => d ≤ e.depth
        if !near.any fun e => e.depth == d && e.state == n.state then
          found := found ++ [⟨n.position, d, n.state⟩]
        let along (l : Link σ) : Nat × Nat :=
          (l.target, match l.tree with
            | some t => if t.isExtra then d else d + 1
            | none => d + 1)
        match n.links with
        | [] => pure ()
        | first :: others =>
          for l in others do
            if kept.length + 1 + remaining + added.length < 64 then
              added := added ++ [along l]
          kept := kept ++ [along first]
    walkers := kept ++ added
  return found

end Machine

end MarkupNesting.Grammar
