import MarkupNesting.Grammar.Machine

/-! Parsing with recovery. A version that can go on with no action is paused; when all others are
gone it is taken up again as an error, and from there the parser tries to supply a missing token, to
go back to an earlier state, or to skip. The cheapest way to the end of the text wins. -/

namespace MarkupNesting.Grammar

/-- How many versions may run side by side, how many more may come out of a reduction, how far back
recovery looks, and how much dearer a version may be. -/
structure Limits where
  versions : Nat
  overflow : Nat
  depth : Nat
  difference : Nat

def limits : Limits := ⟨6, 4, 16, 18 * 100⟩

/-- How one version compares to another: much better or better, or the same the other way round. -/
inductive Comparison where
  | takeLeft
  | preferLeft
  | even
  | preferRight
  | takeRight
deriving DecidableEq

structure Standing where
  cost : Nat
  count : Nat
  weight : Int
  inError : Bool

namespace Standing

def compare (a b : Standing) : Comparison :=
  if !a.inError && b.inError then if a.cost < b.cost then .takeLeft else .preferLeft
  else if a.inError && !b.inError then if b.cost < a.cost then .takeRight else .preferRight
  else if a.cost < b.cost then
    if limits.difference < (b.cost - a.cost) * (1 + a.count) then .takeLeft else .preferLeft
  else if b.cost < a.cost then
    if limits.difference < (a.cost - b.cost) * (1 + b.count) then .takeRight else .preferRight
  else if b.weight < a.weight then .preferLeft
  else if a.weight < b.weight then .preferRight
  else .even

end Standing

namespace Machine

variable {σ : Type} [BEq σ] (S : Setting σ)

def standing (v : Nat) : Run σ Standing := do
  let x ← version S v
  let n ← node x.top
  let paused := x.status == .paused
  let cost ← errorCost S v
  return ⟨if paused then cost + costs.tree else cost, ← countSinceError S v, n.weight,
    paused || n.state == 0⟩

def betterExists (v cost : Nat) : Run σ Bool := do
  let m ← get
  match m.finished with
  | some t => if t.cost ≤ cost then return true
  | none => pure ()
  let n ← topOf S v
  let own : Standing := ⟨cost, ← countSinceError S v, n.weight, false⟩
  for w in [0:m.versions.size] do
    let x ← version S w
    let k ← node x.top
    if w != v && x.status == .active && n.position ≤ k.position then
      match own.compare (← standing S w) with
      | .takeRight => return true
      | .preferRight => if ← canMerge S w v then return true
      | _ => pure ()
  return false

def hasAdvanced (v : Nat) : Run σ Bool := do
  let x ← version S v
  let n ← node x.top
  if n.cost == 0 then return true
  descend x.countAtError ((← get).nodes.size + 1) x.top
where
  descend (mark : Nat) : Nat → Nat → Run σ Bool
    | 0, _ => return false
    | fuel + 1, i => do
      let n ← node i
      match n.links with
      | ⟨target, some t⟩ :: _ =>
        if t.facts.origin < t.facts.stop then return true
        else if mark < n.count && t.cost == 0 then descend mark fuel target
        else return false
      | _ => return false

structure Found (σ : Type) where
  symbol : Symbol
  start : Nat
  stop : Nat
  scanned : Option (σ × Bool)

structure Skip where
  start : Nat
  stop : Nat

/-- Asks the scanner for a token. An empty token that changes nothing counts only if it leads on. -/
def scanAt (v s : Nat) (scanned : TokenSet) (afterError : Bool) (i : Nat) :
    Run σ (Option (Found σ)) := do
  if scanned == 0 then return none
  let x ← version S v
  match S.scanner.scan S.text i scanned.testBit x.scanner with
  | none => return none
  | some t =>
    let changed := !(t.state == x.scanner)
    match S.language.scanned[t.index]? with
    | none => return none
    | some info =>
      let found : Found σ := ⟨.token info.token, t.start, t.stop, some (t.state, changed)⟩
      if t.stop ≤ i && !changed then
        let next ← nextState S s found.symbol
        if afterError || !(← hasAdvanced S v) || next == s then return none
      return some found

/-- Reads a token in a state; where the state's own tokens do not fit, with the tokens of recovery,
skipping what fits nothing. -/
def readFrom (v s : Nat) :
    Nat → TokenSet → TokenSet → Bool → Option Skip → Nat →
      Run σ (Option (Found σ) × Option Skip)
  | 0, _, _, _, skip, _ => return (none, skip)
  | fuel + 1, context, scanned, afterError, skip, i => do
    match ← scanAt S v s scanned afterError i with
    | some found => return (some found, skip)
    | none =>
      let lexed := S.language.lex S.text context i
      match lexed.found with
      | some (t, start, stop) => return (some ⟨.token t, start, stop, none⟩, skip)
      | none =>
        if !afterError then
          let recovery ← stateInfo 0
          let origin := (← topOf S v).position
          readFrom v s fuel recovery.context recovery.scanned true skip origin
        else
          let skip := skip.getD ⟨lexed.start, lexed.start⟩
          if lexed.reached != skip.stop then
            readFrom v s fuel context scanned true (some ⟨skip.start, lexed.reached⟩) lexed.reached
          else if S.text.size ≤ lexed.reached then return (none, some skip)
          else
            readFrom v s fuel context scanned true (some ⟨skip.start, lexed.reached + 1⟩)
              (lexed.reached + 1)

/-- Reads the next token of a version. A word is read as a keyword where the state expects it. -/
def read (v s : Nat) : Run σ (Lookahead σ) := do
  let info ← stateInfo s
  let origin := (← topOf S v).position
  let (found, skip) ← readFrom S v s (2 * S.text.size + 8) info.context info.scanned (s == 0) none
    origin
  let L := S.language
  match skip, found with
  | some skip, _ =>
    return ⟨L.leaf .error origin skip.start skip.stop, false, s, info.context, info.scanned⟩
  | none, none => return ⟨L.leaf .error origin origin origin, false, s, info.context, info.scanned⟩
  | none, some found =>
    match found.scanned with
    | some (state, changed) =>
      match L.leaf found.symbol origin found.start found.stop with
      | .node f cs =>
        let f := { f with hasScanned := true, scanned := some state, changed }
        return ⟨.node f cs, false, s, info.context, info.scanned⟩
    | none =>
      let word := S.text.slice found.start found.stop
      let isWord := (L.word.map Symbol.token) == some found.symbol
      let mut symbol := found.symbol
      let mut keyword := false
      if isWord then
        match L.keywords[word]? with
        | some k =>
          keyword := true
          if !(← actionsAt S s k).isEmpty then
            symbol := .token k
        | none => keyword := L.keywords.any fun k _ => k.isPrefixOf word
      return ⟨L.leaf symbol origin found.start found.stop, keyword, s, info.context, info.scanned⟩

def reusable (v s : Nat) : Run σ (Option (Lookahead σ)) := do
  match (← get).last with
  | none => return none
  | some (position, scanner, look) =>
    let x ← version S v
    let n ← node x.top
    if position != n.position || !(scanner == x.scanner) then return none
    let info ← stateInfo s
    let isWord := (S.language.word.map Symbol.token) == some look.tree.symbol
    if !(← actionsOn S s look.tree.symbol).isEmpty && look.context == info.context &&
        look.scanned == info.scanned && (!isWord || (!look.keyword && look.state == s)) then
      return some look
    else return none

def lookahead (v s : Nat) : Run σ (Lookahead σ) := do
  match ← reusable S v s with
  | some look => return look
  | none =>
    let x ← version S v
    let position := (← node x.top).position
    let look ← read S v s
    modify fun m => { m with last := some (position, x.scanner, look) }
    return look

def shift (v s : Nat) (tree : Subtree σ) (extra : Bool) : Run σ Unit := do
  let tree := if tree.isExtra == extra then tree else tree.withExtra extra
  push S v (some tree) s
  if tree.facts.hasScanned then
    modifyVersion v fun x => { x with scanner := tree.facts.scanned.getD x.scanner }

def splitTrailing (ts : List (Subtree σ)) : List (Subtree σ) × List (Subtree σ) :=
  ((ts.reverse.dropWhile (·.isExtra)).reverse, (ts.reverse.takeWhile (·.isExtra)).reverse)

def groupSlices : List (Slice σ) → List (Nat × List (List (Subtree σ)))
  | [] => []
  | s :: rest =>
    match groupSlices rest with
    | (v, group) :: others =>
      if v == s.version then (v, s.trees :: group) :: others
      else (s.version, [s.trees]) :: (v, group) :: others
    | [] => [(s.version, [s.trees])]

def reduce (v rule count : Nat) (weight : Int) (shape : Nat) : Run σ (Option Nat) := do
  let L := S.language
  let first ← versionCount
  let slices ← popCount S v count
  let mut removed := 0
  for (w, paths) in groupSlices slices do
    let u := w - removed
    if limits.versions + limits.overflow < u then
      remove u
      removed := removed + 1
    else
      match paths with
      | [] => pure ()
      | path :: others =>
        let build (path : List (Subtree σ)) : Subtree σ × List (Subtree σ) :=
          let (inner, trailing) := splitTrailing path
          (L.node S.text (.rule rule) shape inner, trailing)
        let (tree, trailing) := others.foldl (fun best path =>
          let next := build path
          if L.prefersSecond best.1 next.1 then next else best) (build path)
        let tree := tree.addWeight weight
        let next ← nextState S (← topOf S u).state (.rule rule)
        push S u (some tree) next
        for t in trailing do
          push S u (some t) next
        for j in [0:u] do
          if j != v then
            if ← merge S j u then
              removed := removed + 1
              break
  return if first < (← versionCount) then some first else none

def accept (v : Nat) (look : Subtree σ) : Run σ Unit := do
  let L := S.language
  push S v (some look) 1
  let slices ← popAll S v
  for s in slices do
    let (inner, trailing) := splitTrailing s.trees
    match inner.reverse with
    | [] => pure ()
    | root :: before =>
      let tree := L.node S.text root.symbol root.facts.shape
        (before.reverse ++ root.children ++ trailing)
      modify fun m => { m with
        accepted := m.accepted + 1
        finished := match m.finished with
          | some t => if L.prefersSecond t tree then some tree else some t
          | none => some tree }
  match slices with
  | s :: _ => remove s.version
  | [] => pure ()
  setStatus v .halted

def tokensInOrder : List Nat :=
  let L := S.language
  let all := (List.range L.terminals.size) ++
    (L.scanned.toList.map (·.token)).filter (L.terminals.size ≤ ·)
  match L.word with
  | some w => w :: all.filter (· != w)
  | none => all

/-- Does every reduction that some token, or the given one, allows. The result says whether some
version can then read the token. -/
def reduceAll (v : Nat) (look : Option Nat) : Run σ Bool := do
  let look := if look == some S.language.finish then none else look
  let first ← versionCount
  let tokens := match look with
    | some t => [t]
    | none => tokensInOrder S
  let mut canShift := false
  let mut w := v
  let mut turn := 0
  for _ in [0:1000] do
    let count ← versionCount
    if count ≤ w then break
    let mut merged := false
    for j in [first:w] do
      if !merged then
        if ← merge S j w then
          merged := true
    turn := turn + 1
    if !merged then
      let s := (← topOf S w).state
      let mut shifts := false
      let mut reductions : List (Nat × Nat × Int × Nat) := []
      for t in tokens do
        for a in ← actionsAt S s t do
          match a with
          | .shift _ again => if !again then shifts := true
          | .recover => shifts := true
          | .reduce rule count weight shape =>
            if 0 < count && !reductions.contains (rule, count, weight, shape) then
              reductions := reductions ++ [(rule, count, weight, shape)]
          | _ => pure ()
      let mut added : Option Nat := none
      for (rule, count, weight, shape) in reductions do
        added ← reduce S w rule count weight shape
      if shifts then
        canShift := true
        w := if w == v then count else w + 1
      else
        match added with
        | some u =>
          if turn ≤ limits.versions then renumber S u w
          else
            if look.isSome then remove w
            w := if w == v then count else w + 1
        | none =>
          if look.isSome then remove w
          w := if w == v then count else w + 1
  return canShift

def recoverTo (v depth goal : Nat) : Run σ Bool := do
  let L := S.language
  let slices ← popCount S v depth
  let mut previous : Option Nat := none
  for s in slices do
    if previous != some s.version then
      if (← topOf S s.version).state != goal then
        setStatus s.version .halted
      else
        let earlier ← popError S s.version
        let trees := match earlier with
          | t :: _ => if t.children.isEmpty then s.trees else t.children ++ s.trees
          | [] => s.trees
        let (inner, trailing) := splitTrailing trees
        if !inner.isEmpty then
          push S s.version (some ((L.node S.text .error 0 inner).withExtra true)) goal
        for t in trailing do
          push S s.version (some t) goal
        previous := some s.version
  return previous.isSome

/-- Recovers from an error before a token: goes back to a state that fits the token, and skips the
token. -/
def recover (v : Nat) (look : Lookahead σ) : Run σ Unit := do
  let L := S.language
  let text := S.text
  let before ← versionCount
  let x ← version S v
  let position := (← node x.top).position
  let since ← countSinceError S v
  let cost ← errorCost S v
  let tree := look.tree
  let mut recovered := false
  if tree.symbol != .error then
    for mark in x.landmarks.getD [] do
      if mark.state != 0 && mark.position != position then
        let depth := if 0 < since then mark.depth + 1 else mark.depth
        let mut present := false
        for j in [0:before] do
          let n ← topOf S j
          if n.state == mark.state && n.position == position then
            present := true
        if !present then
          let newCost := cost + costs.tree +
            (text.byte position - text.byte mark.position) * costs.byte +
            (text.row position - text.row mark.position) * costs.row
          if ← betterExists S v newCost then break
          if !(← actionsOn S mark.state tree.symbol).isEmpty then
            if ← recoverTo S v depth mark.state then
              recovered := true
              break
  let mut i := before
  for _ in [before:(← versionCount)] do
    if (← version S i).status == .active then i := i + 1 else remove i
  if tree.symbol == .token L.finish then
    let error : Subtree σ := .node { symbol := .error, origin := position, start := position
                                     stop := position, visible := true, cost := costs.recovery } []
    push S v (some error) 1
    accept S v tree
  else if recovered && (limits.versions < (← versionCount) || tree.facts.changed) then
    setStatus v .halted
  else
    let newCost := cost + costs.tree +
      (text.byte tree.facts.stop - text.byte tree.facts.origin) * costs.byte +
      (text.row tree.facts.stop - text.row tree.facts.origin) * costs.row
    if ← betterExists S v newCost then
      setStatus v .halted
    else
      let tree := if (← actionsOn S 1 tree.symbol).getLast? == some .extra then tree.withExtra true
        else tree
      let mut skipped := L.node text .skipped 0 [tree]
      if 0 < since then
        let slices ← popCount S v 1
        match slices with
        | [] => pure ()
        | s :: _ =>
          for _ in [s.version + 1:(← versionCount)] do
            remove (s.version + 1)
          renumber S s.version v
          skipped := L.node text .skipped 0 (s.trees ++ [skipped])
      push S v (some skipped) 0
      if tree.facts.hasScanned then
        modifyVersion v fun x => { x with scanner := tree.facts.scanned.getD x.scanner }

/-- Handles a version that can go on with no action on a token: a missing token is supplied where
that helps, and the version becomes one that recovers. -/
def handleError (v : Nat) (look : Lookahead σ) : Run σ Unit := do
  let L := S.language
  let before ← versionCount
  let _ ← reduceAll S v none
  let count ← versionCount
  let target := match look.tree.firstSymbol with
    | .token t => some t
    | _ => none
  let mut supplied := false
  let mut w := v
  for _ in [0:count] do
    if count ≤ w then break
    if !supplied then
      let s := (← topOf S w).state
      for t in tokensInOrder S do
        if !supplied then
          let next ← nextState S s (.token t)
          if next != 0 && next != s then
            let reduces := match (← (match target with
                | some u => actionsAt S next u
                | none => return [])) with
              | .reduce .. :: _ => true
              | _ => false
            if reduces then
              let x ← version S w
              let u ← addVersion { x with status := .active, lookahead := none, landmarks := none }
              push S u (some (L.missingLeaf (.token t) (← topOf S u).position)) next
              if ← reduceAll S u target then
                supplied := true
    push S w none 0
    w := if w == v then before else w + 1
  for _ in [before:count] do
    let _ ← merge S v before
  let landmarks ← landmarksOf S v limits.depth
  modifyVersion v fun x => { x with landmarks := some landmarks }
  recover S v look

def act (v : Nat) : Nat → Nat → Lookahead σ → List Action → Run σ Unit
  | 0, _, _, _ => setStatus v .halted
  | fuel + 1, s, look, actions => do
    let mut reduced := false
    let mut added : Option Nat := none
    for a in actions do
      match a with
      | .shift next again =>
        if !again then
          shift S v next look.tree false
          return
      | .extra =>
        shift S v s look.tree true
        return
      | .accept =>
        accept S v look.tree
        return
      | .recover =>
        recover S v look
        return
      | .reduce rule count weight shape =>
        reduced := true
        match ← reduce S v rule count weight shape with
        | some u => added := some u
        | none => pure ()
    match added with
    | some u =>
      renumber S u v
      let s := (← topOf S v).state
      act v fuel s look (← actionsOn S s look.tree.symbol)
    | none =>
      if reduced then setStatus v .halted
      else
        let word := S.language.word.map Symbol.token
        let asWord ← match word with
          | some w =>
            if look.keyword && look.tree.symbol != w then actionsOn S s w else pure []
          | none => pure []
        match asWord, word with
        | _ :: _, some w =>
          let f := look.tree.facts
          let tree := S.language.leaf w f.origin f.start f.stop
          act v fuel s { look with tree } asWord
        | _, _ =>
          if s == 0 then recover S v look
          else
            let n ← topOf S v
            modifyVersion v fun x =>
              { x with status := .paused, lookahead := some look, countAtError := n.count }

def advance (v : Nat) : Run σ Unit := do
  let s := (← topOf S v).state
  let look ← lookahead S v s
  act S v 5000 s look (← actionsOn S s look.tree.symbol)

def swap (v w : Nat) : Run σ Unit := do
  let x ← version S v
  let y ← version S w
  modifyVersion v fun _ => y
  modifyVersion w fun _ => x

/-- Drops versions that others outdo and merges those that agree. The result is the least cost of a
version that is not in error. -/
def condense : Run σ (Option Nat) := do
  let mut least : Option Nat := none
  let mut i := 0
  for _ in [0:(← versionCount)] do
    if (← versionCount) ≤ i then break
    if (← version S i).status == .halted then
      remove i
    else
      let own ← standing S i
      if !own.inError && least.all (own.cost < ·) then
        least := some own.cost
      let mut j := 0
      let mut gone := false
      for _ in [0:i] do
        if !gone && j < i then
          match (← standing S j).compare own with
          | .takeLeft =>
            remove i
            gone := true
          | .preferLeft | .even =>
            gone ← merge S j i
            j := j + 1
          | .preferRight =>
            gone ← merge S j i
            if !gone then swap S i j
            j := j + 1
          | .takeRight =>
            remove j
            i := i - 1
      if !gone then i := i + 1
  for _ in [limits.versions:(← versionCount)] do
    remove limits.versions
  -- take up a paused version if none is running
  let mut running := false
  let mut k := 0
  for _ in [0:(← versionCount)] do
    let x ← version S k
    if x.status == .paused then
      if !running && (← get).accepted < limits.versions then
        least := some (← errorCost S k)
        modifyVersion k fun x => { x with status := .active, lookahead := none }
        match x.lookahead with
        | some look => handleError S k look
        | none => pure ()
        running := true
        k := k + 1
      else remove k
    else
      running := true
      k := k + 1
  return least

def round (furthest : Nat) : Run σ Nat := do
  let mut furthest := furthest
  let mut v := 0
  for _ in [0:1000] do
    if (← versionCount) ≤ v then break
    for _ in [0:100000] do
      if (← version S v).status == .active then
        advance S v
        let position := (← topOf S v).position
        if furthest < position || (0 < v && furthest == position) then
          furthest := position
          break
      else break
    v := v + 1
  return furthest

def rounds : Nat → Nat → Run σ Unit
  | 0, _ => return
  | fuel + 1, furthest => do
    let furthest ← round S furthest
    let least ← condense S
    let m ← get
    let done := match m.finished with
      | some t => least.all (t.cost < ·)
      | none => false
    if !done && 0 < m.versions.size then rounds fuel furthest

end Machine

def parse {σ : Type} [BEq σ] (S : Setting σ) : Option (Subtree σ) :=
  let start : Machine σ :=
    { automaton := S.language.automaton
      nodes := #[⟨1, [], 0, 0, 0, 0⟩]
      versions := #[⟨0, 0, S.scanner.initial, .active, none, none⟩]
      finished := none
      accepted := 0
      last := none }
  ((Machine.rounds S (10 * S.text.size + 1000) 0).run start).2.finished

end MarkupNesting.Grammar
