import MarkupNesting.Grammar.Language

/-! The states of the parser, made when they are first entered. A state is a set of items, each with
the tokens that may follow it; where several actions remain after the grammar's orders have been
asked, the parser takes them all. -/

namespace MarkupNesting.Grammar

inductive Action where
  /-- Read the token and go on in the state; `again` marks the repeating way of two. -/
  | shift (state : Nat) (again : Bool)
  | extra
  | reduce (rule count : Nat) (weight : Int) (shape : Nat)
  | accept
  | recover
deriving DecidableEq

abbrev Kernel := List (Nat × TokenSet)

structure State where
  kernel : Kernel
  /-- For each rule that may begin here, the tokens that may follow it. -/
  ahead : Array TokenSet
  shiftable : TokenSet
  expected : TokenSet
  /-- The tokens told apart when a token is read in this state. -/
  context : TokenSet
  /-- The scanned tokens that may come, by their place in the list. -/
  scanned : TokenSet

structure Automaton where
  states : Array State
  numbers : Std.HashMap Kernel Nat := {}
  actions : Std.HashMap (Nat × Nat) (List Action) := {}
  moves : Std.HashMap (Nat × Symbol) Nat := {}

namespace Language

variable (L : Language)

/-- The tokens that may follow each rule that may begin at the items, as a least fixed point. -/
def closure (kernel : Kernel) : Array TokenSet := Id.run do
  let mut ahead : Array TokenSet := Array.replicate L.start 0
  let mut work : List Nat := []
  for (i, follow) in kernel do
    if let some item := L.items[i]? then
      if let some (.rule r) := item.next then
        let tokens := match item.follow with
          | none => follow
          | some s => firstOf L.first s
        ahead := ahead.modify r (· ||| tokens)
        work := r :: work
  for _ in [0:(L.start + 1) * (L.finish + 2)] do
    match work with
    | [] => break
    | r :: rest =>
      work := rest
      let follow := ahead.getD r 0
      for (m, tokens, through) in L.leading.getD r [] do
        let old := ahead.getD m 0
        let new := old ||| tokens ||| (if through then follow else 0)
        if new != old then
          ahead := ahead.setIfInBounds m new
          work := m :: work
  return ahead

/-- The first context that holds all expected tokens, keywords read as words. -/
def contextOf (expected : TokenSet) : TokenSet :=
  let own := (List.range L.terminals.size).foldl (fun s i =>
    if expected.testBit i && !L.keywordSet.testBit i then s ||| .single i else s) 0
  let own := if expected.testBit L.finish then own ||| .single L.finish else own
  let own := match L.word with
    | some w => if expected &&& L.keywordSet == 0 then own else own ||| .single w
    | none => own
  (L.contexts.find? own.subset).getD own

def scannedIn (expected : TokenSet) : TokenSet :=
  (L.scanned.mapIdx fun i s => if expected.testBit s.token then TokenSet.single i else 0).foldl
    (· ||| ·) 0

def stateOf (kernel : Kernel) : State :=
  let ahead := L.closure kernel
  let next := kernel.foldl (fun s (i, follow) =>
    match L.items[i]? with
    | none => s
    | some item => match item.next with
      | some (.token t) => (s.1 ||| .single t, s.2)
      | some _ => s
      | none => (s.1, s.2 ||| follow)) ((0, 0) : TokenSet × TokenSet)
  let opened := (ahead.zip L.opening).foldl (fun s (a, o) => if a == 0 then s else s ||| o) 0
  let shiftable := next.1 ||| opened
  let emptied := L.empties.foldl (fun s item => s ||| ahead.getD item.rule 0) 0
  let expected := shiftable ||| next.2 ||| emptied ||| L.extras
  ⟨kernel, ahead, shiftable, expected, L.contextOf expected, L.scannedIn expected⟩

def skippable : TokenSet :=
  L.recovery ||| L.keywordSet ||| L.extras |||
    L.scanned.foldl (fun s x => if x.token < L.terminals.size then s else s ||| .single x.token) 0

def automaton : Automaton :=
  let kernel := [(L.startItem, TokenSet.single L.finish)]
  { states := #[⟨[], #[], 0, L.skippable, L.recovery, L.scannedIn L.skippable⟩, L.stateOf kernel]
    numbers := ({} : Std.HashMap Kernel Nat).insert kernel 1 }

def kernelAfter (s : State) (x : Symbol) : Kernel :=
  let collect (m : Std.HashMap Nat TokenSet) (i : Nat) (follow : TokenSet) :=
    m.insert i (m.getD i 0 ||| follow)
  let own := s.kernel.foldl (fun m (i, follow) =>
    match L.items[i]? with
    | some item => if item.next = some x then collect m item.successor follow else m
    | none => m) {}
  let all := (s.ahead.zipIdx).foldl (fun m (follow, r) =>
    if follow == 0 then m else (L.entered.getD (r, x) []).foldl (fun m i => collect m i follow) m) own
  all.toList.mergeSort fun a b => a.1 ≤ b.1

/-- The rule that a state can only reduce to, where that leaves no trace. -/
def passedBy (s : State) : Option Nat :=
  let rules := s.kernel.map fun (i, _) =>
    match L.items[i]? with
    | some item =>
      if item.next.isNone && item.mark == 1 && item.shape == 0 && item.weight == 0 &&
          L.traceless.getD item.rule false then some item.rule else none
    | none => none
  match rules with
  | some r :: rest => if rest.all (· == some r) then some r else none
  | _ => none

def compareBinding (b : Binding) (rules : List Nat) (c : Binding) (others : List Nat) : Ordering :=
  let has (b : Binding) (rs : List Nat) : Rank → Bool
    | .binding n => b == .named n
    | .rule n => rs.any fun r => (L.rules[r]?.map (·.name)) == some n
  let rec among : List Rank → Bool → Bool → Option Ordering
    | [], _, _ => none
    | e :: es, sawB, sawC =>
      let isB := has b rules e
      let isC := has c others e
      let sawB := sawB || isB
      let sawC := sawC || isC
      if isB != isC && sawB && sawC then some (if isB then .lt else .gt) else among es sawB sawC
  let byOrder := (L.orders.findSome? fun order => among order false false).getD .eq
  match b, c with
  | .level m, .level n => if m == 0 && n == 0 then byOrder else compare m n
  | .level m, .unsaid => if m == 0 then byOrder else compare m 0
  | .unsaid, .level n => if n == 0 then byOrder else compare 0 n
  | _, _ => byOrder

structure Reductions where
  actions : List Action := []
  binding : Binding := .unsaid
  rules : List Nat := []
  left : Bool := false
  right : Bool := false
  neither : Bool := false

/-- Of reductions on the same token only the tightest stay. -/
def addReduction (found : Reductions) (item : Item) : Reductions :=
  let action := if item.rule == L.start then Action.accept
    else .reduce item.rule item.mark item.weight item.shape
  let order := if found.actions.isEmpty then Ordering.eq
    else L.compareBinding item.binding [item.rule] found.binding found.rules
  let base := if order == .gt then {} else found
  if order == .lt then found
  else {
    actions := base.actions ++ [action]
    binding := item.binding
    rules := if base.rules.contains item.rule then base.rules else base.rules ++ [item.rule]
    left := base.left || item.side == .left
    right := base.right || item.side == .right
    neither := base.neither || item.side == .none }

def repetitive (r : Nat) : Bool :=
  match L.rules[r]? with
  | some x => x.repetition
  | none => false

/-- The actions on a token that may be both reduced on and shifted, `shift` being the target. -/
def settle (found : Reductions) (pending : List Item) (shift : Nat) : List Action :=
  let onlyRepetition := match pending with
    | [] => false
    | item :: _ => L.repetitive item.rule && pending.all (·.rule == item.rule)
  if onlyRepetition then found.actions ++ [Action.shift shift true]
  else
    let shiftAction := Action.shift shift false
    let ranks := pending.filterMap fun (item : Item) =>
      if item.next.isSome then some (L.compareBinding item.binding [item.rule] found.binding found.rules)
      else none
    let tighter := ranks.contains .gt
    let looser := ranks.contains .lt
    match tighter, looser with
    | true, false => [shiftAction]
    | false, true => found.actions
    | true, true => found.actions ++ [shiftAction]
    | false, false =>
      if found.left && !found.neither && !found.right then found.actions
      else if !found.left && !found.neither && found.right then [shiftAction]
      else found.actions ++ [shiftAction]

end Language

abbrev Entering := StateM Automaton

namespace Automaton

variable (L : Language)

def enter (kernel : Kernel) : Entering Nat := do
  let a ← get
  match a.numbers[kernel]? with
  | some i => return i
  | none =>
    let i := a.states.size
    set { a with states := a.states.push (L.stateOf kernel), numbers := a.numbers.insert kernel i }
    return i

def state (i : Nat) : Entering State := do
  return (← get).states.getD i ⟨[], #[], 0, 0, 0, 0⟩

/-- The state past a symbol, or 0 if the symbol does not fit. States that can only reduce without a
trace are passed by. -/
def move (s : Nat) (x : Symbol) : Entering Nat := do
  match (← get).moves[(s, x)]? with
  | some t => return t
  | none =>
    let target ← follow 50 x
    modify fun a => { a with moves := a.moves.insert (s, x) target }
    return target
where
  follow : Nat → Symbol → Entering Nat
    | 0, _ => return 0
    | fuel + 1, x => do
      let kernel := L.kernelAfter (← state s) x
      if kernel.isEmpty then return 0
      let t ← enter L kernel
      match L.passedBy (← state t) with
      | none => return t
      | some r =>
        let u ← follow fuel (.rule r)
        return if u == 0 then t else u

def actionsAt (s t : Nat) : Entering (List Action) := do
  match (← get).actions[(s, t)]? with
  | some as => return as
  | none =>
    let as ← if s == 0 then return afterError else decide
    modify fun a => { a with actions := a.actions.insert (s, t) as }
    return as
where
  afterError : List Action :=
    if L.extras.testBit t then [.extra]
    else if L.skippable.testBit t then [.recover] else []
  decide : Entering (List Action) := do
    let st ← state s
    if !st.expected.testBit t then return []
    let items := st.kernel.filterMap fun (i, follow) => (L.items[i]?).map fun x => (x, follow)
    let done := items.filterMap (fun (x, follow) =>
      if x.next.isNone && follow.testBit t then some x else none) ++
        L.empties.filter fun x => (st.ahead.getD x.rule 0).testBit t
    let found := (done.mergeSort Item.before).foldl L.addReduction {}
    if st.shiftable.testBit t then
      let target ← move L s (.token t)
      if found.actions.isEmpty then return [.shift target false]
      let open_ := items.filterMap fun (x, _) =>
        match x.next with
        | some y => if (Language.firstOf L.first y).testBit t then some x else none
        | none => none
      return L.settle found (done ++ open_) target
    else if found.actions.isEmpty && L.extras.testBit t then return [.extra]
    else return found.actions

def next (s : Nat) : Symbol → Entering Nat
  | .token t => do
    match (← actionsAt L s t).getLast? with
    | some (.shift u _) => return u
    | some .extra => return s
    | _ => return 0
  | .rule r => move L s (.rule r)
  | _ => return 0

end Automaton

end MarkupNesting.Grammar
