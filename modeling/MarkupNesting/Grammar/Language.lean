import MarkupNesting.Grammar.Production

/-! A compiled grammar: its numbered tokens and rules, the tokens each rule may begin with, and the
items that the states of the parser are made of. -/

namespace MarkupNesting.Grammar

/-- A set of tokens, as the bits of a number. -/
abbrev TokenSet := Nat

namespace TokenSet

def single (i : Nat) : TokenSet := 1 <<< i
def subset (s t : TokenSet) : Bool := s ||| t == t
def ofList (is : List Nat) : TokenSet := is.foldl (fun s i => s ||| single i) 0

end TokenSet

structure Scanned where
  name : String
  display : Display
  token : Nat

/-- A production with a mark in it. Items that differ only in what lies behind them, and leave no
trace of it in the tree, are one item. -/
structure Item where
  rule : Nat
  mark : Nat
  weight : Int
  shape : Nat
  binding : Binding
  side : Side
  next : Option Symbol
  follow : Option Symbol
  successor : Nat

/-- The order in which finished items are taken: the shorter first, then by rule and weight. -/
def Item.before (a b : Item) : Bool :=
  a.mark < b.mark || a.mark == b.mark && (a.rule < b.rule || a.rule == b.rule && a.weight ≤ b.weight)

abbrev Shape := List (Option Alias × Option String × List String)

structure ItemKey where
  rule : Nat
  weight : Int
  binding : Binding
  side : Side
  behind : List (Option Alias × Option String × Option Symbol)
  ahead : List Step
deriving BEq, Hashable

structure Language where
  terminals : Array Terminal
  scanned : Array Scanned
  /-- The number of the end of the text; all tokens have smaller numbers. -/
  finish : Nat
  extras : TokenSet
  space : CharSet
  rules : Array Nonterminal
  start : Nat
  orders : List (List Rank)
  word : Option Nat
  keywords : Std.HashMap String Nat
  keywordSet : TokenSet
  /-- The tokens read after an error. -/
  recovery : TokenSet
  contexts : List TokenSet
  aliases : Std.HashMap Symbol Alias
  /-- Rules whose nodes with one child leave no trace in the tree. -/
  traceless : Array Bool
  shapes : Array Shape
  items : Array Item
  startItem : Nat
  empties : List Item
  first : Array TokenSet
  /-- The tokens that begin a production of the rule. -/
  opening : Array TokenSet
  /-- The rules that begin a production of the rule, each with the tokens that may follow it there
  and whether what follows the whole may follow it as well. -/
  leading : Array (List (Nat × TokenSet × Bool))
  /-- The items past the first step of the productions of a rule that begin with a symbol. -/
  entered : Std.HashMap (Nat × Symbol) (List Nat)

namespace Language

def firstOf (first : Array TokenSet) : Symbol → TokenSet
  | .token i => .single i
  | .rule i => first.getD i 0
  | _ => 0

def firsts (count : Nat) (ps : List Production) : Array TokenSet := Id.run do
  let mut first : Array TokenSet := Array.replicate count 0
  for _ in [0:count + 1] do
    let mut changed := false
    for p in ps do
      match p.steps with
      | [] => pure ()
      | s :: _ =>
        let old := first.getD p.rule 0
        let new := old ||| firstOf first s.symbol
        if new != old then
          first := first.setIfInBounds p.rule new
          changed := true
    if !changed then
      break
  return first

def hiddenFields (rules : Array Nonterminal) (ps : List Production) : Array (List String) := Id.run do
  let mut fields : Array (List String) := Array.replicate rules.size []
  for _ in [0:rules.size + 1] do
    let mut changed := false
    for p in ps do
      for s in p.steps do
        let inherited := match s.symbol, s.otherName with
          | .rule i, none =>
            if (rules[i]?.map (·.display)) == some .named then [] else fields.getD i []
          | _, _ => []
        let own := s.field.toList ++ inherited
        let old := fields.getD p.rule []
        let new := own.foldl (fun fs f => if fs.contains f then fs else fs ++ [f]) old
        if new.length != old.length then
          fields := fields.setIfInBounds p.rule new
          changed := true
    if !changed then
      break
  return fields

def shapeStep (fields : Array (List String)) (rules : Array Nonterminal) (s : Step) :
    Option Alias × Option String × List String :=
  let inherited := match s.symbol with
    | .rule i => if (rules[i]?.map (·.display)) == some .named then [] else fields.getD i []
    | _ => []
  (s.otherName, s.field, inherited)

def trimShape (s : Shape) : Shape :=
  (s.reverse.dropWhile fun x => x.1.isNone && x.2.1.isNone && x.2.2.isEmpty).reverse

structure Items where
  all : Array Item := #[]
  index : Std.HashMap ItemKey Nat := {}

/-- The items of a production from the last to the first. `behind` holds the steps before the mark
in reverse; the result is the number of the item with the mark there. -/
def addItems (fields : Array (List String)) (rules : Array Nonterminal) (rule : Nat) (weight : Int)
    (shape mark : Nat) : List Step → List Step → Items → Nat × List Nat × Items
  | behind, ahead, items =>
    let (successor, later, items) := match ahead with
      | [] => (0, [], items)
      | s :: rest => addItems fields rules rule weight shape (mark + 1) (s :: behind) rest items
    let symbols := behind.any fun s => match s.symbol with
      | .rule i => (rules[i]?.map (·.display)) != some .named && !(fields.getD i []).isEmpty
      | _ => false
    let (binding, side) := match behind with
      | [] => (Binding.unsaid, Side.none)
      | s :: _ => (s.binding, s.side)
    let key : ItemKey := ⟨rule, weight, binding, side,
      behind.map fun s => (s.otherName, s.field, if symbols then some s.symbol else none), ahead⟩
    match items.index[key]? with
    | some i => (i, i :: later, items)
    | none =>
      let item : Item := ⟨rule, mark, weight, shape, binding, side, ahead.head?.map (·.symbol),
        (ahead.drop 1).head?.map (·.symbol), successor⟩
      (items.all.size, items.all.size :: later,
        ⟨items.all.push item, items.index.insert key items.all.size⟩)
termination_by _ ahead => ahead.length
decreasing_by simp_all

/-- Groups a list by key, in order of first occurrence, merging the values of one key. -/
def merged {κ β : Type} [BEq κ] (merge : β → β → β) (xs : List (κ × β)) : List (κ × β) :=
  xs.foldl (fun acc x =>
    if acc.any (·.1 == x.1) then acc.map fun y => if y.1 == x.1 then (y.1, merge y.2 x.2) else y
    else acc ++ [x]) []

def numberTokens (d : Description) :
    List (String × Rule Part) × List (Rule Part) × Tokens :=
  let number (name : String) : Term → StateM Tokens Part
    | .name n => return .name n
    | .token t => do
      let (i, ts) := (← get).number name t
      set ts
      return .token i
  let work : StateM Tokens (List (String × Rule Part) × List (Rule Part)) := do
    let rules ← d.rules.mapM fun (name, r) => do
      modify fun ts => { ts with unnamed := 0 }
      return (name, ← r.mapM (number name))
    let scanned ← d.scanned.mapM fun r => r.mapM (number "scanned")
    return (rules, scanned)
  let ((rules, scanned), tokens) := work.run {}
  (rules, scanned, tokens)

def ofDescription (d : Description) : Language := Id.run do
  let (rules, scannedRules, tokens) := numberTokens d
  -- a rule that is a token used nowhere else names that token
  let mut terminals := tokens.all
  let mut renamed : Std.HashMap String Nat := {}
  let mut kept : Array (String × Rule Part) := #[]
  for h : i in [0:rules.length] do
    let (name, r) := rules[i]
    let group := d.groups.contains name
    match r with
    | .part (.token t) =>
      if i > 0 && (terminals[t]?.map (·.uses)) == some 1 then
        terminals := terminals.modify t fun x =>
          { x with name := name, display := displayOf name group }
        renamed := renamed.insert name t
      else kept := kept.push (name, r)
    | _ => kept := kept.push (name, r)
  let count := terminals.size
  let ruleIndex : Std.HashMap String Nat :=
    (kept.mapIdx fun i x => (x.1, i)).foldl (fun m x => m.insert x.1 x.2) {}
  let scanned : Array Scanned := (scannedRules.toArray).mapIdx fun i r =>
    match r with
    | .part (.token t) =>
      match terminals[t]? with
      | some x => ⟨x.name, x.display, t⟩
      | none => ⟨"", .hidden, t⟩
    | .part (.name n) => ⟨n, displayOf n false, renamed.getD n (count + i)⟩
    | _ => ⟨"", .hidden, count + i⟩
  let scannedIndex : Std.HashMap String Nat := scanned.foldl (fun m s => m.insert s.name s.token) {}
  let finish := count + scanned.size
  let symbolOf (n : String) : Symbol :=
    match renamed[n]?, ruleIndex[n]?, scannedIndex[n]? with
    | some t, _, _ => .token t
    | none, some i, _ => .rule i
    | none, none, some t => .token t
    | none, none, none => .error
  let resolve : Part → Id Symbol
    | .name n => symbolOf n
    | .token t => .token t
  -- repetitions become rules
  let base := kept.size
  let mut repetitions : Repetitions := {}
  let mut bodies : Array (Rule Symbol) := #[]
  let mut infos : Array Nonterminal := #[]
  for (name, r) in kept do
    let (body, more) := (Repetitions.expand name base (r.mapM resolve)).run repetitions
    repetitions := more
    bodies := bodies.push body
    let group := d.groups.contains name
    infos := infos.push ⟨name, displayOf name group, group, false⟩
  for (name, body) in repetitions.made do
    bodies := bodies.push body
    infos := infos.push ⟨name, .hidden, false, true⟩
  -- productions
  let inlined := d.inlined.map symbolOf
  let isInlined (s : Symbol) : Bool := inlined.contains s
  let extras := d.extras.map symbolOf
  let plain := (bodies.mapIdx fun i r => productionsOf i r).toList
  let aliases := defaultAliases plain.flatten isInlined extras
  let productions := (plain.map (dropDefaultAliases aliases isInlined)).toArray
  let all := productions.toList.flatten
  let bodyOf (s : Symbol) : Option (List Production) :=
    match s with
    | .rule i => if isInlined s then productions[i]? else none
    | _ => none
  let expanded := productions.toList.flatMap fun ps =>
    match ps with
    | [] => []
    | p :: _ => if isInlined (.rule p.rule) then [] else distinct (ps.flatMap (inlineAll bodyOf 64))
  let start := infos.size
  let first := firsts start all
  let fields := hiddenFields infos all
  let renamedParts := distinct (all.flatMap fun p =>
    p.steps.filterMap fun s => s.otherName.map fun _ => s.symbol)
  let traceless := infos.mapIdx fun i r =>
    r.display != .named && !r.group && !aliases.contains (.rule i) && !renamedParts.contains (.rule i)
  -- items
  let mut shapes : Array Shape := #[[]]
  let mut shapeIndex : Std.HashMap Shape Nat := ({} : Std.HashMap Shape Nat).insert [] 0
  let mut items : Items := {}
  let mut opening : Array TokenSet := Array.replicate start 0
  let mut leading : Array (List (Nat × TokenSet × Bool)) := Array.replicate start []
  let mut entered : Std.HashMap (Nat × Symbol) (List Nat) := {}
  for p in expanded do
    let shape := trimShape (p.steps.map (shapeStep fields infos))
    let number := shapeIndex.getD shape shapes.size
    if number == shapes.size then
      shapes := shapes.push shape
      shapeIndex := shapeIndex.insert shape number
    let (_, numbers, more) := addItems fields infos p.rule p.weight number 0 [] p.steps items
    items := more
    match p.steps, numbers with
    | s :: rest, _ :: second :: _ =>
      match s.symbol with
      | .token t => opening := opening.modify p.rule (· ||| TokenSet.single t)
      | .rule i =>
        let follow := match rest with
          | [] => 0
          | t :: _ => firstOf first t.symbol
        leading := leading.modify p.rule ((i, follow, rest.isEmpty) :: ·)
      | _ => pure ()
      let old := entered.getD (p.rule, s.symbol) []
      if !old.contains second then
        entered := entered.insert (p.rule, s.symbol) (old ++ [second])
    | _, _ => pure ()
  let merge (x y : TokenSet × Bool) : TokenSet × Bool := (x.1 ||| y.1, x.2 || y.2)
  leading := leading.map (merged merge)
  let empties := expanded.filterMap fun p =>
    if p.steps.isEmpty then some ⟨p.rule, 0, p.weight, 0, .unsaid, .none, none, none, 0⟩ else none
  let (startItem, _, withStart) :=
    addItems fields infos start 0 0 0 [] [⟨.rule 0, .unsaid, .none, none, none⟩] items
  -- tokens that are told apart
  let word := d.word.bind fun n => match symbolOf n with
    | .token t => some t
    | _ => none
  let wordPattern := word.bind fun t => terminals[t]?.map (·.token.pattern)
  let keywords : Std.HashMap String Nat :=
    (terminals.mapIdx fun i t => (i, t)).foldl (fun m (i, t) =>
      match t.token.literal, wordPattern with
      | some text, some p => if p.accepts text.toList then m.insert text i else m
      | _, _ => m) {}
  let keywordSet := TokenSet.ofList (keywords.toList.map (·.2))
  let labelled : Array (String × Nat) := terminals.mapIdx fun i (t : Terminal) => (t.label, i)
  let named : Std.HashMap String Nat := labelled.foldl (fun m x =>
    if keywordSet.testBit x.2 then m else m.insert x.1 x.2) {}
  let labels := named.insert "END" finish
  let context (ls : List String) : TokenSet := TokenSet.ofList (ls.filterMap (labels[·]?))
  let contextual := context d.contextual
  let recovery := (List.range count).foldl (fun s i =>
    if contextual.testBit i || keywordSet.testBit i then s else s ||| TokenSet.single i)
    (TokenSet.single finish)
  return {
    terminals, scanned, finish
    extras := TokenSet.ofList (extras.filterMap fun s => match s with
      | .token t => some t
      | _ => none)
    space := d.space
    rules := infos, start, orders := d.orders, word, keywords, keywordSet, recovery
    contexts := d.contexts.map context
    aliases, traceless, shapes, items := withStart.all, startItem, empties, first, opening, leading,
    entered }

end Language

end MarkupNesting.Grammar
