import MarkupNesting.Grammar.Rule
import Std.Data.HashMap

/-! From written rules to productions: tokens are collected and numbered, repetitions become rules
of their own, alternatives become productions, and inlined rules are replaced by their bodies. -/

namespace MarkupNesting.Grammar

/-- A symbol of the compiled grammar. The last two stand for text that fits nowhere. -/
inductive Symbol where
  | token (i : Nat)
  | rule (i : Nat)
  | error
  | skipped
deriving DecidableEq, Hashable

inductive Display where
  | named
  | literal
  | hidden
deriving DecidableEq

structure Step where
  symbol : Symbol
  binding : Binding
  side : Side
  otherName : Option Alias
  field : Option String
deriving DecidableEq, Hashable

structure Production where
  rule : Nat
  steps : List Step
  weight : Int
deriving DecidableEq, Hashable

structure Terminal where
  token : Token
  name : String
  display : Display
  uses : Nat

namespace Terminal

/-- The label by which contexts refer to a token; an immediate literal has a low line in front. -/
def label (t : Terminal) : String :=
  match t.token.literal, t.token.immediate with
  | some text, true => "_" ++ text
  | some text, false => if t.display = .literal then text else t.name
  | none, _ => t.name

end Terminal

structure Nonterminal where
  name : String
  display : Display
  /-- A rule that only groups others. -/
  group : Bool
  /-- A rule made for a repetition. -/
  repetition : Bool

/-- Which symbols a rule may put into a tree: a rule that starts with a low line is hidden. -/
def displayOf (name : String) (group : Bool) : Display :=
  if group || name.startsWith "_" then .hidden else .named

structure Tokens where
  all : Array Terminal := #[]
  index : Std.HashMap Token Nat := {}
  /-- How many tokens of the rule at hand have no name of their own. -/
  unnamed : Nat := 0

namespace Tokens

def number (ts : Tokens) (rule : String) (t : Token) : Nat × Tokens :=
  match ts.index[t]? with
  | some i => (i, { ts with all := ts.all.modify i fun x => { x with uses := x.uses + 1 } })
  | none =>
    let (name, display, unnamed) := match t.literal with
      | some text => (text, Display.literal, ts.unnamed)
      | none => (rule ++ "_token" ++ toString (ts.unnamed + 1), .hidden, ts.unnamed + 1)
    (ts.all.size, ⟨ts.all.push ⟨t, name, display, 1⟩, ts.index.insert t ts.all.size, unnamed⟩)

end Tokens

inductive Part where
  | name (n : String)
  | token (i : Nat)
deriving DecidableEq

namespace Rule

def mapM {α β : Type} {m : Type → Type} [Monad m] (f : α → m β) : Rule α → m (Rule β)
  | blank => pure .blank
  | part a => return .part (← f a)
  | seq r s => return .seq (← r.mapM f) (← s.mapM f)
  | choice r s => return .choice (← r.mapM f) (← s.mapM f)
  | repeat1 r => return .repeat1 (← r.mapM f)
  | binding b r => return .binding b (← r.mapM f)
  | side a r => return .side a (← r.mapM f)
  | weight n r => return .weight n (← r.mapM f)
  | otherName a r => return .otherName a (← r.mapM f)
  | field n r => return .field n (← r.mapM f)

end Rule

structure Repetitions where
  made : Array (String × Rule Symbol) := #[]
  index : Std.HashMap (Rule Symbol) Symbol := {}

namespace Repetitions

/-- A repetition is a rule that is either two of itself or one body, so that long lists stay
shallow to read. -/
def twice (s : Symbol) (body : Rule Symbol) : Rule Symbol :=
  .choice (.seq (.part s) (.part s)) body

def expand (name : String) (base : Nat) : Rule Symbol → StateM Repetitions (Rule Symbol)
  | .repeat1 r => do
    let body ← expand name base r
    let known ← get
    match known.index[body]? with
    | some s => return .part s
    | none =>
      let s := Symbol.rule (base + known.made.size)
      set { made := known.made.push (name ++ "_repeat", twice s body)
            index := known.index.insert body s : Repetitions }
      return .part s
  | .seq r s => return .seq (← expand name base r) (← expand name base s)
  | .choice r s => return .choice (← expand name base r) (← expand name base s)
  | .binding b r => return .binding b (← expand name base r)
  | .side a r => return .side a (← expand name base r)
  | .weight n r => return .weight n (← expand name base r)
  | .otherName a r => return .otherName a (← expand name base r)
  | .field n r => return .field n (← expand name base r)
  | r => return r

end Repetitions

structure Around where
  binding : Binding := .unsaid
  side : Side := .none
  otherName : Option Alias := none
  field : Option String := none

abbrev Body := List Step × Int

namespace Body

def modifyLast (f : Step → Step) : List Step → List Step
  | [] => []
  | [s] => [f s]
  | s :: ss => s :: modifyLast f ss

/-- The heavier of two weights counts; of two equally heavy ones the first. -/
def heavier (x y : Int) : Int := if x.natAbs < y.natAbs then y else x

/-- The bodies of a rule, in order. Bindings hold up to the last step of what they are said about,
which binds like what follows unless it ends the whole body. -/
def ofRule (around : Around) (atEnd : Bool) : Rule Symbol → List Body
  | .blank => [([], 0)]
  | .part s => [([⟨s, around.binding, around.side, around.otherName, around.field⟩], 0)]
  | .seq r s =>
    let ys := ofRule around atEnd s
    (ofRule around false r).flatMap fun x => ys.map fun y => (x.1 ++ y.1, heavier x.2 y.2)
  | .choice r s => ofRule around atEnd r ++ ofRule around atEnd s
  | .repeat1 r => ofRule around atEnd r
  | .binding b r =>
    let bodies := ofRule { around with binding := b } atEnd r
    if atEnd then bodies
    else bodies.map fun x => (modifyLast (fun s => { s with binding := around.binding }) x.1, x.2)
  | .side a r =>
    let bodies := ofRule { around with side := a } atEnd r
    if atEnd then bodies
    else bodies.map fun x => (modifyLast (fun s => { s with side := around.side }) x.1, x.2)
  | .weight n r => (ofRule around atEnd r).map fun x => (x.1, heavier n x.2)
  | .otherName a r => ofRule { around with otherName := some a } atEnd r
  | .field n r => ofRule { around with field := some n } atEnd r

end Body

def distinct {α : Type} [BEq α] [Hashable α] (xs : List α) : List α :=
  let kept := xs.foldl (fun (kept : Array α × Std.HashMap α Unit) x =>
    if kept.2.contains x then kept else (kept.1.push x, kept.2.insert x ())) (#[], {})
  kept.1.toList

def productionsOf (i : Nat) (r : Rule Symbol) : List Production :=
  distinct ((Body.ofRule {} true r).map fun b => ⟨i, b.1, b.2⟩)

def defaultAliases (all : List Production) (inlined : Symbol → Bool) (extras : List Symbol) :
    Std.HashMap Symbol Alias := Id.run do
  let mut named : Std.HashMap Symbol (List (Alias × Nat)) := {}
  let mut plain : Std.HashMap Symbol Unit := {}
  for s in extras do
    plain := plain.insert s ()
  for p in all do
    for s in p.steps do
      if !inlined s.symbol then
        match s.otherName with
        | none => plain := plain.insert s.symbol ()
        | some a =>
          let old := named.getD s.symbol []
          let new := if old.any (·.1 == a) then old.map fun x => if x.1 == a then (a, x.2 + 1) else x
            else old ++ [(a, 1)]
          named := named.insert s.symbol new
  let mut result : Std.HashMap Symbol Alias := {}
  for (s, counts) in named.toList do
    if !plain.contains s then
      match counts with
      | [] => pure ()
      | first :: others =>
        let best := others.foldl (fun b x => if b.2 < x.2 then x else b) first
        result := result.insert s best.1
  return result

/-- Drops from the steps the aliases that symbols have anyway, unless another production of the rule
gives that name to a step at the same place whose symbol has another. -/
def dropDefaultAliases (aliases : Std.HashMap Symbol Alias) (inlined : Symbol → Bool)
    (ps : List Production) : List Production :=
  ps.mapIdx fun i p =>
    { p with steps := p.steps.mapIdx fun j s =>
        match s.otherName with
        | none => s
        | some a =>
          if inlined s.symbol || aliases[s.symbol]? != some a then s
          else
            let needed := (ps.mapIdx fun k q => (k, q)).any fun (k, q) =>
              k != i && match q.steps[j]? with
                | some t => t.otherName == some a && aliases[t.symbol]? != some a
                | none => false
            if needed then s else { s with otherName := none } }

def inlineStep (inlined : Symbol → Option (List Production)) (done : List Step) (p : Production) :
    List Step → List Production
  | [] => [p]
  | s :: rest =>
    match inlined s.symbol with
    | none => inlineStep inlined (done ++ [s]) p rest
    | some bodies => bodies.map fun q =>
      let steps := q.steps.map fun x =>
        { x with otherName := if s.otherName.isSome then s.otherName else x.otherName
                 field := if s.field.isSome then s.field else x.field }
      let steps := Body.modifyLast (fun x =>
        { x with binding := if x.binding = .unsaid then s.binding else x.binding
                 side := if x.side = .none then s.side else x.side }) steps
      { p with steps := done ++ steps ++ rest, weight := Body.heavier p.weight q.weight }

def inlineAll (inlined : Symbol → Option (List Production)) : Nat → Production → List Production
  | 0, p => [p]
  | depth + 1, p =>
    if p.steps.any fun s => (inlined s.symbol).isSome then
      (inlineStep inlined [] p p.steps).flatMap (inlineAll inlined depth)
    else [p]

end MarkupNesting.Grammar
