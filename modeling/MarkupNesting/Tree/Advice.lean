import MarkupNesting.Number.Binary64
import MarkupNesting.Number.Decimal
import MarkupNesting.Tree.Visit

/-! Advice on nesting that could be flattened. Every rule is asked about every node; several may
have something to say about one node. -/

namespace MarkupNesting

inductive Finding where
  | redundantWrapper
  | singleChildWrapper
  | deepNesting
deriving DecidableEq, Repr

structure Suggestion where
  finding : Finding
  /-- The tags down to the node that the suggestion is about. -/
  path : List String
  description : String
  reduction : Nat
deriving DecidableEq

structure Advice where
  suggestions : List Suggestion
  /-- In percent, at most 100. -/
  estimatedReduction : Nat
  originalDepth : Nat
  optimizedDepth : Nat
  summary : String
deriving DecidableEq

namespace Advice

/-- Elements that only group others. -/
def wrapperTags : List String :=
  ["div", "span", "section", "article", "main", "aside", "header", "footer", "nav"]

def isWrapper (tag : String) : Bool := wrapperTags.contains tag

/-- The recorded depth from which on a node with children is deep. -/
def deepFrom : Nat := 10

/-- A rule looks at a node and the tags down to it. -/
abbrev Rule := List String → Tree → Option Suggestion

def onlyChild (t : Tree) : Option Tree :=
  match t.children with
  | [c] => some c
  | _ => none

def singleChildText (tag child : String) : String :=
  "<" ++ tag ++ "> wraps only <" ++ child ++ "> and has no attributes. It can be removed."

def redundantText (tag : String) : String :=
  "Redundant nested <" ++ tag ++ "> → <" ++ tag ++ ">. Consider merging into a single element."

def deepText (depth : Nat) : String :=
  "Nesting depth " ++ Decimal.text depth ++ " exceeds threshold of " ++ Decimal.text deepFrom ++
    ". Consider flattening or extracting components."

def singleChildWrapper : Rule := fun path t =>
  match onlyChild t with
  | some child =>
    if isWrapper t.tag && !t.hasAttributes then
      some ⟨.singleChildWrapper, path, singleChildText t.tag child.tag, 1⟩
    else none
  | none => none

def redundantWrapper : Rule := fun path t =>
  match onlyChild t with
  | some child =>
    if child.tag = t.tag && isWrapper t.tag then
      some ⟨.redundantWrapper, path, redundantText t.tag, 1⟩
    else none
  | none => none

def deepNesting : Rule := fun path t =>
  let depth := t.depth.getD 0
  if depth < deepFrom || t.children.isEmpty then none
  else some ⟨.deepNesting, path, deepText depth, max (depth - deepFrom) 1⟩

def rules : List Rule := [singleChildWrapper, redundantWrapper, deepNesting]

def scan (root : Tree) (rules : List Rule) : List Suggestion :=
  root.visits.flatMap fun v => rules.filterMap fun rule => rule v.path v.node

/-- Leaves out a deep nesting whose path, written out, has been seen before. -/
def dedupe (seen : List String) : List Suggestion → List Suggestion
  | [] => []
  | s :: rest =>
    if s.finding = .deepNesting then
      let path := "/".intercalate s.path
      if seen.contains path then dedupe seen rest else s :: dedupe (path :: seen) rest
    else s :: dedupe seen rest

/-- A part of a whole in percent, to the nearest integer and at most 100. -/
def percentage (part whole : Nat) : Nat :=
  if whole = 0 then 0
  else min 100 ((((Binary64.ofNat part).div (.ofNat whole)).mul (.ofNat 100)).rounded)

def totalReduction : List Suggestion → Nat
  | [] => 0
  | s :: rest => s.reduction + totalReduction rest

def cleanSummary : String := "Your DOM structure looks clean! No obvious optimizations detected."

def summaryOf (count maxDepth optimized percent : Nat) : String :=
  if count = 0 then cleanSummary
  else
    "Found " ++ Decimal.text count ++ " optimization" ++ (if 1 < count then "s" else "") ++
      " that could reduce depth from " ++ Decimal.text maxDepth ++ " to ~" ++ Decimal.text optimized ++
      " (" ++ Decimal.text percent ++ "% reduction)."

def ofTree (root : Tree) (maxDepth : Nat) : Advice :=
  let suggestions := dedupe [] (scan root rules)
  let total := totalReduction suggestions
  let percent := percentage total maxDepth
  let optimized := max (maxDepth - total) 1
  ⟨suggestions, percent, maxDepth, optimized,
    summaryOf suggestions.length maxDepth optimized percent⟩

end Advice

end MarkupNesting
