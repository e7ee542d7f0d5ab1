import MarkupNesting.Analysis
import MarkupNesting.Json.Parser
import MarkupNesting.Json.Printer

/-! The values of an analysis as JSON. A value is read back from what is written for it; fields that
are not known are passed over. -/

namespace MarkupNesting

/-- How many bits a number may have: most, and percentages. -/
structure Widths where
  general : Nat
  percentage : Nat

def widths : Widths := ⟨64, 32⟩

/-- The value of an enumeration, given by its name alone or as the only field of an object. -/
def enumeration? {α : Type} (ofName? : String → Option α) : Json → Option α
  | .string s => ofName? s
  | .object [(s, .null)] => ofName? s
  | _ => none

namespace Attributes

def toJson (a : Attributes) : Json := .object (a.entries.map fun (k, v) => (k, .string v))

def ofJson? : Json → Option Attributes
  | .object fields => do return ofLast (← fields.mapM fun (k, v) => do return (k, ← v.string?))
  | _ => none

end Attributes

namespace Tree

mutual

def toJson : Tree → Json
  | ⟨id, tag, children, depth, attributes⟩ =>
    .object ([("id", .string id), ("tag", .string tag), ("children", .array (allToJson children))] ++
      Json.optional "depth" .natural depth ++ Json.optional "attributes" Attributes.toJson attributes)

def allToJson : List Tree → List Json
  | [] => []
  | t :: ts => t.toJson :: allToJson ts

end

mutual

def ofJson? : Json → Option Tree
  | .object fields => do
    let j := Json.object fields
    let id ← (← j.field? "id").string?
    let tag ← (← j.field? "tag").string?
    let children ← childrenIn fields
    let depth ← Json.optional? (Json.natural? widths.general) (j.field? "depth")
    let attributes ← Json.optional? Attributes.ofJson? (j.field? "attributes")
    return ⟨id, tag, children, depth, attributes⟩
  | _ => none

/-- The children among the fields of a tree. -/
def childrenIn : List (String × Json) → Option (List Tree)
  | [] => none
  | (k, v) :: fields => if k = "children" then childrenOf v else childrenIn fields

def childrenOf : Json → Option (List Tree)
  | .array items => allOfJson? items
  | _ => none

def allOfJson? : List Json → Option (List Tree)
  | [] => some []
  | j :: js => do return (← ofJson? j) :: (← allOfJson? js)

end

end Tree

namespace BinaryTree

mutual

def toJson : BinaryTree → Json
  | ⟨id, tag, left, right⟩ =>
    .object ([("id", .string id), ("tag", .string tag)] ++ linkToJson "left" left ++
      linkToJson "right" right)

def linkToJson (name : String) : Option BinaryTree → List (String × Json)
  | none => []
  | some b => [(name, b.toJson)]

end

mutual

def ofJson? : Json → Option BinaryTree
  | .object fields => do
    let j := Json.object fields
    let id ← (← j.field? "id").string?
    let tag ← (← j.field? "tag").string?
    return ⟨id, tag, ← linkIn "left" fields, ← linkIn "right" fields⟩
  | _ => none

/-- The link with a name among the fields of a node. -/
def linkIn (name : String) : List (String × Json) → Option (Option BinaryTree)
  | [] => some none
  | (k, v) :: fields => if k = name then linkOf v else linkIn name fields

def linkOf : Json → Option (Option BinaryTree)
  | .null => some none
  | .object fields => (ofJson? (.object fields)).map some
  | _ => none

end

end BinaryTree

namespace Statistics

def toJson (s : Statistics) : Json :=
  .object [("maxDepth", .natural s.maxDepth), ("totalNodes", .natural s.totalNodes),
    ("depthSum", .natural s.depthSum), ("averageDepth", .binary s.averageDepth),
    ("deepestPath", .strings s.deepestPath)]

def ofJson? (j : Json) : Option Statistics := do
  let number (name : String) : Option Nat := do (← j.field? name).natural? widths.general
  return {
    maxDepth := ← number "maxDepth"
    totalNodes := ← number "totalNodes"
    depthSum := ← number "depthSum"
    averageDepth := ← (← j.field? "averageDepth").binary?
    deepestPath := ← (← j.field? "deepestPath").strings? }

end Statistics

namespace Finding

def all : List Finding := [redundantWrapper, singleChildWrapper, deepNesting]

def name : Finding → String
  | redundantWrapper => "redundant-wrapper"
  | singleChildWrapper => "single-child-wrapper"
  | deepNesting => "deep-nesting"

def ofName? (s : String) : Option Finding := all.find? (·.name = s)

def toJson (f : Finding) : Json := .string f.name

def ofJson? : Json → Option Finding := enumeration? ofName?

theorem ofJson?_toJson (f : Finding) : ofJson? f.toJson = some f := by cases f <;> decide

end Finding

namespace Suggestion

def toJson (s : Suggestion) : Json :=
  .object [("type", s.finding.toJson), ("path", .strings s.path),
    ("description", .string s.description), ("depthReduction", .natural s.reduction)]

def ofJson? (j : Json) : Option Suggestion := do
  return {
    finding := ← Finding.ofJson? (← j.field? "type")
    path := ← (← j.field? "path").strings?
    description := ← (← j.field? "description").string?
    reduction := ← (← j.field? "depthReduction").natural? widths.general }

end Suggestion

namespace Advice

def toJson (a : Advice) : Json :=
  .object [("suggestions", .array (a.suggestions.map Suggestion.toJson)),
    ("estimatedDepthReduction", .natural a.estimatedReduction),
    ("originalDepth", .natural a.originalDepth), ("optimizedDepth", .natural a.optimizedDepth),
    ("summary", .string a.summary)]

def ofJson? (j : Json) : Option Advice := do
  return {
    suggestions := ← (← (← j.field? "suggestions").array?).mapM Suggestion.ofJson?
    estimatedReduction := ← (← j.field? "estimatedDepthReduction").natural? widths.percentage
    originalDepth := ← (← j.field? "originalDepth").natural? widths.general
    optimizedDepth := ← (← j.field? "optimizedDepth").natural? widths.general
    summary := ← (← j.field? "summary").string? }

end Advice

namespace Analysis

def toJson (a : Analysis) : Json :=
  .object [("tree", a.tree.toJson), ("binaryTree", a.binary.toJson), ("dfs", a.statistics.toJson),
    ("optimization", a.advice.toJson)]

def ofJson? (j : Json) : Option Analysis := do
  return {
    tree := ← Tree.ofJson? (← j.field? "tree")
    binary := ← BinaryTree.ofJson? (← j.field? "binaryTree")
    statistics := ← Statistics.ofJson? (← j.field? "dfs")
    advice := ← Advice.ofJson? (← j.field? "optimization") }

end Analysis

namespace Request

def toJson (r : Request) : Json :=
  .object [("sourceText", .string r.source), ("dialect", .string r.dialect)]

def ofJson? (j : Json) : Option Request := do
  return ⟨← (← j.field? "sourceText").string?, ← (← j.field? "dialect").string?⟩

end Request

namespace Response

def toJson (r : Response) : Json :=
  .object ([("success", .bool r.success)] ++ Json.optional "result" Analysis.toJson r.result ++
    Json.optional "error" .string r.error)

def ofJson? (j : Json) : Option Response := do
  let success ← (← j.field? "success").bool?
  let result ← Json.optional? Analysis.ofJson? (j.field? "result")
  let error ← Json.optional? Json.string? (j.field? "error")
  return ⟨success, result, error⟩

def text (r : Response) : String := r.toJson.compact

end Response

namespace Dialect

def toJson (d : Dialect) : Json := .string d.name

def ofJson? : Json → Option Dialect := enumeration? ofName?

end Dialect

end MarkupNesting
