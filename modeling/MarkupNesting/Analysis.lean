import MarkupNesting.Dialect
import MarkupNesting.Html.Parse
import MarkupNesting.Jsx.Parse
import MarkupNesting.Tree.Advice
import MarkupNesting.Tree.Binary
import MarkupNesting.Tree.Statistics

/-! The analysis of a source text: its tree, the binary form of that, its depth, and advice. -/

namespace MarkupNesting

structure Analysis where
  tree : Tree
  binary : BinaryTree
  statistics : Statistics
  advice : Advice
deriving DecidableEq

/-- The tree of a source. White space around it does not count. -/
def buildTree (source : String) (d : Dialect) : Except Failure Tree :=
  let source := trim source
  if source.isEmpty then .error .emptyInput
  else
    match d with
    | .html => Html.parse source
    | _ => Jsx.parse d.isTyped source

def analyze (source : String) (d : Dialect) : Except Failure Analysis := do
  let tree ← buildTree source d
  let statistics := Statistics.ofTree tree
  checkHeight tree
  return ⟨tree, tree.encode, statistics, Advice.ofTree tree statistics.maxDepth⟩

structure Request where
  source : String
  dialect : String
deriving DecidableEq

structure Response where
  success : Bool
  result : Option Analysis
  error : Option String
deriving DecidableEq

namespace Response

def ofResult (a : Analysis) : Response := ⟨true, some a, none⟩

def failure (message : String) : Response := ⟨false, none, some message⟩

end Response

namespace Request

/-- An empty source fails before the dialect is looked at. -/
def run (r : Request) : Except Failure Analysis := do
  if isBlankText r.source then throw .emptyInput
  analyze r.source (← Dialect.ofName r.dialect)

def respond (r : Request) : Response :=
  match r.run with
  | .ok a => .ofResult a
  | .error e => .failure e.message

end Request

end MarkupNesting
