import MarkupNesting.Jsx.Build
import MarkupNesting.Jsx.Module
import MarkupNesting.Jsx.Reader

/-! JSX from text to tree. -/

namespace MarkupNesting.Jsx

/-- The module of a source. What only declares JSX is read directly, the rest by the grammar. -/
def moduleOf (typed : Bool) (source : String) : Node :=
  match readModule source with
  | some n => n
  | none => Module.ofText typed source

def parse (typed : Bool) (source : String) : Except Failure Tree := treeOf (moduleOf typed source)

end MarkupNesting.Jsx
