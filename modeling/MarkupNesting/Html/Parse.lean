import MarkupNesting.Html.Build
import MarkupNesting.Html.Reader
import MarkupNesting.Html.Recovered

/-! HTML from text to tree. -/

namespace MarkupNesting.Html

/-- The document of a source. What keeps the rules is read directly, the rest by recovery. -/
def documentOf (source : String) : Node :=
  match readDocument source with
  | some n => n
  | none => Recovered.document source

def parse (source : String) : Except Failure Tree := treeOf (documentOf source)

end MarkupNesting.Html
