import MarkupNesting.Failure
import MarkupNesting.Text.Blank

/-! The dialects of markup. -/

namespace MarkupNesting

inductive Dialect where
  | html
  | jsx
  | tsx
deriving DecidableEq, Repr

namespace Dialect

def all : List Dialect := [html, jsx, tsx]

def name : Dialect → String
  | html => "html"
  | jsx => "jsx"
  | tsx => "tsx"

def isTyped (d : Dialect) : Bool := d = tsx

def ofName? (s : String) : Option Dialect := all.find? (·.name = s)

def ofName (s : String) : Except Failure Dialect :=
  match ofName? s with
  | some d => .ok d
  | none => .error (.unsupportedDialect s)

def extensions : Dialect → List String
  | html => ["html", "htm"]
  | jsx => ["jsx", "js", "mjs", "cjs"]
  | tsx => ["tsx", "ts", "mts", "cts"]

/-- The dialect of files with an extension, whatever the case of its letters. All extensions are
ASCII, and no other letter has one of theirs as its lower case. -/
def ofExtension? (s : String) : Option Dialect := all.find? fun d => d.extensions.contains (lower s)

end Dialect

end MarkupNesting
