import MarkupNesting.Number.Decimal

/-! Why an analysis may fail. -/

namespace MarkupNesting

/-- A place in a text: the line, counted from 0, and the distance in bytes from its start. -/
structure Place where
  line : Nat
  column : Nat
deriving DecidableEq, Repr

inductive Fault where
  | unexpected (place : Place)
  | missing (kind : String) (place : Place)
  | unplaced
deriving DecidableEq, Repr

namespace Fault

def placeText (p : Place) : String :=
  "(" ++ Decimal.text (p.line + 1) ++ ":" ++ Decimal.text p.column ++ ")"

def message : Fault → String
  | unexpected p => "Unexpected token " ++ placeText p
  | missing kind p => "Missing " ++ kind ++ " " ++ placeText p
  | unplaced => "Unexpected token"

end Fault

inductive Failure where
  | emptyInput
  | unsupportedDialect (name : String)
  | noElements
  | syntaxFault (fault : Fault)
  | noJsx
  | nestingTooDeep (limit : Nat)
  | encodingTooDeep (limit : Nat)
deriving DecidableEq, Repr

namespace Failure

def message : Failure → String
  | emptyInput => "Input is empty. Please provide HTML or JSX code."
  | unsupportedDialect name => "Unsupported language: " ++ name
  | noElements => "No valid HTML elements found. Please provide valid HTML markup."
  | syntaxFault fault => "JSX/TSX parse error: " ++ fault.message
  | noJsx => "No JSX elements found in the code."
  | nestingTooDeep limit =>
    "Markup is nested deeper than the supported limit of " ++ Decimal.text limit ++ " levels."
  | encodingTooDeep limit =>
    "Markup has sibling runs too long to encode; the binary tree is limited to " ++
      Decimal.text limit ++ " levels."

end Failure

end MarkupNesting
