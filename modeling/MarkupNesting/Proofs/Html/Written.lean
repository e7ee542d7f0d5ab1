import MarkupNesting.Attributes
import MarkupNesting.Proofs.References
import MarkupNesting.Tree

/-! Documents written out in full: every element with its start tag and its end tag, every attribute
with a quoted value, and any text around the tags. -/

namespace MarkupNesting.Html

/-- Elements that hold any others, and whose tags end no element but their own. -/
def flowTags : List String :=
  ["div", "span", "section", "article", "main", "aside", "header", "footer", "nav", "ul", "ol",
    "form", "a", "b", "i", "em", "strong"]

def isWordChar (c : Char) : Bool := c.isLower || c.isDigit || c = '-'

def IsWord (name : String) : Prop := name ≠ "" ∧ ∀ c ∈ name.toList, isWordChar c = true

instance (name : String) : Decidable (IsWord name) :=
  have : Decidable (∀ c ∈ name.toList, isWordChar c = true) := List.decidableBAll _ _
  inferInstanceAs (Decidable (name ≠ "" ∧ ∀ c ∈ name.toList, isWordChar c = true))

/-- Text that holds nothing but itself. -/
def IsPlainText (cs : List Char) : Prop := ∀ c ∈ cs, c ≠ '<' ∧ c ≠ '>' ∧ c ≠ '&' ∧ c ≠ '\x00'

instance (cs : List Char) : Decidable (IsPlainText cs) :=
  List.decidableBAll (fun c => c ≠ '<' ∧ c ≠ '>' ∧ c ≠ '&' ∧ c ≠ '\x00') cs

/-- Attributes that can be written: none recorded, or at least one, all of them named by words. -/
def Writable (attributes : Option Attributes) : Prop :=
  ∀ a ∈ attributes, a.isEmpty = false ∧ ∀ e ∈ a.entries, IsWord e.1

def entriesOf (attributes : Option Attributes) : List (String × String) :=
  match attributes with
  | some a => a.entries
  | none => []

theorem isWord_entriesOf {attributes : Option Attributes} (h : Writable attributes) :
    ∀ e ∈ entriesOf attributes, IsWord e.1 := by
  cases attributes with
  | none => simp [entriesOf]
  | some a => exact (h a rfl).2

def attributeText (e : String × String) : List Char :=
  ' ' :: (e.1.toList ++ '=' :: '\x22' :: (escape e.2 ++ ['\x22']))

def startTagText (tag : String) (attributes : Option Attributes) : List Char :=
  '<' :: (tag.toList ++ ((entriesOf attributes).flatMap attributeText ++ ['>']))

def endTagText (tag : String) : List Char := '<' :: '/' :: (tag.toList ++ ['>'])

/-- A text that some trees may be written as, one after another. Their names and recorded depths
have no part in it. -/
inductive Written : List Tree → List Char → Prop
  | text {text : List Char} : IsPlainText text → Written [] text
  | element {text inner after : List Char} {id tag : String} {children rest : List Tree}
      {depth : Option Nat} {attributes : Option Attributes} :
      IsPlainText text → tag ∈ flowTags → Writable attributes → Written children inner →
      Written rest after →
      Written (⟨id, tag, children, depth, attributes⟩ :: rest)
        (text ++ startTagText tag attributes ++ inner ++ endTagText tag ++ after)

end MarkupNesting.Html
