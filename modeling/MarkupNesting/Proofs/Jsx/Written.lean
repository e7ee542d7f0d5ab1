import MarkupNesting.Jsx.Reader
import MarkupNesting.Jsx.TagName
import MarkupNesting.Proofs.Naming

/-! Modules written out in full: a constant for every tree, its elements with their tags, some of
them in braces and parentheses, and any plain text between them. -/

namespace MarkupNesting.Jsx

def IsSegment (name : String) : Prop :=
  ∃ c cs, name.toList = c :: cs ∧ c.isUpper = true ∧ ∀ d ∈ cs, d.isAlphanum = true

def IsPlainText (cs : List Char) : Prop := ∀ c ∈ cs, c.isAlphanum = true ∨ c = ' '

instance (cs : List Char) : Decidable (IsPlainText cs) :=
  List.decidableBAll (fun c : Char => c.isAlphanum = true ∨ c = ' ') cs

def IsConstant (name : String) : Prop :=
  name ≠ "" ∧ (∀ c ∈ name.toList, c.isAlpha = true) ∧ name ∉ Reader.reserved

instance (name : String) : Decidable (IsConstant name) :=
  have : Decidable (∀ c ∈ name.toList, c.isAlpha = true) := List.decidableBAll _ _
  inferInstanceAs
    (Decidable (name ≠ "" ∧ (∀ c ∈ name.toList, c.isAlpha = true) ∧ name ∉ Reader.reserved))

def spaces (count : Nat) : List Char := List.replicate count ' '

/-- A text that a tag may be written as: spaces may surround its dots. -/
inductive NameText : String → List Char → Prop
  | segment {name : String} : IsSegment name → NameText name name.toList
  | member {object property : String} {text : List Char} (before after : Nat) :
      NameText object text → IsSegment property →
      NameText (object ++ "." ++ property)
        (text ++ spaces before ++ '.' :: spaces after ++ property.toList)

mutual

/-- A text that a tree may be written as. Its names, recorded depths and attributes have no part in
it. -/
inductive Element : Tree → List Char → Prop
  | leaf {id tag : String} {name : List Char} {depth : Option Nat} {attributes : Option Attributes} :
      NameText tag name →
      Element ⟨id, tag, [], depth, attributes⟩ ('<' :: (name ++ ['/', '>']))
  | pair {id tag : String} {opening inner closing : List Char} {children : List Tree}
      {depth : Option Nat} {attributes : Option Attributes} :
      NameText tag opening → Content children inner → NameText tag closing →
      Element ⟨id, tag, children, depth, attributes⟩
        ('<' :: (opening ++ '>' :: (inner ++ '<' :: '/' :: (closing ++ ['>']))))
  | fragment {id : String} {inner : List Char} {children : List Tree} {depth : Option Nat}
      {attributes : Option Attributes} :
      Content children inner →
      Element ⟨id, fragmentTag, children, depth, attributes⟩
        ('<' :: '>' :: (inner ++ ['<', '/', '>']))

inductive Content : List Tree → List Char → Prop
  | text {text : List Char} : IsPlainText text → Content [] text
  | child {text element after : List Char} {t : Tree} {rest : List Tree} :
      IsPlainText text → Element t element → Content rest after →
      Content (t :: rest) (text ++ element ++ after)
  | held {text element after : List Char} {t : Tree} {rest : List Tree} (parens : Nat) :
      IsPlainText text → Element t element → Content rest after →
      Content (t :: rest)
        (text ++ '\x7b' :: List.replicate parens '(' ++ element ++ List.replicate parens ')' ++
          '\x7d' :: after)

end

inductive Declaration : Tree → List Char → Prop
  | constant {name : String} {element : List Char} {t : Tree} :
      IsConstant name → Element t element →
      Declaration t ("const ".toList ++ name.toList ++ " = ".toList ++ element ++ [';'])

/-- A text that declares some trees, each on its own line. -/
inductive Written : List Tree → List Char → Prop
  | none : Written [] []
  | last {t : Tree} {line : List Char} : Declaration t line → Written [t] line
  | line {t : Tree} {line after : List Char} {rest : List Tree} :
      Declaration t line → Written rest after → Written (t :: rest) (line ++ '\n' :: after)

end MarkupNesting.Jsx
