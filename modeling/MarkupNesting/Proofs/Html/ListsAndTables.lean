import MarkupNesting.Proofs.Html.RoundTrip

/-! Lists and tables as they may be written: the end tags of items, rows and cells may be left out,
each on its own. What is left out has no part in the trees that are written. -/

namespace MarkupNesting.Html

open MarkupNesting.Tree

/-- What may stand in an element: text, lists and tables; or the items of a list; or the rows of a
table; or the cells of a row. -/
inductive ContentModel where
  | flow
  | items
  | rows
  | cells

inductive Element where
  | list
  | item
  | table
  | row
  | cell

namespace Element

def tag : Element → String
  | list => "ul"
  | item => "li"
  | table => "table"
  | row => "tr"
  | cell => "td"

def outside : Element → ContentModel
  | list | table => .flow
  | item => .items
  | row => .rows
  | cell => .cells

def inside : Element → ContentModel
  | list => .items
  | table => .rows
  | row => .cells
  | item | cell => .flow

def endOptional : Element → Bool
  | list | table => false
  | item | row | cell => true

/-- The trees below an element: the rows of a table stand in a table body. -/
def grouped : Element → List Tree → List Tree
  | table, r :: rs => [⟨"", "tbody", r :: rs, none, none⟩]
  | _, ts => ts

def tree (e : Element) (ts : List Tree) : Tree := ⟨"", e.tag, e.grouped ts, none, none⟩

end Element

/-- A part of a document. Every element says whether its end tag is written, where it may be left out. -/
inductive Content : ContentModel → Type where
  | nil {m : ContentModel} : Content m
  | text (cs : List Char) (plain : IsPlainText cs) (rest : Content .flow) : Content .flow
  | element (e : Element) (ended : Bool) (held : Content e.inside) (rest : Content e.outside) :
      Content e.outside

namespace Content

def source : {m : ContentModel} → Content m → List Char
  | _, nil => []
  | _, text cs _ rest => cs ++ rest.source
  | _, element e ended held rest =>
    startTagText e.tag none ++ held.source ++
      (if ended || !e.endOptional then endTagText e.tag else []) ++ rest.source

/-- The same part with all its end tags. -/
def explicit : {m : ContentModel} → Content m → Content m
  | _, nil => nil
  | _, text cs plain rest => text cs plain rest.explicit
  | _, element e _ held rest => element e true held.explicit rest.explicit

def trees : {m : ContentModel} → Content m → List Tree
  | _, nil => []
  | _, text _ _ rest => rest.trees
  | _, element e _ held rest => e.tree held.trees :: rest.trees

@[simp] theorem trees_explicit {m : ContentModel} (c : Content m) : c.explicit.trees = c.trees := by
  induction c with
  | nil => rfl
  | text cs plain rest ih => exact ih
  | element e ended held rest ihh ihr => rw [explicit, trees, trees, ihh, ihr]

theorem exists_tag {m : ContentModel} (c : Content m) :
    ∀ t ∈ c.trees, ∃ e : Element, e.outside = m ∧ t.tag = e.tag := by
  induction c with
  | nil => simp [trees]
  | text cs plain rest ih => exact ih
  | element e ended held rest _ ih => exact List.forall_mem_cons.mpr ⟨⟨e, rfl, rfl⟩, ih⟩

end Content

end MarkupNesting.Html
