import MarkupNesting.Proofs.AttributeMaps
import MarkupNesting.Proofs.Html.OpenTag
import MarkupNesting.Proofs.WholeTree

/-! Which of several attributes of one name counts: the first. The map of an element has, under
every name in its opening tag, the value of the first attribute of that name, so the tree of a
document stays the same when attributes of other names change places and when one is given again. -/

namespace MarkupNesting.Html

open MarkupNesting.Tree

namespace Node

def partValue? (part : Node) : Option String :=
  match part.kind with
  | .attributeValue => some (decodeReferences part.text)
  | .quotedValue =>
    some (((part.children.find? (·.kind = .attributeValue)).map
      fun v => decodeReferences v.text).getD "")
  | _ => none

/-- The name of an attribute, in lower case. Of several names the last counts. -/
def name? (entry : Node) : Option String :=
  (entry.children.filter (·.kind = .attributeName)).getLast?.map fun part => lower part.text

/-- The value of an attribute; empty if it has none or if its quotes hold nothing. -/
def value (entry : Node) : String := (entry.children.filterMap partValue?).getLast?.getD ""

def entriesOf (children : List Node) : List Node := children.filter (·.kind = .attributeEntry)

def entries (n : Node) : List Node := n.openTag.elim [] fun tag => entriesOf tag.children

theorem foldl_addPart (parts : List Node) :
    parts.foldl addPart (none, "") =
      ((parts.filter (·.kind = .attributeName)).getLast?.map fun part => lower part.text,
        (parts.filterMap partValue?).getLast?.getD "") := by
  induction parts using List.reverseRecOn with
  | nil => rfl
  | append_singleton parts part ih =>
    rw [List.foldl_append, ih]
    cases hk : part.kind with
    | quotedValue =>
      cases hf : part.children.find? (·.kind = .attributeValue) <;> simp [addPart, partValue?, hk, hf]
    | _ => simp [addPart, partValue?, hk]

theorem namedValue_eq (entry : Node) : entry.namedValue = entry.name?.map fun k => (k, entry.value) := by
  rw [namedValue, foldl_addPart]
  rfl

theorem namedValues_eq (n : Node) :
    n.namedValues = n.entries.filterMap fun e => e.name?.map fun k => (k, e.value) := by
  rw [namedValues, entries, funext namedValue_eq]
  cases n.openTag <;> rfl

theorem lookup_namedValues (n : Node) (k : String) :
    n.namedValues.lookup k = (n.entries.find? (·.name? = some k)).map value := by
  rw [namedValues_eq]
  induction n.entries with
  | nil => rfl
  | cons e es ih =>
    cases hn : e.name? with
    | none => simp [hn, ih]
    | some name =>
      rw [List.filterMap_cons, hn, Option.map_some, Attributes.lookup_cons_eq, ih]
      by_cases hk : k = name
      · simp [hn, hk]
      · simp [hn, hk, Ne.symm hk]

theorem get?_attributes {n : Node} {a : Attributes} (h : n.attributes = some a) (k : String) :
    a.get? k = (n.entries.find? (·.name? = some k)).map value := by
  rw [attributes] at h
  split at h
  · cases h
  · rw [← Option.some.inj h, Attributes.get?_ofFirst, lookup_namedValues]

theorem mem_names_attributes {n : Node} {a : Attributes} (h : n.attributes = some a) (k : String) :
    k ∈ a.names ↔ ∃ e ∈ n.entries, e.name? = some k := by
  simp [Attributes.mem_names_iff, get?_attributes h]

/-- Of the attributes of an element nothing counts but the first one of every name. -/
theorem attributes_congr {m n : Node}
    (h : ∀ k, n.entries.find? (·.name? = some k) = m.entries.find? (·.name? = some k)) :
    n.attributes = m.attributes := by
  have he : Attributes.ofFirst n.namedValues = Attributes.ofFirst m.namedValues := by
    refine Attributes.ext_get? fun k => ?_
    rw [Attributes.get?_ofFirst, Attributes.get?_ofFirst, lookup_namedValues, lookup_namedValues, h]
  rw [attributes, attributes, he]

/-- Attributes in another order, in which those of one name keep theirs, and with others added after
an attribute of their name. -/
inductive Rearranged : List Node → List Node → Prop
  | reordered {es fs : List Node} : es.Perm fs →
      (∀ k, fs.filter (·.name? = some k) = es.filter (·.name? = some k)) → Rearranged es fs
  | added {before after : List Node} {first later : Node} : first ∈ before →
      later.name? = first.name? → Rearranged (before ++ after) (before ++ later :: after)
  | trans {es fs gs : List Node} : Rearranged es fs → Rearranged fs gs → Rearranged es gs

/-- The first attribute of every name is still the same. -/
theorem Rearranged.find?_eq {es fs : List Node} (h : Rearranged es fs) (k : String) :
    fs.find? (·.name? = some k) = es.find? (·.name? = some k) := by
  induction h with
  | reordered _ hk => rw [← List.head?_filter, hk, List.head?_filter]
  | @added before after first later hmem hname =>
    rw [List.find?_append, List.find?_append, List.find?_cons, hname]
    by_cases hk : first.name? = some k
    · have hb : (before.find? (·.name? = some k)).isSome = true := by
        rw [List.find?_isSome]
        exact ⟨first, hmem, by simp [hk]⟩
      rw [Option.or_of_isSome hb, Option.or_of_isSome hb]
    · simp [hk]
  | trans _ _ ih1 ih2 => exact ih2.trans ih1

def opens (n : Node) : Bool := n.kind = .startTag || n.kind = .selfClosingTag

mutual

/-- Two nodes that differ in nothing but opening tags, where the attributes may be rearranged. What
comes first in a tag, its name, is the same; errors in it are not looked at. -/
inductive Respelled : Node → Node → Prop
  | tag {m n : Node} : m.opens = true → n.kind = m.kind → n.children.head? = m.children.head? →
      Rearranged (entriesOf m.children) (entriesOf n.children) → Respelled m n
  | other {m n : Node} : m.opens = false → n.kind = m.kind → n.text = m.text →
      RespelledAll m.children n.children → Respelled m n

inductive RespelledAll : List Node → List Node → Prop
  | nil : RespelledAll [] []
  | cons {m n : Node} {ms ns : List Node} : Respelled m n → RespelledAll ms ns →
      RespelledAll (m :: ms) (n :: ns)

end

theorem Respelled.kind_eq {m n : Node} : Respelled m n → n.kind = m.kind
  | .tag _ hkind _ _ => hkind
  | .other _ hkind _ _ => hkind

theorem isElement_respelled {m n : Node} (h : Respelled m n) : n.isElement = m.isElement := by
  simp only [isElement, h.kind_eq]

theorem Respelled.children {m n : Node} (h : Respelled m n) (hm : m.opens = false) :
    n.text = m.text ∧ RespelledAll m.children n.children := by
  cases h with
  | tag ho _ _ _ => exact absurd (ho.symm.trans hm) (by decide)
  | other _ _ htext hall => exact ⟨htext, hall⟩

theorem find?_respelled : {ms ns : List Node} → RespelledAll ms ns →
    Option.Rel Respelled (ms.find? opens) (ns.find? opens)
  | _, _, .nil => .none
  | m :: ms, n :: ns, .cons h hs => by
    have hn : n.opens = m.opens := by simp only [opens, h.kind_eq]
    rw [List.find?_cons, List.find?_cons, hn]
    cases m.opens with
    | true => exact .some h
    | false => exact find?_respelled hs

theorem openTag_respelled {m n : Node} (h : RespelledAll m.children n.children) :
    (m.openTag = none ∧ n.openTag = none) ∨
      ∃ t u, m.openTag = some t ∧ n.openTag = some u ∧ u.children.head? = t.children.head? ∧
        Rearranged (entriesOf t.children) (entriesOf u.children) := by
  have hrel : Option.Rel Respelled m.openTag n.openTag := find?_respelled h
  have hopens {t : Node} (ht : m.openTag = some t) : t.opens = true := List.find?_some ht
  generalize m.openTag = o at hrel hopens
  generalize n.openTag = p at hrel
  cases hrel with
  | none => exact .inl ⟨rfl, rfl⟩
  | @some t u htu =>
    cases htu with
    | tag _ _ hhead hentries => exact .inr ⟨t, u, rfl, rfl, hhead, hentries⟩
    | other hno _ _ _ => exact absurd ((hopens rfl).symm.trans hno) (by decide)

theorem tag_respelled {m n : Node} (h : RespelledAll m.children n.children) : n.tag = m.tag := by
  rw [tag, tag]
  obtain ⟨hm, hn⟩ | ⟨t, u, hm, hn, hhead, -⟩ := openTag_respelled h
  · rw [hm, hn]
  · simp only [hm, hn, Option.bind_some, hhead]

theorem attributes_respelled {m n : Node} (h : RespelledAll m.children n.children) :
    n.attributes = m.attributes := by
  refine attributes_congr fun k => ?_
  rw [entries, entries]
  obtain ⟨hm, hn⟩ | ⟨t, u, hm, hn, -, hentries⟩ := openTag_respelled h
  · rw [hm, hn]
  · rw [hm, hn]
    exact hentries.find?_eq k

theorem opens_of_isElement {n : Node} (h : n.isElement = true) : n.opens = false := by
  simp only [isElement, Bool.or_eq_true, decide_eq_true_eq] at h
  rcases h with (h | h) | h <;> simp [opens, h]

end Node

open Node

mutual

theorem shape_respelled (depth : Nat) : (m n : Node) → RespelledAll m.children n.children →
    shape depth n = shape depth m
  | ⟨kind, text, ms⟩, ⟨kind', text', ns⟩, h => by
    have hs := shapes_respelled ((⟨kind, text, ms⟩ : Node).tag = "table") depth [] ms ns h
    rw [shape_mk, shape_mk, tag_respelled h, attributes_respelled h, hs]

theorem shapes_respelled (table : Bool) (depth : Nat) (rows : List Tree) : (ms ns : List Node) →
    RespelledAll ms ns → shapes table depth rows ns = shapes table depth rows ms
  | [], _, .nil => rfl
  | m :: ms, n :: ns, .cons h hs => by
    have hrest (rows : List Tree) := shapes_respelled table depth rows ms ns hs
    rw [shapes, shapes, isElement_respelled h]
    by_cases he : m.isElement = true
    · have hall := (h.children (opens_of_isElement he)).2
      have h1 := shape_respelled (depth + 1) m n hall
      have h2 := shape_respelled (depth + 2) m n hall
      simp only [tag_respelled hall, h1, h2, hrest]
    · simp only [he, hrest, Bool.not_false, ↓reduceIte]

end

/-- All that the tree of a body needs to know of an item. -/
def Item.view (i : Item) : Bool × Option (Nat → Tree) :=
  (i.isMetadata, i.element?.map fun n depth => shape depth n)

mutual

theorem view_respelled : (m n : Node) → Respelled m n → (items n).map Item.view = (items m).map Item.view
  | ⟨kind, text, ms⟩, ⟨kind', text', ns⟩, h => by
    obtain rfl : kind' = kind := h.kind_eq
    by_cases ho : (⟨kind', text, ms⟩ : Node).opens = true
    · have hitems {text : String} {cs : List Node} : items ⟨kind', text, cs⟩ = [] := by
        simp only [opens, Bool.or_eq_true, decide_eq_true_eq] at ho
        rcases ho with rfl | rfl <;> simp [items, isElement]
      rw [hitems, hitems]
    · obtain ⟨htext, hall⟩ := h.children (Bool.not_eq_true _ ▸ ho)
      obtain rfl : text' = text := htext
      have hs := views_respelled ms ns hall
      by_cases he : (⟨kind', text', ms⟩ : Node).isElement = true
      · have hshape (depth : Nat) := shape_respelled depth ⟨kind', text', ms⟩ ⟨kind', text', ns⟩ hall
        have hview : Item.view (.element ⟨kind', text', ns⟩) =
            Item.view (.element ⟨kind', text', ms⟩) := by
          simp only [Item.view, Item.isMetadata, Item.element?, tag_respelled hall,
            Option.map_some, hshape]
        rw [items_element he, items_element (n := ⟨kind', text', ns⟩) he, tag_respelled hall]
        split
        · exact hs
        · split
          · simp only [List.map_cons, hs]
          · simp only [List.map_cons, List.map_nil, hview]
      · cases kind' with
        | error => exact hs
        | element | scriptElement | styleElement => exact absurd rfl he
        | _ => rfl

theorem views_respelled : (ms ns : List Node) → RespelledAll ms ns →
    (itemsAll ns).map Item.view = (itemsAll ms).map Item.view
  | [], _, .nil => rfl
  | m :: ms, n :: ns, .cons h hs => by
    rw [itemsAll, itemsAll, List.map_append, List.map_append, view_respelled m n h,
      views_respelled ms ns hs]

end

theorem map_remaining (document : Node) :
    (remaining document).map (fun n depth => shape depth n) =
      (((itemsAll document.children).map Item.view).dropWhile (·.1)).filterMap (·.2) := by
  rw [remaining, List.dropWhile_map, List.filterMap_map, List.map_filterMap]
  rfl

theorem treeOf_congr {d e : Node}
    (h : (remaining e).map (fun n depth => shape depth n) =
      (remaining d).map fun n depth => shape depth n) : treeOf e = treeOf d := by
  have hlength : (remaining e).length = (remaining d).length := by
    simpa using congrArg List.length h
  have hmap (depth : Nat) : (remaining e).map (shape depth) = (remaining d).map (shape depth) := by
    have hd := congrArg (List.map fun s : Nat → Tree => s depth) h
    rwa [List.map_map, List.map_map] at hd
  match hr : remaining d with
  | [] =>
    rw [hr, List.length_nil, List.length_eq_zero_iff] at hlength
    rw [treeOf_none hr, treeOf_none hlength]
  | [m] =>
    rw [hr, List.length_singleton, List.length_eq_one_iff] at hlength
    obtain ⟨n, hn⟩ := hlength
    have hs := hmap 0
    rw [hr, hn, List.map_singleton, List.map_singleton, List.singleton_inj] at hs
    rw [treeOf_single hr, treeOf_single hn, elementTree_eq_give, elementTree_eq_give, hs]
  | m :: n :: ms =>
    have hd : 2 ≤ (remaining d).length := by simp [hr]
    rw [treeOf_several hd, treeOf_several (hlength ▸ hd), mapM_elementTree, mapM_elementTree, hmap 1]

theorem value_eq_empty {entry : Node}
    (h : ∀ part ∈ entry.children, part.kind ≠ .attributeValue ∧
      (part.kind = .quotedValue → ∀ v ∈ part.children, v.kind ≠ .attributeValue)) :
    entry.value = "" := by
  have hpart : ∀ v ∈ entry.children.filterMap partValue?, v = "" := by
    intro v hv
    obtain ⟨part, hmem, hp⟩ := List.mem_filterMap.mp hv
    obtain ⟨hk, hquoted⟩ := h part hmem
    rw [partValue?] at hp
    split at hp
    · next hkind => exact absurd hkind hk
    · next hkind =>
      have hnone : part.children.find? (·.kind = .attributeValue) = none := by
        simpa [List.find?_eq_none] using hquoted hkind
      rw [hnone] at hp
      exact (Option.some.inj hp).symm
    · cases hp
  rw [value]
  cases hl : (entry.children.filterMap partValue?).getLast? with
  | none => rfl
  | some v => exact hpart v (List.mem_of_getLast? hl)

/-- An element has the attributes that its opening tag names, in lower case, and none without one.
Of the attributes of one name the first counts: its value, decoded, is the value of the name; it is
empty if none is written or nothing is quoted. So it changes no tree to rearrange attributes. -/
theorem first_attribute_counts :
    (∀ depth n first next t, elementTree depth n first = .ok (t, next) → t.attributes = n.attributes) ∧
      (∀ n : Node, (n.attributes = none ↔ ¬ n.HasAttribute) ∧
        ∀ a, n.attributes = some a → ∀ k,
          (k ∈ a.names ↔ ∃ entry ∈ n.entries, entry.name? = some k) ∧
          a.get? k = (n.entries.find? (·.name? = some k)).map value) ∧
      (∀ entry : Node, (∀ part ∈ entry.children, part.kind ≠ .attributeValue ∧
          (part.kind = .quotedValue → ∀ v ∈ part.children, v.kind ≠ .attributeValue)) →
        entry.value = "") ∧
      ∀ d e : Node, RespelledAll d.children e.children → treeOf e = treeOf d := by
  refine ⟨fun depth n first next t h => ?_, fun n => ⟨n.attributes_eq_none_iff, fun a ha k => ?_⟩,
    fun entry h => value_eq_empty h, fun d e h => ?_⟩
  · rw [elementTree_eq_give, Builder.give] at h
    split at h
    · rw [← (Prod.mk.inj (Except.ok.inj h)).1]
      cases n
      rfl
    · cases h
  · exact ⟨mem_names_attributes ha k, get?_attributes ha k⟩
  · have hviews := views_respelled d.children e.children h
    apply treeOf_congr
    rw [map_remaining, map_remaining, hviews]

/-- A title, with a blank attribute put in front of it and another title put after it. -/
theorem first_attribute_counts_title :
    let entry (name : String) (parts : List Node) : Node :=
      .branch .attributeEntry (.leaf .attributeName name :: parts)
    let title := entry "Title" [.branch .quotedValue [.leaf .attributeValue "a &amp; b"]]
    let hidden := entry "hidden" [.branch .quotedValue []]
    let again := entry "TITLE" [.leaf .attributeValue "c"]
    let element (entries : List Node) : Node :=
      .branch .element [.branch .startTag (.leaf .tagName "DIV" :: entries)]
    let n := element [title, hidden]
    let m := element [hidden, title, again]
    let a := Attributes.ofFirst [("title", "a & b"), ("hidden", "")]
    (elementTree 2 n 7 = .ok (⟨"node-7", "div", [], some 2, some a⟩, 8) ∧ some a = n.attributes) ∧
      (n.attributes = some a ∧
        ("title" ∈ a.names ↔ ∃ entry ∈ n.entries, entry.name? = some "title") ∧
        a.get? "title" = (n.entries.find? (·.name? = some "title")).map value ∧
        a.get? "title" = some "a & b") ∧
      hidden.value = "" ∧
      RespelledAll [n] [m] ∧ treeOf (.branch .document [m]) = treeOf (.branch .document [n]) := by
  intro entry title hidden again element n m a
  have hn : elementTree 2 n 7 = .ok (⟨"node-7", "div", [], some 2, some a⟩, 8) := by decide +kernel
  have ha : n.attributes = some a := by decide +kernel
  have htitle : a.get? "title" = some "a & b" := by decide +kernel
  have hnames : title.name? = some "title" ∧ hidden.name? = some "hidden" ∧
      again.name? = some "title" := by
    decide +kernel
  have hswap : Rearranged [title, hidden] [hidden, title] := by
    refine .reordered (.swap _ _ _) fun k => ?_
    by_cases hk : k = "title"
    · simp [hnames, hk]
    · simp [List.filter_cons, hnames, Ne.symm hk]
  have hadd : Rearranged ([hidden, title] ++ []) ([hidden, title] ++ [again]) :=
    .added (List.mem_cons_of_mem hidden List.mem_cons_self) (hnames.2.2.trans hnames.1.symm)
  have hrespelled : RespelledAll [n] [m] :=
    .cons (.other rfl rfl rfl (.cons (.tag rfl rfl rfl (hswap.trans hadd)) .nil)) .nil
  obtain ⟨hbuilt, hattributes, hempty, htree⟩ := first_attribute_counts
  obtain ⟨hkey, hvalue⟩ := (hattributes n).2 a ha "title"
  have hblank : ∀ part ∈ hidden.children, part.kind ≠ .attributeValue ∧
      (part.kind = .quotedValue → ∀ v ∈ part.children, v.kind ≠ .attributeValue) := by decide
  exact ⟨⟨hn, hbuilt _ _ _ _ _ hn⟩, ⟨ha, hkey, hvalue, htitle⟩, hempty hidden hblank, hrespelled,
    htree _ _ hrespelled⟩

end MarkupNesting.Html
