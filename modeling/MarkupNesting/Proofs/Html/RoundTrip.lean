import MarkupNesting.Html.Parse
import MarkupNesting.Proofs.AttributeMaps
import MarkupNesting.Proofs.Html.BodySelection
import MarkupNesting.Proofs.Html.Reading

/-! Documents written out in full are read back as the trees that they were written from, whatever
text stands between their tags. -/

namespace MarkupNesting.Html

open Reader Reader.State MarkupNesting.Tree

theorem elementNode_tag {tag : String} (h : IsWord tag) (attributes : Option Attributes)
    (ns : List Node) : (elementNode tag attributes ns).tag = tag :=
  lower_eq_self fun c hc => isUpper_word (h.2 c hc)

theorem addPart_quoted (name : Option String) (v : String) :
    Node.addPart (name, "") (quotedNode (escape v).reverse) = (name, v) := by
  have hv := decodeReferences_escape v
  by_cases h : escape v = []
  · rw [h] at hv ⊢
    exact congrArg (Prod.mk name) hv
  · simp [Node.addPart, quotedNode, valueNode, Node.branch, Node.leaf, ofRun, h, hv]

theorem namedValue_entryNode {e : String × String} (h : IsWord e.1) :
    (entryNode e).namedValue = some e := by
  have hname : lower e.1 = e.1 := lower_eq_self fun c hc => isUpper_word (h.2 c hc)
  have h1 : Node.addPart (none, "") (.leaf .attributeName e.1) = (some e.1, "") := by
    simp [Node.addPart, Node.leaf, hname]
  simp [Node.namedValue, entryNode, Node.branch, h1, addPart_quoted]

theorem filterMap_namedValue {es : List (String × String)} (h : ∀ e ∈ es, IsWord e.1) :
    (es.map entryNode).filterMap Node.namedValue = es := by
  induction es with
  | nil => rfl
  | cons e es ih =>
    rw [List.map_cons, List.filterMap_cons, namedValue_entryNode (h e (by simp)),
      ih fun x hx => h x (by simp [hx])]

theorem elementNode_namedValues {attributes : Option Attributes} (h : Writable attributes)
    (tag : String) (ns : List Node) :
    (elementNode tag attributes ns).namedValues = entriesOf attributes := by
  have hfilter : ((entriesOf attributes).map entryNode).filter (·.kind = .attributeEntry) =
      (entriesOf attributes).map entryNode := by
    apply List.filter_eq_self.mpr
    intro n hn
    obtain ⟨e, -, rfl⟩ := List.mem_map.mp hn
    rfl
  have hvalues : (elementNode tag attributes ns).namedValues =
      (((entriesOf attributes).map entryNode).reverse.reverse.filter
        (·.kind = .attributeEntry)).filterMap Node.namedValue := rfl
  rw [hvalues, List.reverse_reverse, hfilter, filterMap_namedValue (isWord_entriesOf h)]

theorem elementNode_attributes {attributes : Option Attributes} (h : Writable attributes)
    (tag : String) (ns : List Node) : (elementNode tag attributes ns).attributes = attributes := by
  have hvalues := elementNode_namedValues h tag ns
  cases attributes with
  | none =>
    rw [Node.attributes, hvalues]
    rfl
  | some a =>
    have ha := (h a rfl).1
    simp [Node.attributes, hvalues, entriesOf, Attributes.ofFirst_entries, ha]

/-- Nodes that some trees were read as, with texts between them. -/
structure Holds (ns : List Node) (ts : List Tree) : Prop where
  kinds : ∀ n ∈ ns, n.isElement = true ∨ n.kind = .text
  shapes : ∀ d, (ns.filter Node.isElement).map (shape d) = leveledAll d ts

theorem shape_elementNode {tag : String} (htag : IsWord tag) (htable : tag ≠ "table")
    {attributes : Option Attributes} (ha : Writable attributes) {ns : List Node}
    {children : List Tree} (h : Holds ns children) (d : Nat) :
    shape d (elementNode tag attributes ns) =
      ⟨"", tag, leveledAll (d + 1) children, some d, attributes⟩ := by
  have ht := elementNode_tag htag attributes ns
  have hattr := elementNode_attributes ha tag ns
  have hne : decide (tag = "table") = false := decide_eq_false htable
  have hc : shapes false d [] (elementNode tag attributes ns).children =
      leveledAll (d + 1) children := by
    rw [shapes_false]
    exact h.shapes (d + 1)
  rw [shape_mk, ht, hattr, hne, hc]

theorem filter_isElement_text {ns : List Node} (h : ∀ n ∈ ns, n.kind = .text) :
    ns.filter Node.isElement = [] := by
  apply List.filter_eq_nil_iff.mpr
  intro n hn
  simp [Node.isElement, h n hn]

theorem Holds.text {ns : List Node} (h : ∀ n ∈ ns, n.kind = .text) : Holds ns [] := by
  refine ⟨fun n hn => .inr (h n hn), fun d => ?_⟩
  rw [filter_isElement_text h]
  rfl

theorem Holds.append {ms ns : List Node} {ss ts : List Tree} (hm : Holds ms ss) (hn : Holds ns ts) :
    Holds (ms ++ ns) (ss ++ ts) := by
  refine ⟨fun n h => ?_, fun d => ?_⟩
  · rcases List.mem_append.mp h with h | h
    · exact hm.kinds n h
    · exact hn.kinds n h
  · have h1 := hm.shapes d
    have h2 := hn.shapes d
    simp only [leveledAll_eq_map] at h1 h2 ⊢
    simp [h1, h2]

theorem holds_append_text {ms ns : List Node} {ts : List Tree} (hn : ∀ n ∈ ns, n.kind = .text) :
    Holds (ms ++ ns) ts ↔ Holds ms ts := by
  constructor
  · intro h
    refine ⟨fun n hm => h.kinds n (by simp [hm]), fun d => ?_⟩
    rw [← h.shapes d, List.filter_append, filter_isElement_text hn, List.append_nil]
  · intro h
    have ht := h.append (.text hn)
    rwa [List.append_nil] at ht

theorem Holds.singleton {n : Node} {t : Tree} (he : n.isElement = true)
    (h : ∀ d, shape d n = t.leveled d) : Holds [n] [t] := by
  refine ⟨fun m hm => .inl (List.mem_singleton.mp hm ▸ he), fun d => ?_⟩
  simp [he, h d, leveledAll]

theorem Holds.tags {ns : List Node} {ts : List Tree} (h : Holds ns ts) {p : String → Prop}
    (hp : ∀ t ∈ ts, p t.tag) : ∀ n ∈ ns, n.isElement = true → p n.tag := by
  intro n hn he
  have hmem : shape 0 n ∈ leveledAll 0 ts := by
    rw [← h.shapes 0]
    exact List.mem_map_of_mem (List.mem_filter.mpr ⟨hn, he⟩)
  rw [leveledAll_eq_map] at hmem
  obtain ⟨t, ht, hs⟩ := List.mem_map.mp hmem
  rw [← shape_tag 0 n, ← hs, leveled_tag]
  exact hp t ht

theorem Holds.element {ps ms ns : List Node} {tag : String} {children rest : List Tree}
    {attributes : Option Attributes} (hp : ∀ n ∈ ps, n.kind = .text) (htag : tag ∈ flowTags)
    (ha : Writable attributes) (hm : Holds ms children) (hn : Holds ns rest) (id : String)
    (depth : Option Nat) :
    Holds (ps ++ elementNode tag attributes ms :: ns)
      (⟨id, tag, children, depth, attributes⟩ :: rest) := by
  have htable : tag ≠ "table" := fun e => absurd htag (by rw [e]; decide)
  have hs := shape_elementNode (isWord_of_mem_flowTags htag) htable ha hm
  have ht : Holds [elementNode tag attributes ms] [⟨id, tag, children, depth, attributes⟩] :=
    .singleton rfl hs
  exact (Holds.text hp).append (ht.append hn)

theorem pending_kind (m : Mode) : ∀ n ∈ m.pending, n.kind = .text := by
  intro n hn
  cases m with
  | text run =>
    rw [Mode.pending, List.mem_singleton] at hn
    rw [hn]
    rfl
  | _ => simp [Mode.pending] at hn

/-- Reading a written text adds nodes that hold its trees, and ends between tags. The open elements
may be any that hold others, as long as all that are opened can be kept. -/
theorem read_written {ts : List Tree} {cs : List Char} (h : Written ts cs) (s : State) {m : Mode}
    (hm : m.IsBetween) (hopen : ∀ n ∈ s.names, n ∈ flowTags)
    (hroom : s.names.length + heightBelow ts < 1019) :
    ∃ (ns : List Node) (n : Mode), Holds (ns ++ n.pending) ts ∧ n.IsBetween ∧
      (s.moveTo m).read cs = (s.hold ns).moveTo n := by
  induction h generalizing s m with
  | text ht =>
    obtain ⟨n, hn, hr⟩ := s.read_text hm ht
    exact ⟨[], n, .text (pending_kind n), hn, hr⟩
  | @element text inner after id tag children rest depth attributes ht htag ha _ _ ihc ihr =>
    have hh : heightBelow (⟨id, tag, children, depth, attributes⟩ :: rest) =
      max (heightBelow children + 1) (heightBelow rest) := rfl
    obtain ⟨n1, hn1, h1⟩ := s.read_text hm ht
    have h2 := s.read_startTag hn1 hopen htag (by omega) ha
    -- what the element holds is read with one more element open
    let t : State := s.hold n1.pending
    have hnames : (t.enter (frameOf tag attributes)).names = tag :: s.names := by simp [t, frameOf]
    obtain ⟨ms, n2, hms, hn2, h3⟩ := ihc (t.enter (frameOf tag attributes)) (m := .content) trivial
      (by rw [hnames]; exact List.forall_mem_cons.mpr ⟨htag, hopen⟩)
      (by rw [hnames, List.length_cons]; omega)
    have h4 := t.read_closing hn2 htag attributes ms
    -- and the rest as it would have been without the element
    let node := elementNode tag attributes (ms ++ n2.pending)
    have hadd : t.add node = s.hold (n1.pending ++ [node]) := (s.hold_append n1.pending [node]).symm
    obtain ⟨ns, n3, hns, hn3, h5⟩ := ihr (s.hold (n1.pending ++ [node])) (m := .content) trivial
      (by simpa using hopen) (by rw [State.names_hold]; omega)
    refine ⟨n1.pending ++ node :: ns, n3, ?_, hn3, ?_⟩
    · have hh := Holds.element (pending_kind n1) htag ha hms hns id depth
      simpa [node] using hh
    · have h3' : (t.enter (frameOf tag attributes)).read inner =
        ((t.enter (frameOf tag attributes)).hold ms).moveTo n2 := h3
      rw [State.read_append, State.read_append, State.read_append, State.read_append, h1, h2, h3', h4,
        hadd, h5, ← State.hold_append]
      simp

/-- The end of the text adds what is left of it; outside all elements nothing else is to be done. -/
theorem finish_hold {m : Mode} (hm : m.IsBetween) (ns : List Node) :
    ((State.start.hold ns).moveTo m).finish = some (.branch .document (ns ++ m.pending)) := by
  have hs : State.start.hold ns = ⟨.content, [], ns.reverse⟩ := by
    rw [State.start, State.hold_outer, List.append_nil]
  rw [hs]
  cases m with
  | content =>
    have hf : finish ((⟨.content, [], ns.reverse⟩ : State).moveTo .content) =
      some (.branch .document ns.reverse.reverse) := rfl
    simpa [Mode.pending] using hf
  | text run =>
    have hf : finish ((⟨.content, [], ns.reverse⟩ : State).moveTo (.text run)) =
      some (.branch .document ((Mode.text run).pending ++ ns.reverse).reverse) := rfl
    simpa [Mode.pending] using hf
  | _ => exact hm.elim

theorem readDocument_written {ts : List Tree} {source : String} (h : Written ts source.toList)
    (hroom : heightBelow ts < 1019) :
    ∃ ns, Holds ns ts ∧ readDocument source = some (.branch .document ns) := by
  obtain ⟨ns, m, hns, hm, hr⟩ := read_written h .start (m := .content) trivial
    (by simp [State.names, State.start])
    (by simpa [State.names, State.start] using hroom)
  refine ⟨ns ++ m.pending, hns, ?_⟩
  have hf := finish_hold hm ns
  rw [← hr] at hf
  exact hf

theorem Written.tag_mem {ts : List Tree} {cs : List Char} (h : Written ts cs) :
    ∀ t ∈ ts, t.tag ∈ flowTags := by
  induction h with
  | text => simp
  | element _ htag _ _ _ _ ihr => exact List.forall_mem_cons.mpr ⟨htag, ihr⟩

/-- A tag that is neither of a wrapper of a document nor of metadata. -/
def IsBodyTag (tag : String) : Prop :=
  (tag = "html" || tag = "head") = false ∧ tag ≠ "body" ∧ metadataTags.contains tag = false

instance (tag : String) : Decidable (IsBodyTag tag) := inferInstanceAs (Decidable (_ ∧ _))

theorem isBodyTag_flow : ∀ tag ∈ flowTags, IsBodyTag tag := by decide

theorem items_bodyTag {n : Node} (he : n.isElement = true) (ht : IsBodyTag n.tag) :
    items n = [.element n] := by
  rw [items_element he, ht.1, if_neg (by decide), if_neg ht.2.1]

theorem items_text {n : Node} (h : n.kind = .text) : items n = [] ∨ items n = [.text] := by
  obtain ⟨kind, text, children⟩ := n
  obtain rfl : kind = .text := h
  by_cases hb : isBlankText text = true
  · exact .inl (by simp [items, hb])
  · exact .inr (by simp [items, hb])

theorem itemsAll_bodyTags {ns : List Node} (hk : ∀ n ∈ ns, n.isElement = true ∨ n.kind = .text)
    (ht : ∀ n ∈ ns, n.isElement = true → IsBodyTag n.tag) :
    (∀ i ∈ itemsAll ns, i.isMetadata = false) ∧
      (itemsAll ns).filterMap Item.element? = ns.filter Node.isElement := by
  induction ns with
  | nil => exact ⟨by simp [itemsAll], rfl⟩
  | cons n ns ih =>
    obtain ⟨ih1, ih2⟩ := ih (fun x hx => hk x (by simp [hx])) fun x hx => ht x (by simp [hx])
    rw [itemsAll]
    rcases hk n (by simp) with he | hx
    · have hn := ht n (by simp) he
      rw [items_bodyTag he hn, List.singleton_append, List.filter_cons_of_pos he]
      exact ⟨List.forall_mem_cons.mpr ⟨hn.2.2, ih1⟩, congrArg (n :: ·) ih2⟩
    · have he : ¬ n.isElement = true := by simp [Node.isElement, hx]
      rw [List.filter_cons_of_neg he]
      rcases items_text hx with hi | hi <;> rw [hi]
      · exact ⟨ih1, ih2⟩
      · exact ⟨List.forall_mem_cons.mpr ⟨rfl, ih1⟩, ih2⟩

theorem dropWhile_eq_self {α : Type} {p : α → Bool} {xs : List α} (h : ∀ x ∈ xs, p x = false) :
    xs.dropWhile p = xs := by
  cases xs with
  | nil => rfl
  | cons x xs => rw [List.dropWhile_cons_of_neg (by simp [h x (by simp)])]

/-- A document without wrappers and metadata has all its elements in its body. -/
theorem remaining_holds {ns : List Node} {ts : List Tree} (h : Holds ns ts)
    (htags : ∀ t ∈ ts, IsBodyTag t.tag) :
    remaining (.branch .document ns) = ns.filter Node.isElement := by
  obtain ⟨h1, h2⟩ := itemsAll_bodyTags h.kinds (h.tags htags)
  have hd : (itemsAll ns).dropWhile Item.isMetadata = itemsAll ns := dropWhile_eq_self h1
  simp only [remaining, Node.branch, hd, h2]

theorem parse_holds {ts : List Tree} {source : String} {ns : List Node} (h : Holds ns ts)
    (htags : ∀ t ∈ ts, IsBodyTag t.tag) (hd : readDocument source = some (.branch .document ns)) :
    ∃ document, parse source = treeOf document ∧
      ∀ d, (remaining document).map (shape d) = leveledAll d ts := by
  refine ⟨.branch .document ns, ?_, fun d => ?_⟩
  · rw [parse, documentOf, hd]
  · rw [remaining_holds h htags]
    exact h.shapes d

theorem heightBelow_le {ts : List Tree} {k : Nat} (h : ∀ t ∈ ts, t.height < k) :
    heightBelow ts ≤ k := by
  induction ts with
  | nil => exact Nat.zero_le k
  | cons t ts ih =>
    have h1 := h t (by simp)
    have h2 := ih fun x hx => h x (by simp [hx])
    simp only [heightBelow]
    omega

theorem parse_eq_treeOf {ts : List Tree} {source : String} (h : Written ts source.toList)
    (hroom : heightBelow ts < 1019) :
    ∃ document, parse source = treeOf document ∧
      ∀ d, (remaining document).map (shape d) = leveledAll d ts := by
  obtain ⟨ns, hns, hd⟩ := readDocument_written h hroom
  exact parse_holds hns (fun t ht => isBodyTag_flow t.tag (h.tag_mem t ht)) hd

/-- What a document is written from is what it is read as: one tree as it is, several under a common
root, with the levels recorded and the nodes named anew. -/
theorem parse_written {ts : List Tree} {source : String} (h : Written ts source.toList) :
    (∀ t, ts = [t] → t.height ≤ nestingLimit → parse source = .ok ((t.leveled 0).named 0)) ∧
      (2 ≤ ts.length → (∀ t ∈ ts, t.height < nestingLimit) →
        parse source = .ok ⟨nameIn "node" 0, rootTag, namedAll 1 (leveledAll 1 ts), some 0, none⟩) := by
  have hlimit : nestingLimit < 1000 := by decide
  constructor
  · rintro t rfl ht
    have hroom : heightBelow [t] < 1019 := by
      simp only [heightBelow]
      omega
    obtain ⟨document, hp, hs⟩ := parse_eq_treeOf h hroom
    obtain ⟨n, hr, hn⟩ := List.map_eq_singleton_iff.mp (hs 0)
    have hd : (t.leveled 0).deepest ≤ nestingLimit := by
      rw [deepest_leveled]
      omega
    rw [hp, treeOf_single hr, elementTree_eq_give, Builder.run'_give, hn, if_pos hd]
  · intro hl ht
    have hb := heightBelow_le ht
    obtain ⟨document, hp, hs⟩ := parse_eq_treeOf h (by omega)
    have hlen : 2 ≤ (remaining document).length := by
      have he := congrArg List.length (hs 0)
      simp only [leveledAll_eq_map, List.length_map] at he
      omega
    have hd : deepestAll (leveledAll 1 ts) ≤ nestingLimit := by
      have hb0 : max 0 (deepestAll (leveledAll 1 ts)) = 0 + heightBelow ts :=
        deepestAll_leveledAll 0 ts
      omega
    rw [hp, treeOf_several hlen, mapM_elementTree, Builder.run'_giveAll, hs 1, if_pos hd]
    rfl

/-- A list that holds a link, alone and twice, with text around the tags. -/
theorem parse_written_links :
    let link : Tree := ⟨"", "a", [], none, some ⟨[("title", "1\"")], by simp⟩⟩
    let list : Tree := ⟨"", "ul", [link], none, none⟩
    let source := "x<ul>\n<a title=\"1&#34;\">y</a></ul>"
    (Written [list] source.toList ∧ list.height ≤ nestingLimit ∧
        parse source = .ok ((list.leveled 0).named 0)) ∧
      (Written [list, list] (source ++ source).toList ∧ 2 ≤ [list, list].length ∧
        (∀ t ∈ [list, list], t.height < nestingLimit) ∧
        parse (source ++ source) =
          .ok ⟨nameIn "node" 0, rootTag, namedAll 1 (leveledAll 1 [list, list]), some 0, none⟩) := by
  intro link list source
  let inner := ['\n'] ++ startTagText "a" link.attributes ++ ['y'] ++ endTagText "a" ++ []
  have hlink : Written [link] inner := by
    refine .element (by decide) (by decide) ?_ (.text (by decide)) (.text (by decide))
    intro a ha
    obtain rfl := Option.some.inj ha
    decide
  have hs : source.toList = ['x'] ++ startTagText "ul" none ++ inner ++ endTagText "ul" := by cbv
  have hlist (rest : List Tree) (after : List Char) (h : Written rest after) :
      Written (list :: rest) (source.toList ++ after) := by
    rw [hs]
    exact .element (by decide) (by decide) (by simp [Writable]) hlink h
  have h1 : Written [list] source.toList := by
    have h := hlist [] [] (.text (by decide))
    rwa [List.append_nil] at h
  have h2 : Written [list, list] (source ++ source).toList := by
    rw [String.toList_append]
    exact hlist [list] source.toList h1
  have hl : ∀ t ∈ [list, list], t.height < nestingLimit := by decide
  exact ⟨⟨h1, by decide, (parse_written h1).1 list rfl (by decide)⟩,
    h2, by decide, hl, (parse_written h2).2 (by decide) hl⟩

end MarkupNesting.Html
