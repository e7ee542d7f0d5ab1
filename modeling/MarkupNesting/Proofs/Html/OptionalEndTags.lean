import MarkupNesting.Proofs.Html.ListsAndTables

/-! End tags that are left out. An element whose end tag is missing stays open above those that its
parent holds, until a start tag that it may not hold or the end tag of an element around it ends it;
what it has held by then is what it would have held with its end tag. -/

namespace MarkupNesting.Html

open Reader Reader.State MarkupNesting.Tree

namespace ContentModel

def holders : ContentModel → List String
  | flow => ["li", "td"]
  | items => ["ul"]
  | rows => ["table"]
  | cells => ["tr"]

/-- The elements that may still be open after content of a kind, though they are part of it. -/
def loose : ContentModel → List String
  | flow => []
  | items => ["li"]
  | rows => ["td", "tr"]
  | cells => ["td"]

end ContentModel

namespace Element

variable (e : Element)

theorem isWord_tag : IsWord e.tag := by cases e <;> decide

theorem isKnown_tag : isKnown e.tag = true := by cases e <;> decide

theorem not_raw : rawNames.lookup e.tag = none := by cases e <;> decide

theorem tag_mem_holders : e.tag ∈ e.inside.holders := by cases e <;> decide

theorem holder_stays : ∀ n ∈ e.outside.holders, (isVoid n || !mayHold n e.tag) = false := by
  cases e <;> decide

/-- The start tag of an element ends all that may still be open. -/
theorem loose_ends : ∀ n ∈ e.outside.loose, (isVoid n || !mayHold n e.tag) = true := by
  cases e <;> decide

theorem loose_ne_tag : ∀ n ∈ e.inside.loose, n ≠ e.tag := by cases e <;> decide

/-- Without its end tag an element stays open, with all that is still open in it. -/
theorem loose_of_endOptional (h : e.endOptional = true) :
    ∀ n ∈ e.tag :: e.inside.loose, n ∈ e.outside.loose := by
  cases e with
  | list | table => cases h
  | item | row | cell => decide

end Element

namespace Reader

/-- What elements that are still open come to when they end, after nodes in the innermost of them;
the nodes alone if no element is open. -/
def settle : List Frame → List Node → List Node
  | [], ns => ns
  | f :: fs, ns => settle fs [{ f with children := ns.reverse ++ f.children }.node]

theorem settle_append (fs gs : List Frame) (ns : List Node) :
    settle (fs ++ gs) ns = settle gs (settle fs ns) := by
  induction fs generalizing ns with
  | nil => rfl
  | cons f fs ih => exact ih _

namespace State

variable (s : State)

def under (fs : List Frame) : State := { s with frames := fs ++ s.frames }

theorem hold_under_cons (f : Frame) (fs : List Frame) (ns : List Node) :
    (s.under (f :: fs)).hold ns =
      s.under ({ f with children := ns.reverse ++ f.children } :: fs) :=
  hold_nested s.mode f (fs ++ s.frames) s.outer ns

theorem closeFrames_addTo (p : String → Bool) (n : Node) (fs : List Frame) (outer : List Node) :
    closeFrames p [n] fs outer =
      closeFrames p [] (addTo n fs outer).1 (addTo n fs outer).2 := by
  cases fs <;> rfl

theorem closeWhile_cons {p : String → Bool} {f : Frame} (hf : p f.name = true) (fs : List Frame) :
    (s.under (f :: fs)).closeWhile p = ((s.under fs).hold [f.node]).closeWhile p := by
  have h := closeFrames_addTo p f.node (fs ++ s.frames) s.outer
  simp [closeWhile, under, closeFrames, hf, h, hold, add]

/-- Open elements that pass a test end, up to the first that does not. -/
theorem closeWhile_under {p : String → Bool} (hs : ∀ n ∈ s.names.head?, p n = false)
    {fs : List Frame} (hf : ∀ f ∈ fs, p f.name = true) (ns : List Node) :
    ((s.under fs).hold ns).closeWhile p = s.hold (settle fs ns) := by
  induction fs generalizing ns with
  | nil => exact closeWhile_eq_self (s.hold ns) (by rwa [names_hold])
  | cons f fs ih =>
    let g : Frame := { f with children := ns.reverse ++ f.children }
    have hg : p g.name = true := hf f (by simp)
    rw [hold_under_cons, closeWhile_cons s hg, ih fun x hx => hf x (by simp [hx])]
    rfl

/-- An end tag ends the elements inside the one it names, whatever they are. -/
theorem endFrames_append {f : Frame} {fs : List Frame} (hf : ∀ g ∈ fs, g.name ≠ f.name)
    (gs : List Frame) (outer ns : List Node) :
    endFrames f.name ns.reverse (fs ++ f :: gs) outer =
      some (addTo { f with children := (settle fs ns).reverse ++ f.children }.node gs outer) := by
  induction fs generalizing ns with
  | nil => simp [endFrames, settle]
  | cons g fs ih =>
    let h : Frame := { g with children := ns.reverse ++ g.children }
    have hne : h.name ≠ f.name := hf g (by simp)
    have hany : (h :: (fs ++ f :: gs)).any (fun x => familyOf x.name == familyOf f.name) = true :=
      List.any_eq_true.mpr ⟨f, by simp, by simp⟩
    have hi := ih (fun x hx => hf x (by simp [hx])) [h.node]
    rw [List.cons_append, endFrames, if_neg hne, if_pos hany]
    exact hi

theorem closeElement_under {f : Frame} {fs : List Frame} (hf : ∀ g ∈ fs, g.name ≠ f.name)
    (ns : List Node) :
    (((s.enter f).under fs).hold ns).closeElement f.name =
      (s.add { f with children := (settle fs ns).reverse ++ f.children }.node).moveTo .content := by
  cases fs with
  | nil => exact s.closeElement_enter f ns
  | cons g fs =>
    have h : endFrames f.name [] ({ g with children := ns.reverse ++ g.children } :: fs ++ f :: s.frames)
        s.outer = _ := endFrames_append hf s.frames s.outer ns
    rw [hold_under_cons, closeElement, enter, under, h]
    rfl

end State

end Reader

theorem shapes_rows {ns : List Node} (h : ∀ n ∈ ns, n.isElement = true → n.tag = "tr") (d : Nat)
    (rows : List Tree) :
    shapes true d rows ns =
      rowsShape (d + 1) (rows ++ (ns.filter Node.isElement).map (shape (d + 2))) := by
  induction ns generalizing rows with
  | nil => simp [shapes]
  | cons n ns ih =>
    have hi := ih fun x hx => h x (by simp [hx])
    by_cases he : n.isElement = true
    · simp [shapes, he, h n (by simp) he, hi]
    · simp [shapes, he, hi]

theorem leveledAll_grouped_table (d : Nat) (ts : List Tree) :
    leveledAll d (Element.table.grouped ts) = rowsShape d (leveledAll (d + 1) ts) := by
  cases ts <;> rfl

theorem shape_element (e : Element) {ns : List Node} {ts : List Tree} (h : Holds ns ts)
    (hts : ∀ t ∈ ts, ∃ i : Element, i.outside = e.inside ∧ t.tag = i.tag) (d : Nat) :
    shape d (elementNode e.tag none ns) = (e.tree ts).leveled d := by
  cases e with
  | list | item | row | cell => exact shape_elementNode (by decide) (by decide) (by simp [Writable]) h d
  | table =>
    have hrows : ∀ n ∈ ns, n.isElement = true → n.tag = "tr" := by
      refine h.tags (p := (· = "tr")) fun t ht => ?_
      obtain ⟨i, hi, hti⟩ := hts t ht
      cases i with
      | row => exact hti
      | list | item | table | cell => cases hi
    have hc : shapes true d [] (elementNode "table" none ns).children =
        leveledAll (d + 1) (Element.table.grouped ts) := by
      rw [leveledAll_grouped_table, ← h.shapes]
      exact shapes_rows hrows d []
    have hw : Writable none := by simp [Writable]
    have htag : (elementNode "table" none ns).tag = "table" := elementNode_tag (by decide) none ns
    rw [Element.tag, shape_mk, htag, elementNode_attributes hw, decide_eq_true rfl, hc]
    rfl

theorem heightBelow_le_grouped (e : Element) (ts : List Tree) :
    heightBelow ts ≤ heightBelow (e.grouped ts) := by
  cases e with
  | list | item | row | cell => exact Nat.le_refl _
  | table =>
    cases ts with
    | nil => exact Nat.le_refl _
    | cons t ts =>
      simp only [Element.grouped, heightBelow, height]
      omega

namespace Reader

open State

/-- What a state has come to when the trees of a part have been read and nothing of it is left but
elements whose end tags are missing, with the text in the innermost of them. -/
inductive HasRead (m : ContentModel) (s : State) (ts : List Tree) : State → Prop
  | intro {ns : List Node} {fs : List Frame} {mode : Mode} (hm : mode.IsBetween)
      (hf : ∀ f ∈ fs, f.name ∈ m.loose) (h : Holds (ns ++ settle fs mode.pending) ts) :
      HasRead m s ts (((s.hold ns).under fs).moveTo mode)

theorem nil_of_flow {fs : List Frame} (h : ∀ f ∈ fs, f.name ∈ ContentModel.flow.loose) : fs = [] := by
  simpa [ContentModel.loose, List.eq_nil_iff_forall_not_mem] using h

namespace HasRead

variable {m : ContentModel} {e : Element} {s r : State} {ts : List Tree}

theorem start (m : ContentModel) (s : State) : HasRead m s [] (s.moveTo .content) := by
  have hm : Mode.content.IsBetween := trivial
  have h : Holds ([] ++ settle [] Mode.content.pending) [] := .text (by simp [settle, Mode.pending])
  exact intro hm (by simp) h

theorem after {ns : List Node} {us : List Tree} (hn : Holds ns us) (h : HasRead m (s.hold ns) ts r) :
    HasRead m s (us ++ ts) r := by
  obtain ⟨hm, hf, hh⟩ := h
  rw [← hold_append]
  refine .intro hm hf ?_
  rw [List.append_assoc]
  exact hn.append hh

theorem text (h : HasRead .flow s ts r) {cs : List Char} (hc : IsPlainText cs) :
    HasRead .flow s ts (r.read cs) := by
  obtain @⟨ns, fs, mode, hm, hf, hh⟩ := h
  obtain rfl := nil_of_flow hf
  obtain ⟨n, hn, hr⟩ := (s.hold ns).read_text hm hc
  have hns : Holds ns ts := (holds_append_text (pending_kind mode)).mp hh
  have hr' : (((s.hold ns).under []).moveTo mode).read cs = ((s.hold ns).under []).moveTo n := hr
  rw [hr']
  exact .intro hn hf ((holds_append_text (pending_kind n)).mpr hns)

theorem startTag (h : HasRead e.outside s ts r) (hs : ∀ n ∈ s.names.head?, n ∈ e.outside.holders)
    (hk : ∀ n ∈ s.names, isKnown n = true) (hl : s.names.length < 1019) :
    ∃ ns, Holds ns ts ∧
      r.read (startTagText e.tag none) = (s.hold ns).enter (frameOf e.tag none) := by
  obtain @⟨ns, fs, mode, hm, hf, hh⟩ := h
  let t : State := s.hold (ns ++ settle fs mode.pending)
  have hw : Writable none := by simp [Writable]
  obtain ⟨n, hr⟩ := ((s.hold ns).under fs).read_startTagText hm e.isWord_tag hw
  have hclose := (s.hold ns).closeWhile_under (p := fun top => isVoid top || !mayHold top e.tag)
    (fun x hx => e.holder_stays x (hs x (by simpa using hx)))
    (fun f hx => e.loose_ends f.name (hf f hx)) mode.pending
  have hroom : ((((s.hold ns).under fs).hold mode.pending).moveTo n).makeRoom e.tag = t.moveTo n := by
    refine (congrArg (State.moveTo · n) hclose).trans ?_
    rw [← hold_append]
  refine ⟨ns ++ settle fs mode.pending, hh, ?_⟩
  rw [hr, openElement_eq _ e.isWord_tag e.not_raw, hroom]
  · rfl
  · rw [hroom]
    exact (t.moveTo n).hasRoom_known (by simpa [t] using hk) e.isKnown_tag (by simpa [t] using hl)

theorem within (h : HasRead e.inside (s.enter (frameOf e.tag none)) ts r)
    (hts : ∀ t ∈ ts, ∃ i : Element, i.outside = e.inside ∧ t.tag = i.tag) :
    ∃ (f : Frame) (fs : List Frame) (mode : Mode), mode.IsBetween ∧ f.name = e.tag ∧
      (∀ g ∈ fs, g.name ∈ e.inside.loose) ∧ r = ((s.enter f).under fs).moveTo mode ∧
      Holds (settle (fs ++ [f]) mode.pending) [e.tree ts] := by
  obtain @⟨ns, fs, mode, hm, hf, hh⟩ := h
  refine ⟨{ frameOf e.tag none with children := ns.reverse }, fs, mode, hm, rfl, hf, ?_, ?_⟩
  · rw [enter, hold_nested]
    simp [frameOf, enter]
  · have hnode := Holds.singleton (n := elementNode e.tag none (ns ++ settle fs mode.pending)) rfl
      (shape_element e hh hts)
    rw [settle_append]
    simpa [settle, Frame.node, frameOf, elementNode] using hnode

theorem endTag (h : HasRead e.inside (s.enter (frameOf e.tag none)) ts r)
    (hts : ∀ t ∈ ts, ∃ i : Element, i.outside = e.inside ∧ t.tag = i.tag) :
    HasRead e.outside s [e.tree ts] (r.read (endTagText e.tag)) := by
  obtain ⟨f, fs, mode, hm, hname, hf, rfl, hh⟩ := h.within hts
  have hne : ∀ g ∈ fs, g.name ≠ f.name := fun g hg => hname ▸ e.loose_ne_tag g.name (hf g hg)
  have hclose := s.closeElement_under hne mode.pending
  rw [read_endTagText _ hm e.isWord_tag, ← hname, hclose]
  rw [settle_append] at hh
  exact after hh (start e.outside _)

theorem noEndTag (he : e.endOptional = true)
    (h : HasRead e.inside (s.enter (frameOf e.tag none)) ts r)
    (hts : ∀ t ∈ ts, ∃ i : Element, i.outside = e.inside ∧ t.tag = i.tag) :
    HasRead e.outside s [e.tree ts] r := by
  obtain ⟨f, fs, mode, hm, hname, hf, rfl, hh⟩ := h.within hts
  have hloose := e.loose_of_endOptional he
  have hf' : ∀ g ∈ fs ++ [f], g.name ∈ e.outside.loose := by
    intro g hg
    rcases List.mem_append.mp hg with hg | hg
    · exact hloose g.name (by simp [hf g hg])
    · exact hloose g.name (by simp [List.mem_singleton.mp hg, hname])
  have hopen : ((s.enter f).under fs).moveTo mode = ((s.hold []).under (fs ++ [f])).moveTo mode := by
    simp [hold, enter, under, moveTo]
  rw [hopen]
  exact .intro hm hf' hh

/-- Reading a part adds its trees to those that have been read. The open elements may be any that
are known, as long as the innermost may hold the part and all that are opened can be kept. -/
theorem content {m : ContentModel} (c : Content m) {s r : State} {ts : List Tree}
    (h : HasRead m s ts r) (hs : ∀ n ∈ s.names.head?, n ∈ m.holders)
    (hk : ∀ n ∈ s.names, isKnown n = true) (hl : s.names.length + heightBelow c.trees < 1019) :
    HasRead m s (ts ++ c.trees) (r.read c.source) := by
  induction c generalizing s r ts with
  | nil => simpa [Content.trees, Content.source] using h
  | text cs plain rest ih =>
    have hr := ih (h.text plain) hs hk hl
    rwa [Content.source, read_append]
  | element e ended held rest ihh ihr =>
    have hb : heightBelow (Content.element e ended held rest).trees =
      max (heightBelow (e.grouped held.trees) + 1) (heightBelow rest.trees) := rfl
    have hg := heightBelow_le_grouped e held.trees
    obtain ⟨ns, hns, h1⟩ := h.startTag hs hk (by omega)
    -- what the element holds is read with one more element open
    let t : State := s.hold ns
    let u : State := t.enter (frameOf e.tag none)
    have hnames : u.names = e.tag :: s.names := by simp [u, t, frameOf]
    have h2 : HasRead e.inside u held.trees (u.read held.source) := by
      refine ihh (start e.inside u) ?_ ?_ ?_
      · simpa [hnames] using e.tag_mem_holders
      · rw [hnames]
        exact List.forall_mem_cons.mpr ⟨e.isKnown_tag, hk⟩
      · rw [hnames, List.length_cons]
        omega
    -- whether the element has ended or not, the rest finds its tree among those that have been read
    let tail : List Char := if ended || !e.endOptional then endTagText e.tag else []
    have h3 : HasRead e.outside t [e.tree held.trees] ((u.read held.source).read tail) := by
      by_cases he : (ended || !e.endOptional) = true
      · rw [show tail = endTagText e.tag from if_pos he]
        exact h2.endTag held.exists_tag
      · rw [show tail = [] from if_neg he]
        exact h2.noEndTag (by simp_all) held.exists_tag
    have h4 := ihr h3 (by simpa [t] using hs) (by simpa [t] using hk)
      (by simp only [t, names_hold]; omega)
    rw [Content.source, Content.trees, read_append, read_append, read_append, h1]
    exact after hns h4

end HasRead

end Reader

theorem parse_content {c : Content .flow} {t : Tree} (hc : c.trees = [t])
    (ht : t.height ≤ nestingLimit) :
    parse (String.ofList c.source) = .ok ((t.leveled 0).named 0) := by
  have hlimit : nestingLimit < 1000 := by decide
  have hb : heightBelow c.trees = t.height + 1 := by simp [hc, heightBelow]
  have hr := (HasRead.start .flow State.start).content c (by simp [State.names, State.start])
    (by simp [State.names, State.start]) (by simp [State.names, State.start, hb]; omega)
  generalize hs : (State.start.moveTo .content).read c.source = r at hr
  obtain @⟨ns, fs, mode, hm, hf, hh⟩ := hr
  obtain rfl := nil_of_flow hf
  have hd : readDocument (String.ofList c.source) = some (.branch .document (ns ++ mode.pending)) := by
    have hfin := finish_hold hm ns
    rw [← hfin, readDocument, String.toList_ofList]
    exact congrArg State.finish hs
  have htag : IsBodyTag t.tag := by
    obtain ⟨e, he, htag⟩ := c.exists_tag t (by simp [hc])
    rw [htag]
    cases e with
    | list | table => decide
    | item | row | cell => cases he
  rw [hc] at hh
  obtain ⟨document, hp, hshape⟩ := parse_holds hh (by simpa using htag) hd
  obtain ⟨n, hr, hn⟩ := List.map_eq_singleton_iff.mp (hshape 0)
  have hdeep : (t.leveled 0).deepest ≤ nestingLimit := by
    rw [deepest_leveled]
    omega
  rw [hp, treeOf_single hr, elementTree_eq_give, Builder.run'_give, hn, if_pos hdeep]

/-- The end tags of items, rows and cells may be left out, each on its own: a document that holds a
single list or table gives the same tree as with all its end tags. -/
theorem parse_optional_end_tags {c : Content .flow} {t : Tree} (hc : c.trees = [t])
    (ht : t.height ≤ nestingLimit) :
    parse (String.ofList c.source) = parse (String.ofList c.explicit.source) ∧
      parse (String.ofList c.explicit.source) = .ok ((t.leveled 0).named 0) := by
  have h := parse_content (c := c.explicit) (by rw [Content.trees_explicit, hc]) ht
  exact ⟨(parse_content hc ht).trans h.symm, h⟩

/-- A table in an item, and a list in its last cell: the second row ends a cell and a row, and so
does the end of the table. -/
theorem parse_optional_end_tags_nested :
    let inner : Content .flow := .element .list true (.element .item false .nil .nil) .nil
    let cells : Content .cells :=
      .element .cell true (.text ['b'] (by decide) .nil) (.element .cell false .nil .nil)
    let rows : Content .rows :=
      .element .row false cells (.element .row false (.element .cell false inner .nil) .nil)
    let items : Content .items :=
      .element .item false (.text ['a'] (by decide) (.element .table true rows .nil))
        (.element .item false (.text ['c'] (by decide) .nil) .nil)
    let c : Content .flow := .element .list true items .nil
    let t : Tree := Element.list.tree items.trees
    c.source = "<ul><li>a<table><tr><td>b</td><td><tr><td><ul><li></ul></table><li>c</ul>".toList ∧
      c.explicit.source = ("<ul><li>a<table><tr><td>b</td><td></td></tr><tr><td><ul><li></li></ul>" ++
        "</td></tr></table></li><li>c</li></ul>").toList ∧
      c.trees = [t] ∧ t.height ≤ nestingLimit ∧
      parse (String.ofList c.source) = parse (String.ofList c.explicit.source) ∧
      parse (String.ofList c.explicit.source) = .ok ((t.leveled 0).named 0) := by
  intro inner cells rows items c t
  have ht : t.height ≤ nestingLimit := by decide
  exact ⟨by decide +kernel, by decide +kernel, rfl, ht, parse_optional_end_tags rfl ht⟩

end MarkupNesting.Html
