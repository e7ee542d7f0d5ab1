import MarkupNesting.Html.Parse
import MarkupNesting.Proofs.Html.ElementOrder
import MarkupNesting.Proofs.Html.LoweredDocument

/-! The characters of tags. Whichever way a document is read, the name in a tag ends before the
first character that does not belong to a name, so no tag of a tree has a slash. -/

namespace MarkupNesting.Html

open MarkupNesting.Tree

theorem slash_not_isNameChar {c : Char} (h : TagScanner.isNameChar c = true) : c ≠ '/' := by
  rintro rfl
  exact absurd h (by decide)

/-- A node in which no name of a tag has a slash. -/
inductive Plain : Node → Prop where
  | mk {n : Node} (name : n.kind = .tagName → '/' ∉ n.text.toList)
      (children : ∀ c ∈ n.children, Plain c) : Plain n

theorem Plain.name {n : Node} (h : Plain n) : n.kind = .tagName → '/' ∉ n.text.toList := by
  cases h with
  | mk name _ => exact name

theorem Plain.children {n : Node} (h : Plain n) : ∀ c ∈ n.children, Plain c := by
  cases h with
  | mk _ children => exact children

theorem plain_leaf {kind : Kind} (h : kind ≠ .tagName) (text : String) : Plain (.leaf kind text) :=
  .mk (fun hk => absurd hk h) (by simp [Node.leaf])

theorem plain_branch {kind : Kind} {ns : List Node} (h : ∀ n ∈ ns, Plain n) :
    Plain (.branch kind ns) :=
  .mk (fun _ => by simp [Node.branch]) h

theorem Plain.tag {n : Node} (h : Plain n) : '/' ∉ n.tag.toList := by
  have hlower : ∀ s : String, '/' ∉ s.toList → '/' ∉ (lower s).toList := by
    intro s hs
    rw [toList_lower, List.mem_map]
    rintro ⟨c, hc, hl⟩
    exact hs ((toLower_eq_iff (by decide)).mp hl ▸ hc)
  rw [Node.tag]
  split
  · next name hname =>
    obtain ⟨t, ht, hhead⟩ := Option.bind_eq_some_iff.mp hname
    have h1 : Plain t := h.children t (List.mem_of_find?_eq_some ht)
    have h2 : Plain name := h1.children name (List.mem_of_mem_head? hhead)
    split
    · next hk => exact hlower _ (h2.name hk)
    · simp
  · simp

namespace Reader

structure Tag.Plain (t : Tag) : Prop where
  name : '/' ∉ t.name.toList
  attributes : ∀ n ∈ t.attributes, Html.Plain n

def Mode.Plain : Mode → Prop
  | .startName run => '/' ∉ run
  | .inTag tag | .attributeName tag _ | .slash tag => tag.Plain
  | .afterName tag name | .beforeValue tag name | .bareValue tag name _ | .quoted tag name _ _ _ =>
    tag.Plain ∧ Html.Plain name
  | _ => True

structure Frame.Plain (f : Frame) : Prop where
  tag : Html.Plain f.tag
  children : ∀ n ∈ f.children, Html.Plain n

structure State.Plain (s : State) : Prop where
  mode : s.mode.Plain
  frames : ∀ f ∈ s.frames, f.Plain
  outer : ∀ n ∈ s.outer, Html.Plain n

theorem Tag.Plain.add {t : Tag} (h : t.Plain) {n : Node} (hn : Html.Plain n) : (t.add n).Plain :=
  ⟨h.name, by simpa [Tag.add, hn] using h.attributes⟩

theorem Frame.Plain.append {f : Frame} (h : f.Plain) (carried : List Node)
    (hc : ∀ n ∈ carried, Html.Plain n) : ({ f with children := carried ++ f.children } : Frame).Plain :=
  ⟨h.tag, fun n hn => (List.mem_append.mp hn).elim (hc n) (h.children n)⟩

theorem Frame.Plain.node {f : Frame} (h : f.Plain) : Html.Plain f.node := by
  apply plain_branch
  intro n hn
  rw [List.mem_cons, List.mem_reverse] at hn
  rcases hn with rfl | hn
  · exact h.tag
  · exact h.children n hn

theorem plain_nameNode (run : List Char) : Html.Plain (nameNode run) := plain_leaf (by decide) _

theorem plain_valueNode (run : List Char) : Html.Plain (valueNode run) := plain_leaf (by decide) _

theorem plain_quotedNode (run : List Char) : Html.Plain (quotedNode run) := by
  apply plain_branch
  split
  · simp
  · simp [plain_valueNode]

theorem plain_bare {name : Node} (h : Html.Plain name) : Html.Plain (bare name) :=
  plain_branch (by simpa using h)

theorem plain_entry {name value : Node} (hn : Html.Plain name) (hv : Html.Plain value) :
    Html.Plain (.branch .attributeEntry [name, value]) :=
  plain_branch (by simp [hn, hv])

namespace State

theorem plain_tagNode (kind : Kind) {t : Tag} (h : t.Plain) : Html.Plain (tagNode kind t) := by
  apply plain_branch
  intro n hn
  rw [List.mem_cons, List.mem_reverse] at hn
  rcases hn with rfl | hn
  · exact .mk (fun _ => h.name) (by simp [Node.leaf])
  · exact h.attributes n hn

section Frames

variable {fs : List Frame} {outer : List Node} (hf : ∀ f ∈ fs, f.Plain)
  (ho : ∀ n ∈ outer, Html.Plain n)

include hf ho

theorem plain_addTo {n : Node} (hn : Html.Plain n) :
    (∀ f ∈ (addTo n fs outer).1, f.Plain) ∧ ∀ m ∈ (addTo n fs outer).2, Html.Plain m := by
  cases fs with
  | nil => exact ⟨by simp [addTo], by simpa [addTo, hn] using ho⟩
  | cons f fs =>
    have hf1 : f.Plain := hf f (by simp)
    have hadd := hf1.append [n] (by simpa using hn)
    refine ⟨?_, ho⟩
    simp only [addTo, List.forall_mem_cons]
    exact ⟨hadd, fun g hg => hf g (by simp [hg])⟩

theorem plain_closeFrames (p : String → Bool) (carried : List Node)
    (hc : ∀ n ∈ carried, Html.Plain n) :
    (∀ f ∈ (closeFrames p carried fs outer).1, f.Plain) ∧
      ∀ n ∈ (closeFrames p carried fs outer).2, Html.Plain n := by
  induction fs generalizing carried with
  | nil => exact ⟨by simp [closeFrames], fun n hn => (List.mem_append.mp hn).elim (hc n) (ho n)⟩
  | cons f fs ih =>
    have hf1 := (hf f (by simp)).append carried hc
    have hfs : ∀ g ∈ fs, g.Plain := fun g hg => hf g (by simp [hg])
    rw [closeFrames]
    dsimp only
    split
    · exact ih hfs [_] (by simpa using hf1.node)
    · exact ⟨List.forall_mem_cons.mpr ⟨hf1, hfs⟩, ho⟩

theorem plain_endFrames (name : String) (carried : List Node) (hc : ∀ n ∈ carried, Html.Plain n)
    {r : List Frame × List Node} (h : endFrames name carried fs outer = some r) :
    (∀ f ∈ r.1, f.Plain) ∧ ∀ n ∈ r.2, Html.Plain n := by
  induction fs generalizing carried with
  | nil => cases h
  | cons f fs ih =>
    have hf1 := (hf f (by simp)).append carried hc
    have hfs : ∀ g ∈ fs, g.Plain := fun g hg => hf g (by simp [hg])
    rw [endFrames] at h
    dsimp only at h
    split at h
    · cases h
      exact plain_addTo hfs ho hf1.node
    · split at h
      · exact ih hfs [_] (by simpa using hf1.node) h
      · cases h
        exact ⟨List.forall_mem_cons.mpr ⟨hf1, hfs⟩, ho⟩

end Frames

variable {s : State} (h : s.Plain)

include h

theorem Plain.moveTo {m : Mode} (hm : m.Plain) : (s.moveTo m).Plain := ⟨hm, h.frames, h.outer⟩

theorem Plain.fail : s.fail.Plain := h.moveTo trivial

theorem Plain.add {n : Node} (hn : Html.Plain n) : (s.add n).Plain :=
  ⟨h.mode, (plain_addTo h.frames h.outer hn).1, (plain_addTo h.frames h.outer hn).2⟩

theorem Plain.addText (run : List Char) : (s.addText run).Plain := h.add (plain_leaf (by decide) _)

theorem Plain.closeWhile (p : String → Bool) : (s.closeWhile p).Plain :=
  have hc := plain_closeFrames h.frames h.outer p [] (by simp)
  ⟨h.mode, hc.1, hc.2⟩

theorem Plain.openElement {t : Tag} (ht : t.Plain) : (s.openElement t).Plain := by
  have h1 : (s.makeRoom (lower t.name)).Plain := h.closeWhile _
  simp only [State.openElement]
  split
  · exact h1.fail
  · refine ⟨?_, List.forall_mem_cons.mpr ⟨⟨plain_tagNode _ ht, by simp⟩, h1.frames⟩, h1.outer⟩
    dsimp only
    split <;> trivial

theorem Plain.addClosed {t : Tag} (ht : t.Plain) : (s.addClosed t).Plain := by
  have h1 : (s.makeRoom (lower t.name)).Plain := h.closeWhile _
  simp only [State.addClosed]
  split
  · exact h1.fail
  · have h2 : ∀ n ∈ [tagNode .selfClosingTag t], Html.Plain n := by
      simpa using plain_tagNode _ ht
    exact (h1.add (plain_branch h2)).moveTo trivial

theorem Plain.closeElement (name : String) : (s.closeElement name).Plain := by
  rw [State.closeElement]
  split
  · next frames outer he =>
    have hr := plain_endFrames h.frames h.outer name [] (by simp) he
    exact ⟨trivial, hr.1, hr.2⟩
  · exact h.fail

theorem Plain.inContent (d c : Char) : (s.inContent d c).Plain := by
  simp only [State.inContent]
  split_ifs <;> exact h.moveTo trivial

theorem Plain.inReference (p : Char → Bool) {next : Nat → Mode} (hn : ∀ n, (next n).Plain)
    (more : Nat) (d c : Char) : (s.inReference p next more d c).Plain := by
  simp only [State.inReference]
  split
  · exact h.moveTo trivial
  · cases more with
    | zero => exact h.inContent d c
    | succ n =>
      dsimp only
      split
      · exact h.moveTo (hn n)
      · exact h.inContent d c

theorem Plain.betweenAttributes {tag : Tag} (ht : tag.Plain) (d c : Char) :
    (s.betweenAttributes tag d c).Plain := by
  simp only [State.betweenAttributes]
  split_ifs
  · exact h.moveTo ht
  · exact h.openElement ht
  · exact h.moveTo ht
  · exact h.moveTo ht
  · exact h.fail

/-- The name of a tag grows by characters of names, and is never taken up again. -/
theorem Plain.advance {d c : Char} (hc : TagScanner.isNameChar d = true → c ≠ '/') :
    (s.advance d c).Plain := by
  by_cases hz : d = '\x00'
  · simpa [State.advance, hz] using h.fail
  have hm := h.mode
  simp only [State.advance, hz, ↓reduceIte]
  cases hmode : s.mode with
  | failed => exact h
  | content => exact h.inContent d c
  | letters more => exact h.inReference _ (fun n => show (Mode.letters n).Plain from trivial) more d c
  | decimal more => exact h.inReference _ (fun n => show (Mode.decimal n).Plain from trivial) more d c
  | hex more => exact h.inReference _ (fun n => show (Mode.hex n).Plain from trivial) more d c
  | text run =>
    dsimp only
    split_ifs
    · exact (h.addText run).moveTo trivial
    · exact (h.addText run).moveTo trivial
    · exact h.fail
    · exact h.moveTo trivial
  | opening =>
    dsimp only
    split_ifs with h1 h2 h3
    · exact h.moveTo trivial
    · exact h.moveTo trivial
    · exact h.moveTo (by simpa [Mode.Plain, eq_comm] using hc h3)
    · exact h.fail
  | startName run =>
    rw [hmode] at hm
    dsimp only
    split_ifs with h1
    · exact h.moveTo (List.not_mem_cons_of_ne_of_not_mem (hc h1).symm hm)
    · have hname : '/' ∉ (ofRun run).toList := by simpa [ofRun, Mode.Plain] using hm
      exact h.betweenAttributes ⟨hname, by simp⟩ d c
  | inTag tag =>
    rw [hmode] at hm
    exact h.betweenAttributes hm d c
  | attributeName tag run =>
    rw [hmode] at hm
    have hn := plain_nameNode run
    dsimp only
    split_ifs
    · exact h.moveTo hm
    · exact h.moveTo ⟨hm, hn⟩
    · exact h.moveTo ⟨hm, hn⟩
    · exact h.betweenAttributes (hm.add (plain_bare hn)) d c
  | afterName tag name =>
    rw [hmode] at hm
    dsimp only
    split_ifs
    · exact h
    · exact h.moveTo hm
    · exact h.betweenAttributes (hm.1.add (plain_bare hm.2)) d c
  | beforeValue tag name =>
    rw [hmode] at hm
    dsimp only
    split_ifs
    · exact h
    · exact h.moveTo hm
    · exact h.moveTo hm
    · exact h.fail
  | bareValue tag name run =>
    rw [hmode] at hm
    dsimp only
    split_ifs
    · exact h.moveTo hm
    · exact h.betweenAttributes (hm.1.add (plain_entry hm.2 (plain_valueNode run))) d c
    · exact h.fail
  | quoted tag name quote blank run =>
    rw [hmode] at hm
    dsimp only
    split_ifs
    · exact h.moveTo (hm.1.add (plain_entry hm.2 (plain_quotedNode run)))
    · exact h.fail
    · exact h.moveTo hm
  | slash tag =>
    rw [hmode] at hm
    dsimp only
    split_ifs
    · exact h.addClosed hm
    · exact h.fail
  | endName run =>
    dsimp only
    split_ifs
    · exact h.moveTo trivial
    · exact h.closeElement _
    · exact h.moveTo trivial
    · exact h.fail
  | endGap name =>
    dsimp only
    split_ifs
    · exact h.closeElement name
    · exact h
    · exact h.fail
  | doctype rest | raw name rest =>
    cases rest with
    | nil => exact h.fail
    | cons x more =>
      dsimp only
      split_ifs <;> exact h.moveTo trivial
  | reference | number | hexStart | declaration | commentStart | comment | doctypeGap | doctypeRest
  | endOpening =>
    dsimp only
    split_ifs <;> first | exact h | exact h.moveTo trivial

theorem Plain.step (c : Char) : (s.step c).Plain := by
  apply h.advance
  intro hd
  rw [isNameChar_toLower] at hd
  exact slash_not_isNameChar hd

theorem Plain.foldl_step (cs : List Char) : (cs.foldl State.step s).Plain := by
  induction cs generalizing s with
  | nil => exact h
  | cons c cs ih => exact ih (h.step c)

theorem Plain.closed (p : String → Bool) {n : Node}
    (hn : (if (s.closeWhile p).frames.isEmpty then
      some (Node.branch .document (s.closeWhile p).outer.reverse) else none) = some n) :
    Html.Plain n := by
  split at hn
  · rw [← Option.some.inj hn]
    apply plain_branch
    intro m hm
    exact (h.closeWhile p).outer m (List.mem_reverse.mp hm)
  · cases hn

theorem Plain.finish {n : Node} (hn : s.finish = some n) : Html.Plain n := by
  have hcontent : (s.moveTo .content).Plain := h.moveTo trivial
  cases hm : s.mode with
  | content | letters | decimal | hex =>
    rw [State.finish, hm] at hn
    exact hcontent.closed _ hn
  | text run =>
    rw [State.finish, hm] at hn
    have htext : ((s.addText run).moveTo .content).Plain := (h.addText run).moveTo trivial
    exact htext.closed _ hn
  | _ => simp [State.finish, hm, State.fail, State.moveTo] at hn

end State

end Reader

theorem plain_readDocument {source : String} {n : Node} (h : readDocument source = some n) :
    Plain n := by
  have hstart : Reader.State.start.Plain := ⟨trivial, by simp [Reader.State.start], by
    simp [Reader.State.start]⟩
  exact (hstart.foldl_step source.toList).finish h

namespace Recovered

open Grammar

theorem skipWhile_passes (t : Text) (p : Char → Bool) (start : Nat) {i : Nat} (h1 : start ≤ i)
    (h2 : i < t.skipWhile p start) : ∃ h : i < t.chars.size, p t.chars[i] = true := by
  fun_induction Text.skipWhile t p start with
  | case1 start hs hp ih =>
    by_cases he : i = start
    · subst he
      exact ⟨hs, hp⟩
    · exact ih (by omega) h2
  | case2 start hs hp => omega
  | case3 start hs => omega

theorem slash_not_mem_slice (t : Text) (start stop : Nat) :
    '/' ∉ (t.slice start (min stop (t.skipWhile TagScanner.isNameChar start))).toList := by
  intro hmem
  rw [Text.slice, String.toList_ofList, Array.mem_toList_iff, Array.mem_extract_iff_getElem] at hmem
  obtain ⟨k, hk, hc⟩ := hmem
  obtain ⟨hi, hp⟩ := skipWhile_passes t TagScanner.isNameChar start (Nat.le_add_right start k)
    (by omega)
  exact slash_not_isNameChar hp hc

mutual

theorem plain_node (t : Text) : (o : Outline) → ∀ n ∈ node t o, Plain n
  | .node e cs => by
    rw [node]
    split
    · rw [List.forall_mem_singleton]
      refine .mk (fun hk => ?_) (plain_nodes t cs)
      dsimp only at hk ⊢
      rw [hk]
      exact slash_not_mem_slice t e.start e.stop
    · simp

theorem plain_nodes (t : Text) : (os : List Outline) → ∀ n ∈ nodes t os, Plain n
  | [] => by simp [nodes]
  | o :: os => by
    rw [nodes, List.forall_mem_append]
    exact ⟨plain_node t o, plain_nodes t os⟩

end

theorem plain_document (source : String) : Plain (document source) := by
  have hempty : Plain (.branch .document []) := plain_branch (by simp)
  rw [document]
  split
  · split
    · next tree n ns hn =>
      exact plain_node _ _ n (by rw [hn]; simp)
    · exact hempty
  · exact hempty

end Recovered

theorem plain_documentOf (source : String) : Plain (documentOf source) := by
  rw [documentOf]
  split
  · next n hn => exact plain_readDocument hn
  · exact Recovered.plain_document source

mutual

theorem plain_items : (n : Node) → Plain n → ∀ m, .element m ∈ items n → Plain m
  | ⟨kind, text, children⟩, h => by
    have hc := plain_itemsAll children h.children
    intro m hm
    simp only [items] at hm
    split_ifs at hm
    · exact hc m hm
    · simp at hm
    · simp at hm
    · exact hc m hm
    · exact hc m (by simpa using hm)
    · rw [List.mem_singleton] at hm
      exact Item.element.inj hm ▸ h
    · simp at hm

theorem plain_itemsAll : (ns : List Node) → (∀ n ∈ ns, Plain n) →
    ∀ m, .element m ∈ itemsAll ns → Plain m
  | [], _ => by simp [itemsAll]
  | n :: ns, h => by
    rw [List.forall_mem_cons] at h
    intro m hm
    rw [itemsAll, List.mem_append] at hm
    rcases hm with hm | hm
    · exact plain_items n h.1 m hm
    · exact plain_itemsAll ns h.2 m hm

end

theorem plain_elements {document : Node} (h : Plain document) :
    ∀ n ∈ Body.elements document, Plain n := by
  intro n hn
  rw [Body.elements_eq_remaining, remaining, List.mem_filterMap] at hn
  obtain ⟨i, hi, he⟩ := hn
  have hmem : i ∈ itemsAll document.children := (List.dropWhile_sublist _).mem hi
  cases i with
  | element m =>
    obtain rfl : m = n := Option.some.inj he
    exact plain_itemsAll document.children h.children m hmem
  | text | body => cases he

mutual

theorem plain_elementsWithin : (n : Node) → Plain n → ∀ m ∈ elementsWithin n, Plain m
  | ⟨kind, text, children⟩, h => by
    rw [elementsWithin, List.forall_mem_cons]
    exact ⟨h, plain_elementsAmong children h.children⟩

theorem plain_elementsAmong : (ns : List Node) → (∀ n ∈ ns, Plain n) →
    ∀ m ∈ elementsAmong ns, Plain m
  | [], _ => by simp [elementsAmong]
  | n :: ns, h => by
    rw [List.forall_mem_cons] at h
    rw [elementsAmong]
    split
    · rw [List.forall_mem_append]
      exact ⟨plain_elementsWithin n h.1, plain_elementsAmong ns h.2⟩
    · exact plain_elementsAmong ns h.2

end

/-- No tag of the tree of a document has a slash. -/
theorem slash_not_mem_tag {source : String} {t : Tree} (h : wholeTree (documentOf source) = some t) :
    ∀ v ∈ t.walk 0 [], '/' ∉ v.node.tag.toList := by
  have hfilter := labels_wholeTree (p := fun tag => decide ('/' ∈ tag.toList)) h (by decide) (by decide)
  have hnone : ((bodyElements (documentOf source)).map Node.label).filter
      (fun l => decide ('/' ∈ l.1.toList)) = [] := by
    rw [List.filter_eq_nil_iff]
    intro l hl
    obtain ⟨n, hn, rfl⟩ := List.mem_map.mp hl
    obtain ⟨e, he, hne⟩ := List.mem_flatMap.mp hn
    have h1 : Plain e := plain_elements (plain_documentOf source) e he
    have h2 : Plain n := plain_elementsWithin e h1 n hne
    exact fun hs => h2.tag (of_decide_eq_true hs)
  rw [hnone, List.filter_eq_nil_iff] at hfilter
  intro v hv
  have hl : (v.node.tag, v.node.attributes) ∈ t.labels := by
    rw [← map_walk 0 [] t]
    exact List.mem_map_of_mem hv
  simpa using hfilter _ hl

end MarkupNesting.Html
