import MarkupNesting.Html.Reader
import MarkupNesting.Proofs.Html.Written
import MarkupNesting.Proofs.LowerCase
import MarkupNesting.Proofs.Runs

/-! What the reader of documents makes of a run of characters: text, a tag with its attributes, the
start and the end of an element. -/

namespace MarkupNesting.Html.Reader

def State.read (s : State) (cs : List Char) : State := cs.foldl step s

namespace State

variable (s : State)

@[simp] theorem read_nil : s.read [] = s := rfl

@[simp] theorem read_cons (c : Char) (cs : List Char) : s.read (c :: cs) = (s.step c).read cs := rfl

theorem read_append (cs ds : List Char) : s.read (cs ++ ds) = (s.read cs).read ds :=
  List.foldl_append

def hold (ns : List Node) : State := ns.foldl add s

theorem hold_append (ms ns : List Node) : s.hold (ms ++ ns) = (s.hold ms).hold ns :=
  List.foldl_append

theorem hold_nested (m : Mode) (f : Frame) (fs : List Frame) (outer ns : List Node) :
    hold ⟨m, f :: fs, outer⟩ ns =
      ⟨m, { f with children := ns.reverse ++ f.children } :: fs, outer⟩ := by
  induction ns generalizing f with
  | nil => rfl
  | cons n ns ih =>
    have h := ih { f with children := n :: f.children }
    simpa [hold, add, addTo] using h

theorem hold_outer (m : Mode) (outer ns : List Node) :
    hold ⟨m, [], outer⟩ ns = ⟨m, [], ns.reverse ++ outer⟩ := by
  induction ns generalizing outer with
  | nil => rfl
  | cons n ns ih =>
    have h := ih (n :: outer)
    simpa [hold, add, addTo] using h

def names : List String := s.frames.map Frame.name

@[simp] theorem names_moveTo (m : Mode) : (s.moveTo m).names = s.names := rfl

@[simp] theorem names_hold (ns : List Node) : (s.hold ns).names = s.names := by
  obtain ⟨m, _ | ⟨f, fs⟩, outer⟩ := s
  · rw [hold_outer]
    rfl
  · rw [hold_nested]
    rfl

end State

def Mode.IsBetween : Mode → Prop
  | .content | .text _ => True
  | _ => False

def Mode.pending : Mode → List Node
  | .text run => [.leaf .text (ofRun (run.dropWhile TagScanner.isSpace))]
  | _ => []

namespace State

variable (s : State)

theorem step_text {m : Mode} {c : Char} (hm : m.IsBetween)
    (hc : c ≠ '<' ∧ c ≠ '>' ∧ c ≠ '&' ∧ c ≠ '\x00') :
    ∃ n : Mode, n.IsBetween ∧ (s.moveTo m).step c = s.moveTo n := by
  have h1 : c.toLower ≠ '<' := fun h => hc.1 ((toLower_eq_iff rfl).mp h)
  have h2 : c.toLower ≠ '>' := fun h => hc.2.1 ((toLower_eq_iff rfl).mp h)
  have h3 : c.toLower ≠ '&' := fun h => hc.2.2.1 ((toLower_eq_iff rfl).mp h)
  have h4 : c.toLower ≠ '\x00' := fun h => hc.2.2.2 ((toLower_eq_iff rfl).mp h)
  cases m with
  | content =>
    by_cases hs : TagScanner.isSpace c.toLower = true
    · exact ⟨.content, trivial, by simp [step, advance, moveTo, inContent, h1, h2, h3, h4, hs]⟩
    · exact ⟨.text [c], trivial, by simp [step, advance, moveTo, inContent, h1, h2, h3, h4, hs]⟩
  | text run => exact ⟨.text (c :: run), trivial, by simp [step, advance, moveTo, h1, h2, h3, h4]⟩
  | _ => exact hm.elim

theorem read_text {m : Mode} {cs : List Char} (hm : m.IsBetween) (hc : IsPlainText cs) :
    ∃ n : Mode, n.IsBetween ∧ (s.moveTo m).read cs = s.moveTo n := by
  induction cs generalizing m with
  | nil => exact ⟨m, hm, rfl⟩
  | cons c cs ih =>
    obtain ⟨m', hm', h1⟩ := s.step_text hm (hc c (by simp))
    obtain ⟨n, hn, h2⟩ := ih hm' fun d hd => hc d (by simp [hd])
    exact ⟨n, hn, by rw [read_cons, h1, h2]⟩

/-- A tag ends the text before it. -/
theorem step_tag {m : Mode} (hm : m.IsBetween) :
    (s.moveTo m).step '<' = (s.hold m.pending).moveTo .opening := by
  cases m with
  | content => rfl
  | text run => rfl
  | _ => exact hm.elim

end State

theorem isUpper_word {c : Char} (h : isWordChar c = true) : c.isUpper = false := by
  cases hc : c.isUpper with
  | false => rfl
  | true =>
    have hn := (isUpper_iff c).mp hc
    have hd : c ≠ '-' := fun e => by simp [e] at hn
    simp [isWordChar, Char.isLower, Char.isDigit, UInt32.le_iff_toNat_le, hd] at h
    omega

theorem toLower_word {c : Char} (h : isWordChar c = true) : c.toLower = c :=
  toLower_of_not_isUpper (isUpper_word h)

theorem ne_of_word {c x : Char} (h : isWordChar c = true) (hx : isWordChar x = false) : c ≠ x :=
  fun e => by simp [e, hx] at h

theorem isSpace_word {c : Char} (h : isWordChar c = true) : TagScanner.isSpace c = false := by
  have h1 : c ≠ ' ' := ne_of_word h rfl
  have h2 : ¬ c ≤ '\r' := fun hr => by
    have hn : c.toNat ≤ 13 := by simpa [Char.le_def, UInt32.le_iff_toNat_le] using hr
    have hd : c ≠ '-' := fun e => by simp [e] at hn
    simp [isWordChar, Char.isLower, Char.isDigit, UInt32.le_iff_toNat_le, hd] at h
    omega
  simp [TagScanner.isSpace, h1, h2]

theorem isNameChar_word {c : Char} (h : isWordChar c = true) : TagScanner.isNameChar c = true := by
  simp only [isWordChar, Bool.or_eq_true] at h
  rcases h with (h | h) | h <;> simp_all [TagScanner.isNameChar, Char.isAlphanum, Char.isAlpha]

theorem isAttributeChar_word {c : Char} (h : isWordChar c = true) : isAttributeChar c = true := by
  have h1 : c ≠ '<' := ne_of_word h rfl
  have h2 : c ≠ '>' := ne_of_word h rfl
  have h3 : c ≠ '\x22' := ne_of_word h rfl
  have h4 : c ≠ '\x27' := ne_of_word h rfl
  have h5 : c ≠ '=' := ne_of_word h rfl
  have h6 : c ≠ '/' := ne_of_word h rfl
  simp [isAttributeChar, isValueChar, valueStops, isSpace_word h, h1, h2, h3, h4, h5, h6]

namespace State

variable (s : State)

/-- A word, read from where it may begin. -/
theorem read_word {m : Mode} {mode : List Char → Mode}
    (hfirst : ∀ c, isWordChar c = true → (s.moveTo m).step c = s.moveTo (mode [c]))
    (hnext : ∀ c run, isWordChar c = true →
      (s.moveTo (mode run)).step c = s.moveTo (mode (c :: run)))
    {name : String} (h : IsWord name) :
    (s.moveTo m).read name.toList = s.moveTo (mode name.toList.reverse) := by
  obtain ⟨hne, hw⟩ := h
  obtain ⟨c, cs, hcs⟩ := List.exists_cons_of_ne_nil fun e => hne (String.toList_eq_nil_iff.mp e)
  rw [hcs] at hw ⊢
  exact foldl_word (fun run => s.moveTo (mode run)) hfirst hnext (hw c (by simp))
    fun d hd => hw d (List.mem_cons_of_mem c hd)

theorem read_startName {name : String} (h : IsWord name) :
    (s.moveTo .opening).read name.toList = s.moveTo (.startName name.toList.reverse) := by
  apply s.read_word _ _ h
  · intro c hc
    have h1 : c ≠ '\x00' := ne_of_word hc rfl
    have h2 : c ≠ '!' := ne_of_word hc rfl
    have h3 : c ≠ '/' := ne_of_word hc rfl
    simp [step, advance, moveTo, toLower_word hc, isNameChar_word hc, h1, h2, h3]
  · intro c run hc
    have h1 : c ≠ '\x00' := ne_of_word hc rfl
    simp [step, advance, moveTo, toLower_word hc, isNameChar_word hc, h1]

theorem read_endName {name : String} (h : IsWord name) :
    (s.moveTo .endOpening).read name.toList = s.moveTo (.endName name.toList.reverse) := by
  apply s.read_word _ _ h
  · intro c hc
    have h1 : c ≠ '\x00' := ne_of_word hc rfl
    simp [step, advance, moveTo, toLower_word hc, isNameChar_word hc, h1]
  · intro c run hc
    have h1 : c ≠ '\x00' := ne_of_word hc rfl
    simp [step, advance, moveTo, toLower_word hc, isNameChar_word hc, h1]

theorem read_endTag {name : String} (h : IsWord name) :
    (s.moveTo .opening).read ('/' :: (name.toList ++ ['>'])) = s.closeElement name := by
  have hl : lower name = name := lower_eq_self fun c hc => isUpper_word (h.2 c hc)
  have hn : ofRun name.toList.reverse = name := by simp [ofRun]
  have hs : (s.moveTo .opening).step '/' = s.moveTo .endOpening := rfl
  have he : (s.moveTo (.endName name.toList.reverse)).step '>' =
      s.closeElement (lower (ofRun name.toList.reverse)) := rfl
  rw [read_cons, hs, read_append, s.read_endName h, read_cons, he, hn, hl, read_nil]

end State

def entryNode (e : String × String) : Node :=
  .branch .attributeEntry [.leaf .attributeName e.1, quotedNode (escape e.2).reverse]

def Mode.tag? : Mode → Option Tag
  | .startName run => some ⟨ofRun run, []⟩
  | .inTag tag => some tag
  | _ => none

namespace State

variable (s : State)

theorem step_space {m : Mode} {tag : Tag} (hm : m.tag? = some tag) :
    (s.moveTo m).step ' ' = s.moveTo (.inTag tag) := by
  cases m with
  | startName run => exact congrArg (fun t => s.moveTo (.inTag t)) (Option.some.inj hm)
  | inTag t => exact congrArg (fun t => s.moveTo (.inTag t)) (Option.some.inj hm)
  | _ => cases hm

theorem step_endOfTag {m : Mode} {tag : Tag} (hm : m.tag? = some tag) :
    (s.moveTo m).step '>' = (s.moveTo m).openElement tag := by
  cases m with
  | startName run => exact congrArg (s.moveTo (.startName run)).openElement (Option.some.inj hm)
  | inTag t => exact congrArg (s.moveTo (.inTag t)).openElement (Option.some.inj hm)
  | _ => cases hm

theorem read_attributeName {name : String} (h : IsWord name) (tag : Tag) :
    (s.moveTo (.inTag tag)).read name.toList =
      s.moveTo (.attributeName tag name.toList.reverse) := by
  apply s.read_word _ _ h
  · intro c hc
    have h1 : c ≠ '\x00' := ne_of_word hc rfl
    have h2 : c ≠ '>' := ne_of_word hc rfl
    have h3 : c ≠ '/' := ne_of_word hc rfl
    simp [step, advance, moveTo, betweenAttributes, toLower_word hc, isSpace_word hc,
      isAttributeChar_word hc, h1, h2, h3]
  · intro c run hc
    have h1 : c ≠ '\x00' := ne_of_word hc rfl
    simp [step, advance, moveTo, toLower_word hc, h1, isAttributeChar_word hc]

theorem step_quoted {c : Char} (h : c ≠ '\x22' ∧ c ≠ '<' ∧ c ≠ '\x00') (tag : Tag) (name : Node)
    (blank : Bool) (run : List Char) :
    (s.moveTo (.quoted tag name '\x22' blank run)).step c =
      s.moveTo (.quoted tag name '\x22' (blank && TagScanner.isSpace c.toLower) (c :: run)) := by
  have h1 : c.toLower ≠ '\x22' := fun e => h.1 ((toLower_eq_iff rfl).mp e)
  have h2 : c.toLower ≠ '<' := fun e => h.2.1 ((toLower_eq_iff rfl).mp e)
  have h3 : c.toLower ≠ '\x00' := fun e => h.2.2 ((toLower_eq_iff rfl).mp e)
  simp [step, advance, moveTo, h1, h2, h3]

theorem read_quoted {cs : List Char} (h : ∀ c ∈ cs, c ≠ '\x22' ∧ c ≠ '<' ∧ c ≠ '\x00')
    (tag : Tag) (name : Node) (blank : Bool) (run : List Char) :
    ∃ b, (s.moveTo (.quoted tag name '\x22' blank run)).read cs =
      s.moveTo (.quoted tag name '\x22' b (cs.reverse ++ run)) := by
  induction cs generalizing blank run with
  | nil => exact ⟨blank, rfl⟩
  | cons c cs ih =>
    obtain ⟨b, hb⟩ := ih (fun d hd => h d (by simp [hd])) (blank && TagScanner.isSpace c.toLower)
      (c :: run)
    refine ⟨b, ?_⟩
    rw [read_cons, s.step_quoted (h c (by simp)), hb]
    simp

theorem read_attribute {m : Mode} {tag : Tag} (hm : m.tag? = some tag) {e : String × String}
    (he : IsWord e.1) :
    (s.moveTo m).read (attributeText e) = s.moveTo (.inTag (tag.add (entryNode e))) := by
  have hq : ∀ c ∈ escape e.2, c ≠ '\x22' ∧ c ≠ '<' ∧ c ≠ '\x00' := fun _ => ne_of_mem_escape
  obtain ⟨b, hv⟩ := s.read_quoted hq tag (.leaf .attributeName e.1) true []
  have hn : nameNode e.1.toList.reverse = .leaf .attributeName e.1 := by simp [nameNode, ofRun]
  have h1 : (s.moveTo (.attributeName tag e.1.toList.reverse)).step '=' =
      s.moveTo (.beforeValue tag (nameNode e.1.toList.reverse)) := rfl
  have h2 (name : Node) : (s.moveTo (.beforeValue tag name)).step '\x22' =
      s.moveTo (.quoted tag name '\x22' true []) := rfl
  have h3 (name : Node) (b : Bool) (run : List Char) :
      (s.moveTo (.quoted tag name '\x22' b run)).step '\x22' =
        s.moveTo (.inTag (tag.add (.branch .attributeEntry [name, quotedNode run]))) := rfl
  rw [attributeText, read_cons, s.step_space hm, read_append, s.read_attributeName he, read_cons, h1,
    hn, read_cons, h2, read_append, hv, read_cons, h3, List.append_nil, read_nil, entryNode]

theorem read_attributes {es : List (String × String)} (hes : ∀ e ∈ es, IsWord e.1) {m : Mode}
    {tag : Tag} (hm : m.tag? = some tag) :
    ∃ n : Mode, n.tag? = some ⟨tag.name, (es.map entryNode).reverse ++ tag.attributes⟩ ∧
      (s.moveTo m).read (es.flatMap attributeText) = s.moveTo n := by
  induction es generalizing m tag with
  | nil => exact ⟨m, hm, rfl⟩
  | cons e es ih =>
    have he := s.read_attribute hm (hes e (by simp))
    obtain ⟨n, hn, hr⟩ := ih (fun x hx => hes x (by simp [hx])) (m := .inTag (tag.add (entryNode e))) rfl
    refine ⟨n, ?_, ?_⟩
    · simp [hn, Tag.add]
    · rw [List.flatMap_cons, read_append, he, hr]

end State

theorem isWord_of_mem_flowTags {tag : String} (h : tag ∈ flowTags) : IsWord tag := by
  have hall : ∀ t ∈ flowTags, IsWord t := by decide
  exact hall tag h

theorem isVoid_flow : ∀ tag ∈ flowTags, isVoid tag = false := by decide

theorem isKnown_flow : ∀ tag ∈ flowTags, isKnown tag = true := by decide

theorem not_raw_flow : ∀ tag ∈ flowTags, State.rawNames.lookup tag = none := by decide

/-- Elements of these names hold all others. -/
theorem mayHold_flow {tag : String} (h : tag ∈ flowTags) (inner : String) :
    mayHold tag inner = true := by
  simp only [flowTags, List.mem_cons, List.not_mem_nil, or_false] at h
  rcases h with rfl | rfl | rfl | rfl | rfl | rfl | rfl | rfl | rfl | rfl | rfl | rfl | rfl | rfl |
    rfl | rfl | rfl <;> rfl

/-- The names of open elements are kept as long as there are not too many of them. -/
theorem kept_eq_self {tags : List OpenTag} {used : Nat}
    (h : ∀ t ∈ tags, t.room = 1 ∧ t.shortened = t) (hu : used + tags.length < 1024) :
    OpenTag.kept used tags = tags := by
  induction tags generalizing used with
  | nil => rfl
  | cons t ts ih =>
    have ht := h t (by simp)
    rw [List.length_cons] at hu
    rw [OpenTag.kept, ht.1, ht.2, if_neg (by omega),
      ih (fun x hx => h x (by simp [hx])) (by omega)]

theorem kept_known {tag : String} (h : isKnown tag = true) :
    (OpenTag.named tag).room = 1 ∧ (OpenTag.named tag).shortened = .named tag := by
  have hlength : ∀ t ∈ voidNames ++ contentNames, t.toList.length ≤ 255 := by decide +kernel
  have hmem : tag ∈ voidNames ++ contentNames := by
    simpa [isKnown, isVoid, List.mem_append] using h
  refine ⟨by simp [OpenTag.room, familyOf, h], congrArg OpenTag.named ?_⟩
  apply String.toList_injective
  simp [List.take_of_length_le (hlength tag hmem)]

namespace State

variable (s : State)

def enter (f : Frame) : State := { s with frames := f :: s.frames, mode := .content }

@[simp] theorem names_enter (f : Frame) : (s.enter f).names = f.name :: s.names := rfl

theorem closeWhile_eq_self {p : String → Bool} (h : ∀ n ∈ s.names.head?, p n = false) :
    s.closeWhile p = s := by
  obtain ⟨m, _ | ⟨f, fs⟩, outer⟩ := s
  · rfl
  · have hf : p f.name = false := h f.name (by simp [names])
    simp [closeWhile, closeFrames, hf]

theorem makeRoom_flow (h : ∀ n ∈ s.names, n ∈ flowTags) (name : String) : s.makeRoom name = s := by
  apply closeWhile_eq_self
  intro n hn
  have hflow := h n (List.mem_of_mem_head? hn)
  simp [isVoid_flow n hflow, mayHold_flow hflow]

theorem hasRoom_known (h : ∀ n ∈ s.names, isKnown n = true) {name : String}
    (hname : isKnown name = true) (hl : s.names.length < 1019) : s.hasRoom name = true := by
  have hk : OpenTags.kept ((name :: s.names).map .named) = (name :: s.names).map .named := by
    rw [OpenTags.kept, kept_eq_self, List.reverse_reverse]
    · intro t ht
      rw [List.mem_reverse, List.mem_map] at ht
      obtain ⟨n, hn, rfl⟩ := ht
      rcases List.mem_cons.mp hn with rfl | hn
      · exact kept_known hname
      · exact kept_known (h n hn)
    · simp only [List.length_reverse, List.length_map, List.length_cons]
      omega
  simpa [hasRoom, names, Function.comp_def] using hk

/-- A start tag opens an element where there is room for it. -/
theorem openElement_eq {tag : Tag} (hword : IsWord tag.name) (hraw : rawNames.lookup tag.name = none)
    (hroom : (s.makeRoom tag.name).hasRoom tag.name = true) :
    s.openElement tag =
      (s.makeRoom tag.name).enter ⟨tag.name, .element, tagNode .startTag tag, []⟩ := by
  have hlow : lower tag.name = tag.name := lower_eq_self fun c hc => isUpper_word (hword.2 c hc)
  simp [openElement, hlow, hroom, hraw, enter]

theorem openElement_flow (h : ∀ n ∈ s.names, n ∈ flowTags) (tag : Tag) (htag : tag.name ∈ flowTags)
    (hl : s.names.length < 1019) :
    s.openElement tag = s.enter ⟨tag.name, .element, tagNode .startTag tag, []⟩ := by
  have hroom : (s.makeRoom tag.name).hasRoom tag.name = true := by
    rw [s.makeRoom_flow h]
    exact s.hasRoom_known (fun n hn => isKnown_flow n (h n hn)) (isKnown_flow tag.name htag) hl
  rw [s.openElement_eq (isWord_of_mem_flowTags htag) (not_raw_flow tag.name htag) hroom,
    s.makeRoom_flow h]

end State

def elementNode (tag : String) (attributes : Option Attributes) (ns : List Node) : Node :=
  .branch .element
    (State.tagNode .startTag ⟨tag, ((entriesOf attributes).map entryNode).reverse⟩ :: ns)

/-- The frame of an element of which only the start tag has been read. -/
def frameOf (tag : String) (attributes : Option Attributes) : Frame :=
  ⟨tag, .element, State.tagNode .startTag ⟨tag, ((entriesOf attributes).map entryNode).reverse⟩, []⟩

namespace State

variable (s : State)

/-- A start tag ends the text before it, and is then done with as a whole. -/
theorem read_startTagText {m : Mode} (hm : m.IsBetween) {tag : String} (htag : IsWord tag)
    {attributes : Option Attributes} (ha : Writable attributes) :
    ∃ n : Mode, (s.moveTo m).read (startTagText tag attributes) =
      ((s.hold m.pending).moveTo n).openElement
        ⟨tag, ((entriesOf attributes).map entryNode).reverse⟩ := by
  let t : State := s.hold m.pending
  have hn : ofRun tag.toList.reverse = tag := by simp [ofRun]
  obtain ⟨n, hmode, hr⟩ :=
    t.read_attributes (isWord_entriesOf ha) (m := .startName tag.toList.reverse) rfl
  refine ⟨n, ?_⟩
  rw [startTagText, read_cons, s.step_tag hm, read_append, t.read_startName htag, read_append, hr,
    read_cons, t.step_endOfTag hmode, read_nil, hn, List.append_nil]

theorem read_endTagText {m : Mode} (hm : m.IsBetween) {tag : String} (htag : IsWord tag) :
    (s.moveTo m).read (endTagText tag) = (s.hold m.pending).closeElement tag := by
  rw [endTagText, read_cons, s.step_tag hm, read_endTag _ htag]

/-- The text before a start tag ends, and the element is opened. -/
theorem read_startTag {m : Mode} (hm : m.IsBetween) (h : ∀ n ∈ s.names, n ∈ flowTags)
    {tag : String} (htag : tag ∈ flowTags) (hl : s.names.length < 1019)
    {attributes : Option Attributes} (ha : Writable attributes) :
    (s.moveTo m).read (startTagText tag attributes) =
      (s.hold m.pending).enter (frameOf tag attributes) := by
  let t : State := s.hold m.pending
  obtain ⟨n, hr⟩ := s.read_startTagText hm (isWord_of_mem_flowTags htag) ha
  rw [hr]
  exact (t.moveTo n).openElement_flow (by simpa [t] using h)
    ⟨tag, ((entriesOf attributes).map entryNode).reverse⟩ htag (by simpa [t] using hl)

theorem closeElement_enter (f : Frame) (ns : List Node) :
    ((s.enter f).hold ns).closeElement f.name =
      (s.add { f with children := ns.reverse ++ f.children }.node).moveTo .content := by
  rw [enter, hold_nested, closeElement, endFrames]
  simp [add, moveTo]

theorem read_closing {m : Mode} (hm : m.IsBetween) {tag : String} (htag : tag ∈ flowTags)
    (attributes : Option Attributes) (ns : List Node) :
    (((s.enter (frameOf tag attributes)).hold ns).moveTo m).read (endTagText tag) =
      (s.add (elementNode tag attributes (ns ++ m.pending))).moveTo .content := by
  have hc := s.closeElement_enter (frameOf tag attributes) (ns ++ m.pending)
  rw [read_endTagText _ hm (isWord_of_mem_flowTags htag), ← hold_append]
  refine hc.trans ?_
  simp [Frame.node, frameOf, elementNode]

end State

end MarkupNesting.Html.Reader
