import MarkupNesting.Proofs.Jsx.Conversion
import MarkupNesting.Proofs.Jsx.Written
import MarkupNesting.Proofs.Runs

/-! What the reader of modules makes of a run of characters: a name with its dots, an element, what
an element holds, the line of a constant. -/

namespace MarkupNesting.Jsx

open MarkupNesting.Tree

theorem isAlpha_of_isUpper {c : Char} (h : c.isUpper = true) : c.isAlpha = true := by
  simp [Char.isAlpha, h]

theorem isAlphanum_of_isAlpha {c : Char} (h : c.isAlpha = true) : c.isAlphanum = true := by
  simp [Char.isAlphanum, h]

theorem ne_of_isAlphanum {c x : Char} (h : c.isAlphanum = true) (hx : x.isAlphanum = false) :
    c ≠ x :=
  fun e => by simp [e, hx] at h

theorem ne_of_plain {c x : Char} (h : c.isAlphanum = true ∨ c = ' ') (hx : x.isAlphanum = false)
    (hs : ' ' ≠ x) : c ≠ x := by
  rcases h with h | rfl
  · exact ne_of_isAlphanum h hx
  · exact hs

theorem isSpace_of_isAlpha {c : Char} (h : c.isAlpha = true) : Reader.isSpace c = false := by
  have h1 : c ≠ ' ' := ne_of_isAlphanum (isAlphanum_of_isAlpha h) rfl
  have h2 : c ≠ '\n' := ne_of_isAlphanum (isAlphanum_of_isAlpha h) rfl
  have h3 : c ≠ '\t' := ne_of_isAlphanum (isAlphanum_of_isAlpha h) rfl
  simp [Reader.isSpace, h1, h2, h3]

theorem isName_segment {name : String} (h : IsSegment name) :
    Reader.isName name.toList.reverse = true := by
  obtain ⟨c, cs, hcs, hc, -⟩ := h
  have hlower : ∀ word ∈ Reader.reserved, word.toList.head?.any Char.isUpper = false := by decide
  have hname : name ∉ Reader.reserved := by
    intro hr
    have hf := hlower name hr
    simp [hcs, hc] at hf
  simpa [Reader.isName] using hname

theorem segment_ne_empty {name : String} (h : IsSegment name) : name.isEmpty = false := by
  obtain ⟨c, cs, hcs, -, -⟩ := h
  simp [← String.toList_eq_nil_iff, hcs]

@[simp] theorem resolve_role (n : Node) (role : Role) : resolve { n with role := role } = resolve n := by
  cases n
  rfl

theorem resolve_nameNode_none {name : String} (h : IsSegment name) :
    resolve (Reader.nameNode none name.toList.reverse) = name := by
  simp [Reader.nameNode, Reader.nodeOf, resolve, orUnknown, segment_ne_empty h]

theorem resolve_nameNode_some (object : Node) {property : String} (h : IsSegment property) :
    resolve (Reader.nameNode (some object) property.toList.reverse) =
      resolve object ++ "." ++ property := by
  cases object
  simp [Reader.nameNode, Reader.branch, Reader.nodeOf, resolve, resolveRole, orUnknown,
    segment_ne_empty h]

namespace Reader.State

variable (s : State)

def read (cs : List Char) : State := cs.foldl step s

@[simp] theorem read_nil : s.read [] = s := rfl

@[simp] theorem read_cons (c : Char) (cs : List Char) : s.read (c :: cs) = (s.step c).read cs := rfl

theorem read_append (cs ds : List Char) : s.read (cs ++ ds) = (s.read cs).read ds :=
  List.foldl_append

theorem read_spaces (h : s.step ' ' = s) (count : Nat) : s.read (spaces count) = s :=
  foldl_same (fun c (hc : c = ' ') => hc ▸ h) fun _ hc => List.eq_of_mem_replicate hc

/-- A name without dots, read from where it may begin. -/
theorem read_segment {m : Mode} {mode : List Char → Mode}
    (hfirst : ∀ c, c.isAlpha = true → (s.moveTo m).step c = s.moveTo (mode [c]))
    (hnext : ∀ c run, c.isAlphanum = true →
      (s.moveTo (mode run)).step c = s.moveTo (mode (c :: run)))
    {name : String} (h : IsSegment name) :
    (s.moveTo m).read name.toList = s.moveTo (mode name.toList.reverse) := by
  obtain ⟨c, cs, hcs, hc, hrest⟩ := h
  rw [hcs]
  exact foldl_word (fun run => s.moveTo (mode run)) hfirst hnext (isAlpha_of_isUpper hc) hrest

/-- A dot with any spaces around it, read where a name has ended. -/
theorem read_dot {m gap after : Mode} (hm : (s.moveTo m).step ' ' = s.moveTo gap)
    (hgap : (s.moveTo gap).step ' ' = s.moveTo gap) (hmdot : (s.moveTo m).step '.' = s.moveTo after)
    (hdot : (s.moveTo gap).step '.' = s.moveTo after)
    (hafter : (s.moveTo after).step ' ' = s.moveTo after) (i j : Nat) :
    (s.moveTo m).read (spaces i ++ '.' :: spaces j) = s.moveTo after := by
  have hj := (s.moveTo after).read_spaces hafter j
  cases i with
  | zero =>
    show (s.moveTo m).read ('.' :: spaces j) = s.moveTo after
    rw [read_cons, hmdot, hj]
  | succ i =>
    have hi := (s.moveTo gap).read_spaces hgap i
    show (s.moveTo m).read (' ' :: (spaces i ++ '.' :: spaces j)) = s.moveTo after
    rw [read_cons, hm, read_append, hi, read_cons, hdot, hj]

theorem read_openingName (braces : Braces) {tag : String} {text : List Char} (h : NameText tag text) :
    ∃ (object : Name) (run : List Char), isName run = true ∧
      resolve (nameNode object run) = tag ∧
      (s.moveTo (.opening braces)).read text = s.moveTo (.tagName braces object run) := by
  have hnext (object : Name) (c : Char) (run : List Char) (hc : c.isAlphanum = true) :
      (s.moveTo (.tagName braces object run)).step c =
        s.moveTo (.tagName braces object (c :: run)) := by
    simp [step, moveTo, isNameChar, hc]
  induction h with
  | @segment name h =>
    have hfirst (c : Char) (hc : c.isAlpha = true) :
        (s.moveTo (.opening braces)).step c = s.moveTo (.tagName braces none [c]) := by
      have h1 : c ≠ '>' := ne_of_isAlphanum (isAlphanum_of_isAlpha hc) rfl
      have h2 : c ≠ '/' := ne_of_isAlphanum (isAlphanum_of_isAlpha hc) rfl
      simp [step, moveTo, hc, h1, h2]
    exact ⟨none, name.toList.reverse, isName_segment h, resolve_nameNode_none h,
      s.read_segment hfirst (hnext none) h⟩
  | @member object property text before after _ hp ih =>
    obtain ⟨o, run, hrun, ho, hr⟩ := ih
    let name : Node := nameNode o run
    have hspace : (s.moveTo (.tagName braces o run)).step ' ' =
        s.moveTo (.afterTagName braces name) := by
      simp [step, moveTo, isNameChar, isSpace, hrun, name]
    have hdot : (s.moveTo (.tagName braces o run)).step '.' = s.moveTo (.afterDot braces name) := by
      simp [step, moveTo, isNameChar, hrun, name]
    have hd := s.read_dot hspace rfl hdot rfl rfl before after
    have hfirst (c : Char) (hc : c.isAlpha = true) :
        (s.moveTo (.afterDot braces name)).step c = s.moveTo (.tagName braces (some name) [c]) := by
      simp [step, moveTo, isSpace_of_isAlpha hc, hc]
    have hl := s.read_segment hfirst (hnext (some name)) hp
    refine ⟨some name, property.toList.reverse, isName_segment hp, ?_, ?_⟩
    · rw [resolve_nameNode_some name hp, ho]
    · rw [read_append, List.append_assoc, read_append, hr, hd, hl]

theorem read_closingName {tag : String} {text : List Char} (h : NameText tag text) :
    ∃ run : List Char, isName run = true ∧
      (s.moveTo .closing).read text = s.moveTo (.closingName run) := by
  have hnext (c : Char) (run : List Char) (hc : c.isAlphanum = true) :
      (s.moveTo (.closingName run)).step c = s.moveTo (.closingName (c :: run)) := by
    simp [step, moveTo, isNameChar, hc]
  have hfirst (m : Mode) (hm : m = .closing ∨ m = .afterClosingDot) (c : Char)
      (hc : c.isAlpha = true) : (s.moveTo m).step c = s.moveTo (.closingName [c]) := by
    have h1 : c ≠ '>' := ne_of_isAlphanum (isAlphanum_of_isAlpha hc) rfl
    rcases hm with rfl | rfl <;> simp [step, moveTo, isSpace_of_isAlpha hc, hc, h1]
  induction h with
  | @segment name h =>
    exact ⟨name.toList.reverse, isName_segment h,
      s.read_segment (hfirst .closing (.inl rfl)) hnext h⟩
  | @member object property text before after _ hp ih =>
    obtain ⟨run, hrun, hr⟩ := ih
    have hspace : (s.moveTo (.closingName run)).step ' ' = s.moveTo .afterClosingName := by
      simp [step, moveTo, isNameChar, isSpace, hrun]
    have hdot : (s.moveTo (.closingName run)).step '.' = s.moveTo .afterClosingDot := by
      simp [step, moveTo, isNameChar, hrun]
    have hd := s.read_dot hspace rfl hdot rfl rfl before after
    have hl := s.read_segment (hfirst .afterClosingDot (.inr rfl)) hnext hp
    refine ⟨property.toList.reverse, isName_segment hp, ?_⟩
    rw [read_append, List.append_assoc, read_append, hr, hd, hl]

end Reader.State

open Reader

/-- A node that is read from the text of a tree. -/
structure ReadAs (n : Node) (t : Tree) : Prop where
  jsx : n.isJsx = true
  named : n.named = true
  shape : ∀ d, shape d n = t.plain.leveled d

theorem heldShape_parentheses {n : Node} {t : Tree} (h : ReadAs n t) (d parens : Nat) :
    heldShape d [Nat.repeat (fun n => branch .parenthesized [n]) parens n] =
      [t.plain.leveled (d + 1)] := by
  induction parens with
  | zero => rw [Nat.repeat, heldShape_jsx h.named h.jsx, h.shape]
  | succ parens ih =>
    rw [Nat.repeat, branch, nodeOf, heldShape]
    exact ih

/-- Braces and parentheses have no part in the tree. -/
theorem shapes_wrapped {n : Node} {t : Tree} (h : ReadAs n t) (braces : Braces) (d : Nat)
    (ns : List Node) :
    shapes d (wrapped braces n :: ns) = t.plain.leveled (d + 1) :: shapes d ns := by
  cases braces with
  | none => rw [wrapped, shapes_jsx h.named h.jsx, h.shape]
  | some parens =>
    have hh := heldShape_parentheses h d parens
    show heldShape d [Nat.repeat (fun n => branch .parenthesized [n]) parens n] ++ shapes d ns = _
    rw [hh]
    rfl

theorem readAs_leaf {name : Node} {tag : String} (h : resolve name = tag) (id : String)
    (depth : Option Nat) (attributes : Option Attributes) :
    ReadAs (branch .selfClosingElement [{ name with role := .name }])
      ⟨id, tag, [], depth, attributes⟩ := by
  refine ⟨rfl, rfl, fun d => ?_⟩
  have ht : tagOf (branch .selfClosingElement [{ name with role := .name }]) = tag := by
    simp [tagOf, branch, nodeOf, resolveRole, h]
  rw [shape_mk, ht]
  rfl

theorem readAs_pair (name : Option Node) {tag : String}
    (h : (name.map resolve).getD fragmentTag = tag) {ns : List Node} {children : List Tree}
    (hns : ∀ d, shapes d ns = leveledAll (d + 1) (plainAll children)) (id : String)
    (depth : Option Nat) (attributes : Option Attributes) :
    ReadAs (branch .element (State.openingNode name :: ns)) ⟨id, tag, children, depth, attributes⟩ := by
  refine ⟨rfl, rfl, fun d => ?_⟩
  have ht : tagOf (branch .element (State.openingNode name :: ns)) = tag := by
    rw [← h]
    cases name <;> simp [tagOf, branch, nodeOf, State.openingNode, resolveRole]
  have hs : shapes d (State.openingNode name :: ns) = leveledAll (d + 1) (plainAll children) :=
    hns d
  rw [shape_mk, ht]
  exact congrArg (fun ts => (⟨"", tag, ts, some d, none⟩ : Tree)) hs

namespace Reader.State

variable (s : State)

def hold (ns : List Node) : State :=
  match s.frames with
  | [] => s
  | f :: fs => { s with frames := { f with children := ns.reverse ++ f.children } :: fs }

@[simp] theorem hold_nil : s.hold [] = s := by
  obtain ⟨m, _ | ⟨f, fs⟩, roots⟩ := s <;> rfl

theorem hold_append (ms ns : List Node) : s.hold (ms ++ ns) = (s.hold ms).hold ns := by
  obtain ⟨m, _ | ⟨f, fs⟩, roots⟩ := s
  · rfl
  · simp [hold]

theorem frames_hold {ns : List Node} (h : s.frames ≠ []) : (s.hold ns).frames ≠ [] := by
  obtain ⟨m, _ | ⟨f, fs⟩, roots⟩ := s
  · exact absurd rfl h
  · simp [hold]

theorem place_moveTo (m : Mode) (braces : Braces) (n : Node) :
    (s.moveTo m).place braces n = s.place braces n := by
  obtain ⟨mode, _ | ⟨f, fs⟩, roots⟩ := s <;> rfl

theorem place_nested (h : s.frames ≠ []) (braces : Braces) (n : Node) :
    s.place braces n = (s.hold [wrapped braces n]).moveTo
      (match braces with
        | none => .content
        | some parens => .afterHeld parens) := by
  obtain ⟨m, _ | ⟨f, fs⟩, roots⟩ := s
  · exact absurd rfl h
  · rfl

theorem leave_enter (braces : Braces) (name : Option Node) (ns : List Node) (m : Mode) :
    (((s.enter braces name).hold ns).moveTo m).leave =
      s.place braces (branch .element (openingNode name :: ns)) := by
  have h : (((s.enter braces name).hold ns).moveTo m).leave =
      (s.moveTo m).place braces (branch .element (openingNode name :: (ns.reverse ++ []).reverse)) :=
    rfl
  rw [h, place_moveTo, List.append_nil, List.reverse_reverse]

theorem read_openingTag (braces : Braces) {tag : String} {text : List Char} (h : NameText tag text) :
    ∃ name, resolve name = tag ∧
      (s.moveTo (.opening braces)).read (text ++ ['>']) = s.enter braces (some name) := by
  obtain ⟨object, run, hrun, htag, hr⟩ := s.read_openingName braces h
  have he : (s.moveTo (.tagName braces object run)).step '>' =
      s.enter braces (some (nameNode object run)) := by
    simp [step, moveTo, isNameChar, isSpace, hrun, inOpening, enter]
  refine ⟨nameNode object run, htag, ?_⟩
  rw [read_append, hr, read_cons, he, read_nil]

theorem read_leafTag (braces : Braces) {tag : String} {text : List Char} (h : NameText tag text) :
    ∃ name, resolve name = tag ∧
      (s.moveTo (.opening braces)).read (text ++ ['/', '>']) =
        s.place braces (branch .selfClosingElement [{ name with role := .name }]) := by
  obtain ⟨object, run, hrun, htag, hr⟩ := s.read_openingName braces h
  let name : Node := nameNode object run
  have hs : (s.moveTo (.tagName braces object run)).step '/' = s.moveTo (.slash braces name) := by
    simp [step, moveTo, isNameChar, isSpace, hrun, inOpening, name]
  have he : (s.moveTo (.slash braces name)).step '>' =
      (s.moveTo (.slash braces name)).place braces
        (branch .selfClosingElement [{ name with role := .name }]) := rfl
  refine ⟨name, htag, ?_⟩
  rw [read_append, hr, read_cons, hs, read_cons, he, place_moveTo, read_nil]

theorem read_closing (h : s.frames ≠ []) :
    (s.moveTo .content).read ['<', '/'] = s.moveTo .closing := by
  obtain ⟨m, _ | ⟨f, fs⟩, roots⟩ := s
  · exact absurd rfl h
  · rfl

theorem read_closingTag (h : s.frames ≠ []) {tag : String} {text : List Char}
    (ht : NameText tag text) :
    ∃ m, (s.moveTo .content).read ('<' :: '/' :: (text ++ ['>'])) = (s.moveTo m).leave := by
  obtain ⟨run, hrun, hr⟩ := s.read_closingName ht
  have he : (s.moveTo (.closingName run)).step '>' = (s.moveTo (.closingName run)).leave := by
    simp [step, moveTo, isNameChar, hrun]
  refine ⟨.closingName run, ?_⟩
  show (s.moveTo .content).read (['<', '/'] ++ (text ++ ['>'])) = _
  rw [read_append, s.read_closing h, read_append, hr, read_cons, he, read_nil]

theorem read_closingFragment (h : s.frames ≠ []) :
    (s.moveTo .content).read ['<', '/', '>'] = (s.moveTo .closing).leave := by
  show (s.moveTo .content).read (['<', '/'] ++ ['>']) = _
  rw [read_append, s.read_closing h]
  rfl

theorem read_parentheses (opened parens : Nat) :
    (s.moveTo (.brace opened)).read (List.replicate parens '(') =
      s.moveTo (.brace (opened + parens)) := by
  induction parens generalizing opened with
  | zero => rfl
  | succ parens ih =>
    have h1 : (s.moveTo (.brace opened)).step '(' = s.moveTo (.brace (opened + 1)) := rfl
    rw [List.replicate_succ, read_cons, h1, ih]
    congr 2
    omega

theorem read_closingParentheses (parens : Nat) :
    (s.moveTo (.afterHeld parens)).read (List.replicate parens ')') = s.moveTo (.afterHeld 0) := by
  induction parens with
  | zero => rfl
  | succ parens ih => exact ih

theorem read_text {text : List Char} (h : IsPlainText text) :
    (s.moveTo .content).read text = s.moveTo .content := by
  apply foldl_same _ h
  intro c hc
  have h1 : c ≠ '<' := ne_of_plain hc rfl (by decide)
  have h2 : c ≠ '\x7b' := ne_of_plain hc rfl (by decide)
  have h3 : (isSpace c || c.isAlphanum) = true := by
    rcases hc with hc | rfl
    · simp [hc]
    · rfl
  simp [step, moveTo, h1, h2, h3]

end Reader.State

end MarkupNesting.Jsx
