import MarkupNesting.Jsx.Parse
import MarkupNesting.Proofs.Jsx.Reading

/-! Modules written out in full are read back as the trees that they were written from, under both
grammars, however their names are spaced and whatever braces and parentheses stand around elements. -/

namespace MarkupNesting.Jsx

open Reader Reader.State MarkupNesting.Tree

mutual

/-- Reading the text of a tree places its node, as an element in braces if it was begun in them. -/
theorem read_element {t : Tree} {cs : List Char} : Element t cs → ∀ (s : State) {m : Mode}
    {braces : Braces}, (s.moveTo m).step '<' = s.moveTo (.opening braces) →
    ∃ n, ReadAs n t ∧ (s.moveTo m).read cs = s.place braces n
  | .leaf hname => by
    intro s m braces hm
    obtain ⟨node, htag, hr⟩ := s.read_leafTag braces hname
    refine ⟨_, readAs_leaf htag _ _ _, ?_⟩
    rw [read_cons, hm, hr]
  | @Element.pair _ _ _ inner _ _ _ _ hopen hinner hclose => by
    intro s m braces hm
    obtain ⟨node, htag, h1⟩ := s.read_openingTag braces hopen
    let inside : State := s.enter braces (some node)
    obtain ⟨ns, hns, h2⟩ := read_content hinner inside (by simp [inside, enter])
    obtain ⟨n, h3⟩ := (inside.hold ns).read_closingTag
      (frames_hold inside (by simp [inside, enter])) hclose
    refine ⟨_, readAs_pair (some node) htag hns _ _ _, ?_⟩
    have h4 : inside.read inner = (inside.hold ns).moveTo .content := h2
    rw [read_cons, hm, ← List.singleton_append, ← List.append_assoc, read_append, h1, read_append, h4,
      h3, leave_enter]
  | @Element.fragment _ inner _ _ _ hinner => by
    intro s m braces hm
    let inside : State := s.enter braces none
    obtain ⟨ns, hns, h2⟩ := read_content hinner inside (by simp [inside, enter])
    have h3 := (inside.hold ns).read_closingFragment (frames_hold inside (by simp [inside, enter]))
    have h1 : (s.moveTo (.opening braces)).step '>' = inside := rfl
    have h4 : inside.read inner = (inside.hold ns).moveTo .content := h2
    refine ⟨_, readAs_pair none rfl hns _ _ _, ?_⟩
    rw [read_cons, hm, read_cons, h1, read_append, h4, h3, leave_enter]

theorem read_content {ts : List Tree} {cs : List Char} : Content ts cs → ∀ s : State,
    s.frames ≠ [] →
    ∃ ns, (∀ d, shapes d ns = leveledAll (d + 1) (plainAll ts)) ∧
      (s.moveTo .content).read cs = (s.hold ns).moveTo .content
  | .text htext => by
    intro s _
    refine ⟨[], fun d => rfl, ?_⟩
    rw [s.read_text htext, hold_nil]
  | .child htext ht hrest => by
    intro s hs
    obtain ⟨n, hn, h1⟩ := read_element ht s (m := .content) rfl
    obtain ⟨ns, hns, h2⟩ := read_content hrest (s.hold [n]) (s.frames_hold hs)
    refine ⟨n :: ns, fun d => ?_, ?_⟩
    · rw [shapes_jsx hn.named hn.jsx, hn.shape, hns]
      rfl
    · have h3 := s.place_nested hs none n
      rw [read_append, read_append, s.read_text htext, h1, h3, wrapped, h2, ← hold_append]
      rfl
  | .held parens htext ht hrest => by
    intro s hs
    obtain ⟨n, hn, h1⟩ := read_element ht s (m := .brace parens) rfl
    let node : Node := wrapped (some parens) n
    obtain ⟨ns, hns, hr⟩ := read_content hrest (s.hold [node]) (s.frames_hold hs)
    refine ⟨node :: ns, fun d => ?_, ?_⟩
    · rw [shapes_wrapped hn, hns]
      rfl
    · have h2 : (s.moveTo .content).step '\x7b' = s.moveTo (.brace 0) := rfl
      have h3 := s.read_parentheses 0 parens
      have h4 := s.place_nested hs (some parens) n
      have h5 := (s.hold [node]).read_closingParentheses parens
      have h6 : ((s.hold [node]).moveTo (.afterHeld 0)).step '\x7d' =
        (s.hold [node]).moveTo .content := rfl
      rw [Nat.zero_add] at h3
      simp only [read_append, read_cons, s.read_text htext, h2, h3, h1, h4]
      rw [h5, h6, hr, ← hold_append]
      rfl

end

theorem read_constant {name : String} (h : IsConstant name) (roots : List Node) :
    read ⟨.constant [], [], roots⟩ (name.toList ++ [' ']) = ⟨.afterConstant, [], roots⟩ := by
  obtain ⟨hne, halpha, hname⟩ := h
  let collected (run : List Char) : State := ⟨.constant run, [], roots⟩
  have hnext (c : Char) (run : List Char) (hc : c.isAlpha = true) :
      (collected run).step c = collected (c :: run) := by
    simp [collected, step, moveTo, hc]
  have hr : (collected []).read name.toList = collected (name.toList.reverse ++ []) :=
    foldl_run collected hnext halpha []
  have hs : (collected name.toList.reverse).step ' ' = ⟨.afterConstant, [], roots⟩ := by
    simp [collected, step, moveTo, isName, isSpace, hname, hne]
  rw [read_append, hr, List.append_nil, read_cons, hs, read_nil]

theorem read_declaration {t : Tree} {line : List Char} (h : Declaration t line)
    (roots : List Node) :
    ∃ n, ReadAs n t ∧ read ⟨.between, [], roots⟩ line = ⟨.between, [], n :: roots⟩ := by
  obtain @⟨name, element, t, hname, ht⟩ := h
  have h1 : read ⟨.between, [], roots⟩ "const ".toList = ⟨.constant [], [], roots⟩ := rfl
  have h2 := read_constant hname roots
  have h3 : read ⟨.afterConstant, [], roots⟩ ['=', ' '] = ⟨.beforeValue, [], roots⟩ := rfl
  let value : State := ⟨.beforeValue, [], roots⟩
  obtain ⟨n, hn, hr⟩ := read_element ht value (m := .beforeValue) rfl
  have h4 : value.read element = value.place none n := hr
  have h5 : (value.place none n).read [';'] = ⟨.between, [], n :: roots⟩ := rfl
  have hline : "const ".toList ++ name.toList ++ " = ".toList ++ element ++ [';'] =
      "const ".toList ++ ((name.toList ++ [' ']) ++ (['=', ' '] ++ (element ++ [';']))) := by
    have hs : " = ".toList = [' '] ++ ['=', ' '] := rfl
    simp only [hs, List.append_assoc]
  refine ⟨n, hn, ?_⟩
  rw [hline, read_append, h1, read_append, h2, read_append, h3, read_append, h4, h5]

structure ReadAllAs (ns : List Node) (ts : List Tree) : Prop where
  jsx : ∀ n ∈ ns, n.isJsx = true
  shapes : ∀ d, ns.map (shape d) = leveledAll d (plainAll ts)

theorem read_written {ts : List Tree} {cs : List Char} (h : Written ts cs) (roots : List Node) :
    ∃ ns, ReadAllAs ns ts ∧
      read ⟨.between, [], roots⟩ cs = ⟨.between, [], ns.reverse ++ roots⟩ := by
  induction h generalizing roots with
  | none => exact ⟨[], ⟨by simp, fun d => rfl⟩, rfl⟩
  | last ht =>
    obtain ⟨n, hn, hr⟩ := read_declaration ht roots
    refine ⟨[n], ⟨by simp [hn.jsx], fun d => ?_⟩, hr⟩
    rw [List.map_singleton, hn.shape]
    rfl
  | line ht _ ih =>
    obtain ⟨n, hn, h1⟩ := read_declaration ht roots
    obtain ⟨ns, hns, h2⟩ := ih (n :: roots)
    refine ⟨n :: ns, ⟨List.forall_mem_cons.mpr ⟨hn.jsx, hns.jsx⟩, fun d => ?_⟩, ?_⟩
    · rw [List.map_cons, hn.shape, hns.shapes]
      rfl
    · have h3 : step ⟨.between, [], n :: roots⟩ '\n' = ⟨.between, [], n :: roots⟩ := rfl
      rw [read_append, h1, read_cons, h3, h2]
      simp

theorem readModule_written {ts : List Tree} {source : String} (h : Written ts source.toList) :
    ∃ ns, ReadAllAs ns ts ∧ readModule source = some (branch .other ns) := by
  obtain ⟨ns, hns, hr⟩ := read_written h []
  refine ⟨ns, hns, ?_⟩
  have hm : readModule source = (start.read source.toList).finish := rfl
  have hs : start.read source.toList = ⟨.between, [], ns.reverse ++ []⟩ := hr
  rw [hm, hs]
  simp [finish]

theorem parse_eq_treeOf {ts : List Tree} {source : String} (h : Written ts source.toList)
    (typed : Bool) :
    ∃ top, parse typed source = treeOf top ∧
      ∀ d, (outermost top).map (shape d) = leveledAll d (plainAll ts) := by
  obtain ⟨ns, hns, hm⟩ := readModule_written h
  refine ⟨branch .other ns, ?_, fun d => ?_⟩
  · rw [parse, moduleOf, hm]
  · have ho : outermost (branch .other ns) = outermostAll ns := rfl
    rw [ho, outermostAll_jsx hns.jsx]
    exact hns.shapes d

/-- What a module is written from is what it is read as, with types or without: one tree as it is,
several under a common root, each with its own levels recorded, and the nodes named anew. -/
theorem parse_declarations {ts : List Tree} {source : String} (h : Written ts source.toList)
    (ht : ∀ t ∈ ts, t.height ≤ nestingLimit) (typed : Bool) :
    (∀ t, ts = [t] → parse typed source = .ok ((t.plain.leveled 0).named 0)) ∧
      (2 ≤ ts.length → parse typed source =
        .ok ((⟨"", rootTag, leveledAll 0 (plainAll ts), some 0, none⟩ : Tree).named 0)) := by
  obtain ⟨top, hp, hs⟩ := parse_eq_treeOf h typed
  have hdeep : ∀ t ∈ ts, (t.plain.leveled 0).deepest ≤ nestingLimit := by
    intro t htt
    have hh := ht t htt
    rw [deepest_leveled, height_plain]
    omega
  constructor
  · rintro t rfl
    obtain ⟨n, hr, hn⟩ := List.map_eq_singleton_iff.mp (hs 0)
    rw [hp, treeOf_single hr, Builder.run'_give, hn, if_pos (hdeep t (by simp))]
  · intro hl
    have hlen : 2 ≤ (outermost top).length := by
      have he := congrArg List.length (hs 0)
      simp only [leveledAll_eq_map, plainAll_eq_map, List.length_map] at he
      omega
    have hall : deepestAll (leveledAll 0 (plainAll ts)) ≤ nestingLimit := by
      apply deepestAll_le
      intro u hu
      rw [leveledAll_eq_map, plainAll_eq_map, List.map_map] at hu
      obtain ⟨t, htt, rfl⟩ := List.mem_map.mp hu
      exact hdeep t htt
    have hroot : (⟨"", rootTag, leveledAll 0 (plainAll ts), some 0, none⟩ : Tree).deepest ≤
      nestingLimit := Nat.max_le.mpr ⟨Nat.zero_le _, hall⟩
    rw [hp, treeOf_several hlen, Builder.run'_give, hs 0, if_pos hroot]

/-- A menu item, alone and before another element: a name with a space at its dot, an element in
parentheses, and a fragment. -/
theorem parse_declarations_menu :
    let leaf : Tree := ⟨"", "X", [], none, none⟩
    let item : Tree := ⟨"", "Menu.Item", [leaf, ⟨"", fragmentTag, [], none, none⟩], none, none⟩
    let source := "const v = <Menu .Item>a 1{(<X/>)}<>b</></Menu.Item>;"
    (Written [item] source.toList ∧ (∀ t ∈ [item], t.height ≤ nestingLimit) ∧
        parse true source = .ok ((item.plain.leveled 0).named 0)) ∧
      (Written [item, leaf] (source ++ "\nconst w = <X></X>;\n").toList ∧
        (∀ t ∈ [item, leaf], t.height ≤ nestingLimit) ∧ 2 ≤ [item, leaf].length ∧
        parse false (source ++ "\nconst w = <X></X>;\n") =
          .ok ((⟨"", rootTag, leveledAll 0 (plainAll [item, leaf]), some 0, none⟩ : Tree).named 0)) := by
  intro leaf item source
  have hx : NameText "X" ['X'] := .segment ⟨'X', [], rfl, rfl, by simp⟩
  have hmenu : NameText "Menu" "Menu".toList :=
    .segment ⟨'M', "enu".toList, rfl, rfl, List.all_eq_true.mp rfl⟩
  have hitem : IsSegment "Item" := ⟨'I', "tem".toList, rfl, rfl, List.all_eq_true.mp rfl⟩
  have hdotted : "Menu" ++ "." ++ "Item" = item.tag := by decide
  have hname (before : Nat) := hdotted ▸ NameText.member before 0 hmenu hitem
  have hnone : IsPlainText [] := by decide
  have htext : IsPlainText "a 1".toList := by decide
  have hb : IsPlainText ['b'] := by decide
  have hfragment : Element ⟨"", fragmentTag, [], none, none⟩ "<>b</>".toList :=
    .fragment (.text hb)
  have hinner : Content item.children "a 1{(<X/>)}<>b</>".toList :=
    .held 1 htext (.leaf hx) (.child hnone hfragment (.text hnone))
  have hv : IsConstant "v" := by decide
  have hw : IsConstant "w" := by decide
  have helement : Element item "<Menu .Item>a 1{(<X/>)}<>b</></Menu.Item>".toList :=
    .pair (hname 1) hinner (hname 0)
  have hsource : source.toList = "const ".toList ++ "v".toList ++ " = ".toList ++
    "<Menu .Item>a 1{(<X/>)}<>b</></Menu.Item>".toList ++ [';'] := by cbv
  have hline : Declaration item source.toList := hsource ▸ .constant hv helement
  have hlast : Declaration leaf "const w = <X></X>;".toList :=
    .constant hw (.pair hx (.text hnone) hx)
  have h1 : Written [item] source.toList := .last hline
  have h2 : Written [item, leaf] (source ++ "\nconst w = <X></X>;\n").toList := by
    rw [String.toList_append]
    exact .line hline (.line hlast .none)
  have hd : ∀ t ∈ [item, leaf], t.height ≤ nestingLimit := by decide
  exact ⟨⟨h1, by decide, (parse_declarations h1 (by decide) true).1 item rfl⟩,
    h2, hd, by decide, (parse_declarations h2 hd false).2 (by decide)⟩

end MarkupNesting.Jsx
