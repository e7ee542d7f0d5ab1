import MarkupNesting.Html.Reader
import MarkupNesting.Proofs.LowerCase

/-! Reading a document in lower case. The reader decides by the lower case of every character, so of
a text in lower case it makes the same nodes, with the texts in them in lower case. -/

namespace MarkupNesting.Html

theorem isSpace_toLower (c : Char) : TagScanner.isSpace c.toLower = TagScanner.isSpace c := by
  apply apply_toLower (b := false)
  intro c hc
  rw [isAlpha_iff] at hc
  simp [TagScanner.isSpace, Char.le_def, UInt32.le_iff_toNat_le, Char.ext_iff, ← UInt32.toNat_inj]
  omega

theorem isNameChar_toLower (c : Char) : TagScanner.isNameChar c.toLower = TagScanner.isNameChar c := by
  apply apply_toLower (b := true)
  intro c hc
  simp [TagScanner.isNameChar, Char.isAlphanum, hc]

namespace Node

mutual

/-- A node with all its texts in lower case. -/
def lowered : Node → Node
  | ⟨kind, text, children⟩ => ⟨kind, lower text, loweredAll children⟩

def loweredAll : List Node → List Node
  | [] => []
  | n :: ns => n.lowered :: loweredAll ns

end

theorem loweredAll_eq_map (ns : List Node) : loweredAll ns = ns.map lowered := by
  induction ns with
  | nil => rfl
  | cons n ns ih => rw [loweredAll, ih, List.map_cons]

@[simp] theorem lowered_mk (kind : Kind) (text : String) (children : List Node) :
    lowered ⟨kind, text, children⟩ = ⟨kind, lower text, children.map lowered⟩ := by
  rw [lowered, loweredAll_eq_map]

@[simp] theorem lowered_leaf (kind : Kind) (text : String) :
    (leaf kind text).lowered = leaf kind (lower text) := rfl

@[simp] theorem lowered_branch (kind : Kind) (ns : List Node) :
    (branch kind ns).lowered = branch kind (ns.map lowered) := by
  simp [branch, lower]

end Node

namespace Reader

def lowerRun (run : List Char) : List Char := run.map Char.toLower

@[simp] theorem lowerRun_nil : lowerRun [] = [] := rfl

@[simp] theorem lowerRun_cons (c : Char) (run : List Char) :
    lowerRun (c :: run) = c.toLower :: lowerRun run := rfl

@[simp] theorem lowerRun_lowerRun (run : List Char) : lowerRun (lowerRun run) = lowerRun run := by
  simp [lowerRun]

@[simp] theorem lower_ofRun (run : List Char) : lower (ofRun run) = ofRun (lowerRun run) := by
  simp [ofRun, lowerRun, lower_ofList]

theorem dropWhile_lowerRun (run : List Char) :
    (lowerRun run).dropWhile TagScanner.isSpace = lowerRun (run.dropWhile TagScanner.isSpace) := by
  simp [lowerRun, List.dropWhile_map, Function.comp_def, isSpace_toLower]

def Tag.lowered (t : Tag) : Tag := ⟨lower t.name, t.attributes.map Node.lowered⟩

def Mode.lowered : Mode → Mode
  | .text run => .text (lowerRun run)
  | .endName run => .endName (lowerRun run)
  | .startName run => .startName (lowerRun run)
  | .inTag tag => .inTag tag.lowered
  | .attributeName tag run => .attributeName tag.lowered (lowerRun run)
  | .afterName tag name => .afterName tag.lowered name.lowered
  | .beforeValue tag name => .beforeValue tag.lowered name.lowered
  | .bareValue tag name run => .bareValue tag.lowered name.lowered (lowerRun run)
  | .quoted tag name quote blank run => .quoted tag.lowered name.lowered quote blank (lowerRun run)
  | .slash tag => .slash tag.lowered
  | m => m

/-- The name of a frame is in lower case already. -/
def Frame.lowered (f : Frame) : Frame := ⟨f.name, f.kind, f.tag.lowered, f.children.map Node.lowered⟩

def State.lowered (s : State) : State :=
  ⟨s.mode.lowered, s.frames.map Frame.lowered, s.outer.map Node.lowered⟩

@[simp] theorem Frame.lowered_name (f : Frame) : f.lowered.name = f.name := rfl

@[simp] theorem Frame.node_lowered (f : Frame) : f.lowered.node = f.node.lowered := by
  simp [Frame.node, Frame.lowered]

@[simp] theorem Tag.lowered_add (t : Tag) (n : Node) : (t.add n).lowered = t.lowered.add n.lowered := rfl

@[simp] theorem nameNode_lowerRun (run : List Char) :
    nameNode (lowerRun run) = (nameNode run).lowered := by
  simp [nameNode]

@[simp] theorem valueNode_lowerRun (run : List Char) :
    valueNode (lowerRun run) = (valueNode run).lowered := by
  simp [valueNode]

@[simp] theorem bare_lowered (n : Node) : bare n.lowered = (bare n).lowered := by
  simp [bare]

@[simp] theorem quotedNode_lowerRun (run : List Char) :
    quotedNode (lowerRun run) = (quotedNode run).lowered := by
  cases run with
  | nil => rfl
  | cons c run =>
    have h := valueNode_lowerRun (c :: run)
    rw [lowerRun_cons] at h
    simp [quotedNode, h]

namespace State

theorem lowered_addTo (n : Node) (fs : List Frame) (outer : List Node) :
    addTo n.lowered (fs.map Frame.lowered) (outer.map Node.lowered) =
      ((addTo n fs outer).1.map Frame.lowered, (addTo n fs outer).2.map Node.lowered) := by
  cases fs <;> simp [addTo, Frame.lowered]

theorem lowered_closeFrames (p : String → Bool) (carried : List Node) (fs : List Frame)
    (outer : List Node) :
    closeFrames p (carried.map Node.lowered) (fs.map Frame.lowered) (outer.map Node.lowered) =
      ((closeFrames p carried fs outer).1.map Frame.lowered,
        (closeFrames p carried fs outer).2.map Node.lowered) := by
  induction fs generalizing carried with
  | nil => simp [closeFrames]
  | cons f fs ih =>
    let g : Frame := { f with children := carried ++ f.children }
    have hg : { f.lowered with children := carried.map Node.lowered ++ f.lowered.children } =
        g.lowered := by
      simp [g, Frame.lowered]
    have hn := ih [g.node]
    rw [List.map_cons, closeFrames, hg, closeFrames]
    cases hp : p f.name with
    | true => simpa [hp, g] using hn
    | false => simp [hp, g]

theorem lowered_endFrames (name : String) (carried : List Node) (fs : List Frame)
    (outer : List Node) :
    endFrames name (carried.map Node.lowered) (fs.map Frame.lowered) (outer.map Node.lowered) =
      (endFrames name carried fs outer).map fun r =>
        (r.1.map Frame.lowered, r.2.map Node.lowered) := by
  induction fs generalizing carried with
  | nil => rfl
  | cons f fs ih =>
    let g : Frame := { f with children := carried ++ f.children }
    have hg : { f.lowered with children := carried.map Node.lowered ++ f.lowered.children } =
        g.lowered := by
      simp [g, Frame.lowered]
    have hn := ih [g.node]
    have ha := lowered_addTo g.node fs outer
    have hany : (g.lowered :: fs.map Frame.lowered).any
        (fun h => familyOf h.name == familyOf name) =
        (g :: fs).any fun h => familyOf h.name == familyOf name := by
      simp [Function.comp_def]
    rw [List.map_cons, endFrames, hg, endFrames]
    by_cases hname : f.name = name
    · simpa [hname, g] using ha
    · cases hf : (g :: fs).any fun h => familyOf h.name == familyOf name with
      | true => simpa [hname, hany, hf, g] using hn
      | false => simp [hname, hany, hf, g]

variable (s : State)

@[simp] theorem lowered_mode : s.lowered.mode = s.mode.lowered := rfl

@[simp] theorem mode_moveTo (m : Mode) : (s.moveTo m).mode = m := rfl

@[simp] theorem lowered_moveTo (m : Mode) : (s.moveTo m).lowered = s.lowered.moveTo m.lowered := rfl

@[simp] theorem lowered_fail : s.fail.lowered = s.lowered.fail := rfl

@[simp] theorem lowered_add (n : Node) : (s.add n).lowered = s.lowered.add n.lowered := by
  have h := lowered_addTo n s.frames s.outer
  simp [add, lowered, h]

@[simp] theorem lowered_addText (run : List Char) :
    (s.addText run).lowered = s.lowered.addText (lowerRun run) := by
  simp [addText, dropWhile_lowerRun]

@[simp] theorem lowered_closeWhile (p : String → Bool) :
    (s.closeWhile p).lowered = s.lowered.closeWhile p := by
  have h := lowered_closeFrames p [] s.frames s.outer
  simp only [List.map_nil] at h
  simp [closeWhile, lowered, h]

@[simp] theorem lowered_makeRoom (name : String) :
    (s.makeRoom name).lowered = s.lowered.makeRoom name := lowered_closeWhile s _

@[simp] theorem hasRoom_lowered (name : String) : s.lowered.hasRoom name = s.hasRoom name := by
  simp [hasRoom, lowered, Function.comp_def]

@[simp] theorem tagNode_lowered (kind : Kind) (t : Tag) :
    tagNode kind t.lowered = (tagNode kind t).lowered := by
  simp [tagNode, Tag.lowered]

@[simp] theorem lowered_openElement (t : Tag) :
    (s.openElement t).lowered = s.lowered.openElement t.lowered := by
  have hname : lower t.lowered.name = lower t.name := lower_lower t.name
  have hroom := hasRoom_lowered (s.makeRoom (lower t.name)) (lower t.name)
  rw [lowered_makeRoom] at hroom
  simp only [openElement, hname, hroom]
  split
  · simp
  · have hmode : ∀ k : Kind, ∀ raw rest : List Char,
        (if k = .element then Mode.content else .raw raw rest).lowered =
          if k = .element then Mode.content else .raw raw rest := by
      intro k raw rest
      split <;> rfl
    rw [← lowered_makeRoom]
    simp [lowered, hmode, Frame.lowered]

@[simp] theorem lowered_addClosed (t : Tag) :
    (s.addClosed t).lowered = s.lowered.addClosed t.lowered := by
  have hname : lower t.lowered.name = lower t.name := lower_lower t.name
  have hroom := hasRoom_lowered (s.makeRoom (lower t.name)) (lower t.name)
  rw [lowered_makeRoom] at hroom
  simp only [addClosed, hname, hroom]
  split
  · simp
  · simp [Mode.lowered]

@[simp] theorem lowered_closeElement (name : String) :
    (s.closeElement name).lowered = s.lowered.closeElement name := by
  have h : endFrames name [] s.lowered.frames s.lowered.outer = _ :=
    lowered_endFrames name [] s.frames s.outer
  rw [closeElement, closeElement, h]
  cases endFrames name [] s.frames s.outer with
  | none => rfl
  | some r => rfl

theorem lowered_inContent (d c : Char) :
    (s.inContent d c).lowered = s.lowered.inContent d c.toLower := by
  simp only [inContent]
  split_ifs <;> rfl

theorem lowered_inReference (p : Char → Bool) {next : Nat → Mode} (hn : ∀ n, (next n).lowered = next n)
    (more : Nat) (d c : Char) :
    (s.inReference p next more d c).lowered = s.lowered.inReference p next more d c.toLower := by
  simp only [inReference]
  split
  · rfl
  · cases more with
    | zero => exact lowered_inContent s d c
    | succ n =>
      dsimp only
      split
      · rw [lowered_moveTo, hn]
      · exact lowered_inContent s d c

@[simp] theorem lowered_betweenAttributes (tag : Tag) (d c : Char) :
    (s.betweenAttributes tag d c).lowered = s.lowered.betweenAttributes tag.lowered d c.toLower := by
  simp only [betweenAttributes]
  split
  · rfl
  · split
    · exact lowered_openElement s tag
    · split_ifs <;> rfl

/-- One character: its lower case decides, and what it adds to a run is in lower case. -/
theorem lowered_advance (d c : Char) : (s.advance d c).lowered = s.lowered.advance d c.toLower := by
  by_cases hz : d = '\x00'
  · simp [advance, hz]
  simp only [advance, hz, ↓reduceIte, lowered_mode]
  cases hm : s.mode with
  | failed => rfl
  | content => exact lowered_inContent s d c
  | letters more => exact lowered_inReference s _ (fun _ => rfl) more d c
  | decimal more => exact lowered_inReference s _ (fun _ => rfl) more d c
  | hex more => exact lowered_inReference s _ (fun _ => rfl) more d c
  | inTag tag => exact lowered_betweenAttributes s tag d c
  | startName run =>
    simp only [Mode.lowered]
    split_ifs <;> simp [Mode.lowered, Tag.lowered]
  | doctype rest | raw name rest =>
    cases rest with
    | nil => rfl
    | cons x more =>
      simp only [Mode.lowered]
      split_ifs <;> rfl
  | text | reference | number | hexStart | opening | declaration | commentStart | comment
  | doctypeGap | doctypeRest | endOpening | endName | endGap | attributeName | afterName
  | beforeValue | bareValue | quoted | slash =>
    simp only [Mode.lowered]
    split_ifs <;> simp [Mode.lowered]

theorem lowered_step (c : Char) : (s.step c).lowered = s.lowered.step c.toLower := by
  rw [step, lowered_advance, step, toLower_toLower]

theorem lowered_foldl_step (cs : List Char) :
    (cs.foldl step s).lowered = (cs.map Char.toLower).foldl step s.lowered := by
  induction cs generalizing s with
  | nil => rfl
  | cons c cs ih => rw [List.foldl_cons, ih, lowered_step, List.map_cons, List.foldl_cons]

/-- The document of what has been read, if the end of the text ends all that is open. -/
theorem lowered_closed (p : String → Bool) (t : State) :
    (if (t.lowered.closeWhile p).frames.isEmpty then
        some (Node.branch .document (t.lowered.closeWhile p).outer.reverse) else none) =
      (if (t.closeWhile p).frames.isEmpty then
        some (Node.branch .document (t.closeWhile p).outer.reverse) else none).map Node.lowered := by
  rw [← lowered_closeWhile]
  cases hf : (t.closeWhile p).frames <;> simp [lowered, hf]

theorem lowered_finish : s.lowered.finish = s.finish.map Node.lowered := by
  cases hm : s.mode with
  | content | letters | decimal | hex =>
    have h := lowered_closed (fun name => isVoid name || endsAtEnd name) (s.moveTo .content)
    simpa [finish, hm, Mode.lowered] using h
  | text run =>
    have h := lowered_closed (fun name => isVoid name || endsAtEnd name)
      ((s.addText run).moveTo .content)
    simpa [finish, hm, Mode.lowered] using h
  | _ => simp [finish, hm, Mode.lowered, fail, moveTo]

end State

end Reader

open Reader in
/-- A document in lower case is read as the same document with its texts in lower case. -/
theorem readDocument_lower (source : String) :
    readDocument (lower source) = (readDocument source).map Node.lowered := by
  have h := State.lowered_foldl_step State.start source.toList
  rw [readDocument, toList_lower, readDocument, ← State.lowered_finish, h]
  rfl

end MarkupNesting.Html
