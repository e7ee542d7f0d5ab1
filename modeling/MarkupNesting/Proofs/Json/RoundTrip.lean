import MarkupNesting.Codec
import MarkupNesting.Proofs.AttributeMaps
import MarkupNesting.Proofs.Json.Reading
import MarkupNesting.Proofs.Naming

/-! The values of an analysis written as JSON and read back. Decoding undoes encoding, and the texts
of the encoded values are read as these; so every value comes back whose numbers fit their fields. -/

namespace MarkupNesting

open Binary64

/-- Every recorded depth fits. -/
def Tree.Fits (t : Tree) : Prop := t.deepest < twoTo widths.general

/-- The counts fit, and the average has two decimal places. -/
structure Statistics.Fits (s : Statistics) : Prop where
  maxDepth : s.maxDepth < twoTo widths.general
  totalNodes : s.totalNodes < twoTo widths.general
  depthSum : s.depthSum < twoTo widths.general
  averageDepth : ∃ k < hundredthsLimit, s.averageDepth = nearest k 100

def Suggestion.Fits (s : Suggestion) : Prop := s.reduction < twoTo widths.general

structure Advice.Fits (a : Advice) : Prop where
  suggestions : ∀ s ∈ a.suggestions, s.Fits
  estimatedReduction : a.estimatedReduction < twoTo widths.percentage
  originalDepth : a.originalDepth < twoTo widths.general
  optimizedDepth : a.optimizedDepth < twoTo widths.general

structure Analysis.Fits (a : Analysis) : Prop where
  tree : a.tree.Fits
  statistics : a.statistics.Fits
  advice : a.advice.Fits

def Response.Fits (r : Response) : Prop := ∀ a, r.result = some a → a.Fits

namespace Json

variable {p : Json → Prop}

theorem eachNumberIn_iff {js : List Json} : EachNumberIn p js ↔ ∀ j ∈ js, j.EachNumber p := by
  induction js with
  | nil => simp [EachNumberIn]
  | cons j js ih => rw [EachNumberIn, ih, List.forall_mem_cons]

theorem eachNumberAmong_iff {fs : List (String × Json)} :
    EachNumberAmong p fs ↔ ∀ f ∈ fs, f.2.EachNumber p := by
  induction fs with
  | nil => simp [EachNumberAmong]
  | cons f fs ih => rw [EachNumberAmong, ih, List.forall_mem_cons]

theorem eachNumber_object {fs : List (String × Json)} :
    (object fs).EachNumber p ↔ ∀ f ∈ fs, f.2.EachNumber p := eachNumberAmong_iff

theorem eachNumber_array {js : List Json} :
    (array js).EachNumber p ↔ ∀ j ∈ js, j.EachNumber p := eachNumberIn_iff

theorem eachNumber_strings (ss : List String) : (strings ss).EachNumber p := by
  rw [strings, eachNumber_array]
  intro j hj
  obtain ⟨s, -, rfl⟩ := List.mem_map.mp hj
  trivial

theorem eachNumber_optional {α : Type} {name : String} {f : α → Json} {o : Option α}
    (h : ∀ a, o = some a → (f a).EachNumber p) : ∀ g ∈ optional name f o, g.2.EachNumber p := by
  cases o with
  | none => simp [optional]
  | some a => simpa [optional] using h a rfl

end Json

open Json

variable {p : Json → Prop}

theorem Attributes.eachNumber_toJson (a : Attributes) : a.toJson.EachNumber p := by
  rw [toJson, eachNumber_object]
  intro f hf
  obtain ⟨e, -, rfl⟩ := List.mem_map.mp hf
  trivial

mutual

theorem Tree.eachNumber_toJson : (t : Tree) → (∀ n ≤ t.deepest, p (natural n)) →
    t.toJson.EachNumber p
  | ⟨id, tag, children, depth, attributes⟩, h => by
    have hc := allToJson_eachNumber children fun n hn => h n (le_max_of_le_right hn)
    have hd : ∀ n, depth = some n → (natural n).EachNumber p := by
      rintro n rfl
      exact h n (Nat.le_max_left _ _)
    rw [toJson, eachNumber_object]
    simp only [List.forall_mem_append, List.forall_mem_cons]
    exact ⟨⟨⟨trivial, trivial, eachNumber_array.mpr hc, by simp⟩, eachNumber_optional hd⟩,
      eachNumber_optional fun a _ => a.eachNumber_toJson⟩

theorem Tree.allToJson_eachNumber : (ts : List Tree) → (∀ n ≤ deepestAll ts, p (natural n)) →
    ∀ j ∈ allToJson ts, j.EachNumber p
  | [], _ => by simp [allToJson]
  | t :: ts, h => by
    rw [allToJson, List.forall_mem_cons]
    exact ⟨eachNumber_toJson t fun n hn => h n (le_max_of_le_left hn),
      allToJson_eachNumber ts fun n hn => h n (le_max_of_le_right hn)⟩

end

mutual

theorem BinaryTree.eachNumber_toJson : (b : BinaryTree) → b.toJson.EachNumber p
  | ⟨id, tag, left, right⟩ => by
    rw [toJson, eachNumber_object]
    simp only [List.forall_mem_append, List.forall_mem_cons]
    exact ⟨⟨⟨trivial, trivial, by simp⟩, eachNumber_link "left" left⟩,
      eachNumber_link "right" right⟩

theorem BinaryTree.eachNumber_link (name : String) : (b : Option BinaryTree) →
    ∀ f ∈ linkToJson name b, f.2.EachNumber p
  | none => by simp [linkToJson]
  | some b => by
    rw [linkToJson, List.forall_mem_singleton]
    exact eachNumber_toJson b

end

theorem Statistics.eachNumber_toJson {s : Statistics}
    (hn : p (natural s.maxDepth) ∧ p (natural s.totalNodes) ∧ p (natural s.depthSum))
    (hx : p (binary s.averageDepth)) : s.toJson.EachNumber p := by
  rw [toJson, eachNumber_object]
  simp only [List.forall_mem_cons]
  exact ⟨hn.1, hn.2.1, hn.2.2, hx, eachNumber_strings _, by simp⟩

theorem Suggestion.eachNumber_toJson {s : Suggestion} (h : p (natural s.reduction)) :
    s.toJson.EachNumber p := by
  rw [toJson, eachNumber_object]
  simp only [List.forall_mem_cons]
  exact ⟨trivial, eachNumber_strings _, trivial, h, by simp⟩

theorem Advice.eachNumber_toJson {a : Advice} (hs : ∀ s ∈ a.suggestions, p (natural s.reduction))
    (hn : p (natural a.estimatedReduction) ∧ p (natural a.originalDepth) ∧
      p (natural a.optimizedDepth)) : a.toJson.EachNumber p := by
  have hlist : (array (a.suggestions.map Suggestion.toJson)).EachNumber p := by
    rw [eachNumber_array, List.forall_mem_map]
    exact fun s h => Suggestion.eachNumber_toJson (hs s h)
  rw [toJson, eachNumber_object]
  simp only [List.forall_mem_cons]
  exact ⟨hlist, hn.1, hn.2.1, hn.2.2, trivial, by simp⟩

theorem Analysis.eachNumber_toJson {a : Analysis} (ht : a.tree.toJson.EachNumber p)
    (hs : a.statistics.toJson.EachNumber p) (ha : a.advice.toJson.EachNumber p) :
    a.toJson.EachNumber p := by
  rw [toJson, eachNumber_object]
  simp only [List.forall_mem_cons]
  exact ⟨ht, BinaryTree.eachNumber_toJson _, hs, ha, by simp⟩

theorem Request.eachNumber_toJson (r : Request) : r.toJson.EachNumber p := by
  rw [toJson, eachNumber_object]
  simp only [List.forall_mem_cons]
  exact ⟨trivial, trivial, by simp⟩

theorem Response.eachNumber_toJson {r : Response}
    (h : ∀ a, r.result = some a → a.toJson.EachNumber p) : r.toJson.EachNumber p := by
  rw [toJson, eachNumber_object]
  simp only [List.forall_mem_append, List.forall_mem_cons]
  exact ⟨⟨⟨trivial, by simp⟩, eachNumber_optional h⟩, eachNumber_optional fun _ _ => trivial⟩

theorem natural?_natural {bits n : Nat} (h : n < twoTo bits) : natural? bits (natural n) = some n :=
  if_pos h

theorem mapM_eq_pure {m : Type → Type} [Monad m] [LawfulMonad m] {α β : Type} {f : α → m β}
    {g : α → β} {xs : List α} (h : ∀ x ∈ xs, f x = pure (g x)) : xs.mapM f = pure (xs.map g) := by
  induction xs with
  | nil => exact List.mapM_nil
  | cons x xs ih =>
    rw [List.forall_mem_cons] at h
    rw [List.mapM_cons, h.1, ih h.2, pure_bind, pure_bind, List.map_cons]

theorem mapM_of_forall {α β : Type} {f : α → β} {g : β → Option α} {xs : List α}
    (h : ∀ x ∈ xs, g (f x) = some x) : (xs.map f).mapM g = some xs := by
  have hid : xs.mapM (g ∘ f) = some (xs.map id) := mapM_eq_pure h
  rw [List.mapM_map, hid, List.map_id]

theorem strings?_strings (ss : List String) : (strings ss).strings? = some ss :=
  mapM_of_forall fun _ _ => rfl

theorem optional?_map {α : Type} {f : α → Json} {g : Json → Option α} {o : Option α}
    (h : ∀ a, o = some a → f a ≠ null ∧ g (f a) = some a) : optional? g (o.map f) = some o := by
  cases o with
  | none => rfl
  | some a =>
    obtain ⟨hn, hg⟩ := h a rfl
    rw [Option.map_some, optional?, hg]
    · rfl
    · simpa using hn

theorem lookup_optional {α : Type} (name : String) (f : α → Json) (o : Option α) :
    (Json.optional name f o).lookup name = o.map f := by
  cases o with
  | none => rfl
  | some a => simp [Json.optional]

theorem lookup_optional_ne {α : Type} {name other : String} (h : name ≠ other) (f : α → Json)
    (o : Option α) : (Json.optional other f o).lookup name = none := by
  cases o with
  | none => rfl
  | some a => simp [Json.optional, List.lookup_cons, beq_false_of_ne h]

theorem Attributes.ofJson?_toJson (a : Attributes) : ofJson? a.toJson = some a := by
  rw [toJson, ofJson?, mapM_of_forall]
  · exact congrArg some (ofLast_entries a)
  · exact fun _ _ => rfl

mutual

theorem Tree.ofJson?_toJson : (t : Tree) → t.Fits → ofJson? t.toJson = some t
  | ⟨id, tag, children, depth, attributes⟩, h => by
    have hc := allOfJson?_allToJson children (lt_of_le_of_lt (le_max_right _ _) h)
    have hd : optional? (natural? widths.general) (depth.map natural) = some depth :=
      optional?_map fun n hn => by
        subst hn
        exact ⟨by simp [natural], natural?_natural (lt_of_le_of_lt (le_max_left _ _) h)⟩
    have ha : optional? Attributes.ofJson? (attributes.map Attributes.toJson) = some attributes :=
      optional?_map fun a _ => ⟨by simp [Attributes.toJson], a.ofJson?_toJson⟩
    have hd' := lookup_optional "depth" natural depth
    have ha' := lookup_optional "attributes" Attributes.toJson attributes
    have hda := lookup_optional_ne (show "attributes" ≠ "depth" by decide) natural depth
    have had := lookup_optional_ne (show "depth" ≠ "attributes" by decide) Attributes.toJson attributes
    simp [toJson, ofJson?, field?, string?, childrenIn, childrenOf, List.lookup_cons,
      List.lookup_append, hd', ha', hda, had, hc, hd, ha]

theorem Tree.allOfJson?_allToJson : (ts : List Tree) → deepestAll ts < twoTo widths.general →
    allOfJson? (allToJson ts) = some ts
  | [], _ => rfl
  | t :: ts, h => by
    rw [allToJson, allOfJson?, ofJson?_toJson t (lt_of_le_of_lt (le_max_left _ _) h),
      allOfJson?_allToJson ts (lt_of_le_of_lt (le_max_right _ _) h)]
    rfl

end

theorem BinaryTree.linkOf_toJson {b : BinaryTree} (h : ofJson? b.toJson = some b) :
    linkOf b.toJson = some (some b) := by
  obtain ⟨id, tag, left, right⟩ := b
  rw [toJson] at h ⊢
  rw [linkOf, h]
  rfl

theorem BinaryTree.ofJson?_toJson : (b : BinaryTree) → ofJson? b.toJson = some b
  | ⟨id, tag, none, none⟩ => by
    simp [toJson, linkToJson, ofJson?, field?, string?, linkIn, List.lookup_cons]
  | ⟨id, tag, some l, none⟩ => by
    have hl := linkOf_toJson l.ofJson?_toJson
    simp [toJson, linkToJson, ofJson?, field?, string?, linkIn, List.lookup_cons, hl]
  | ⟨id, tag, none, some r⟩ => by
    have hr := linkOf_toJson r.ofJson?_toJson
    simp [toJson, linkToJson, ofJson?, field?, string?, linkIn, List.lookup_cons, hr]
  | ⟨id, tag, some l, some r⟩ => by
    have hl := linkOf_toJson l.ofJson?_toJson
    have hr := linkOf_toJson r.ofJson?_toJson
    simp [toJson, linkToJson, ofJson?, field?, string?, linkIn, List.lookup_cons, hl, hr]

theorem Statistics.ofJson?_toJson {s : Statistics} (h : s.Fits) : ofJson? s.toJson = some s := by
  have h1 := natural?_natural h.maxDepth
  have h2 := natural?_natural h.totalNodes
  have h3 := natural?_natural h.depthSum
  have h4 := strings?_strings s.deepestPath
  simp [toJson, ofJson?, field?, List.lookup_cons, h1, h2, h3, h4, binary?]

theorem Suggestion.ofJson?_toJson {s : Suggestion} (h : s.Fits) : ofJson? s.toJson = some s := by
  have h1 := Finding.ofJson?_toJson s.finding
  have h2 := strings?_strings s.path
  have h3 := natural?_natural h
  simp [toJson, ofJson?, field?, List.lookup_cons, h1, h2, h3, string?]

theorem Advice.ofJson?_toJson {a : Advice} (h : a.Fits) : ofJson? a.toJson = some a := by
  have h1 : (a.suggestions.map Suggestion.toJson).mapM Suggestion.ofJson? = some a.suggestions :=
    mapM_of_forall fun s hs => Suggestion.ofJson?_toJson (h.suggestions s hs)
  have h2 := natural?_natural h.estimatedReduction
  have h3 := natural?_natural h.originalDepth
  have h4 := natural?_natural h.optimizedDepth
  simp [toJson, ofJson?, field?, List.lookup_cons, array?, h1, h2, h3, h4, string?]

theorem Analysis.ofJson?_toJson {a : Analysis} (h : a.Fits) : ofJson? a.toJson = some a := by
  have h1 := Tree.ofJson?_toJson a.tree h.tree
  have h2 := BinaryTree.ofJson?_toJson a.binary
  have h3 := Statistics.ofJson?_toJson h.statistics
  have h4 := Advice.ofJson?_toJson h.advice
  simp [toJson, ofJson?, field?, List.lookup_cons, h1, h2, h3, h4]

theorem Request.ofJson?_toJson (r : Request) : ofJson? r.toJson = some r := rfl

theorem Response.ofJson?_toJson {r : Response} (h : r.Fits) : ofJson? r.toJson = some r := by
  have h1 : optional? Analysis.ofJson? (r.result.map Analysis.toJson) = some r.result :=
    optional?_map fun a ha => ⟨by simp [Analysis.toJson], Analysis.ofJson?_toJson (h a ha)⟩
  have h2 : optional? string? (r.error.map string) = some r.error :=
    optional?_map fun s _ => ⟨by simp, rfl⟩
  have h3 := lookup_optional "result" Analysis.toJson r.result
  have h4 := lookup_optional "error" string r.error
  have h5 := lookup_optional_ne (show "error" ≠ "result" by decide) Analysis.toJson r.result
  have h6 := lookup_optional_ne (show "result" ≠ "error" by decide) string r.error
  simp [toJson, ofJson?, field?, bool?, List.lookup_cons, List.lookup_append, h1, h2, h3, h4, h5, h6]

/-- Whether a value comes back from each of its texts. -/
def ReadsBack {α : Type} (toJson : α → Json) (ofJson? : Json → Option α) (a : α) : Prop :=
  (parse (toJson a).compact).bind ofJson? = some a ∧ (parse (toJson a).pretty).bind ofJson? = some a

theorem readsBack {α : Type} {toJson : α → Json} {ofJson? : Json → Option α} {a : α}
    (hn : (toJson a).EachNumber IsExact) (hd : ofJson? (toJson a) = some a) :
    ReadsBack toJson ofJson? a := by
  have hw := EachNumber.mono isWritten_of_isExact _ hn
  have hc := parse_compact hw "" (by simp)
  have hp := parse_pretty hw "" (by simp)
  rw [String.append_empty, asRead_eq_self _ hn] at hc hp
  rw [ReadsBack, hc, hp, Option.bind_some]
  exact ⟨hd, hd⟩

theorem isExact_natural {n : Nat} (h : n < twoTo widths.general) : IsExact (natural n) := h

theorem Tree.Fits.eachNumber {t : Tree} (h : t.Fits) : t.toJson.EachNumber IsExact :=
  Tree.eachNumber_toJson t fun _ hn => isExact_natural (Nat.lt_of_le_of_lt hn h)

theorem Statistics.Fits.eachNumber {s : Statistics} (h : s.Fits) : s.toJson.EachNumber IsExact :=
  Statistics.eachNumber_toJson ⟨isExact_natural h.maxDepth, isExact_natural h.totalNodes,
    isExact_natural h.depthSum⟩ h.averageDepth

theorem Suggestion.Fits.eachNumber {s : Suggestion} (h : s.Fits) : s.toJson.EachNumber IsExact :=
  Suggestion.eachNumber_toJson (isExact_natural h)

theorem Advice.Fits.eachNumber {a : Advice} (h : a.Fits) : a.toJson.EachNumber IsExact :=
  have hp : a.estimatedReduction < twoTo widths.general := h.estimatedReduction.trans (by decide)
  Advice.eachNumber_toJson (fun s hs => isExact_natural (h.suggestions s hs))
    ⟨isExact_natural hp, isExact_natural h.originalDepth, isExact_natural h.optimizedDepth⟩

theorem Analysis.Fits.eachNumber {a : Analysis} (h : a.Fits) : a.toJson.EachNumber IsExact :=
  Analysis.eachNumber_toJson h.tree.eachNumber h.statistics.eachNumber h.advice.eachNumber

theorem Response.Fits.eachNumber {r : Response} (h : r.Fits) : r.toJson.EachNumber IsExact :=
  Response.eachNumber_toJson fun a ha => (h a ha).eachNumber

/-- Every value of an analysis comes back from its compact text and from its pretty one, whatever
its strings, its size, and the optional fields that it has, as long as its numbers fit their fields. -/
theorem serialization_round_trip :
    (∀ t : Tree, t.Fits → ReadsBack Tree.toJson Tree.ofJson? t) ∧
    (∀ b : BinaryTree, ReadsBack BinaryTree.toJson BinaryTree.ofJson? b) ∧
    (∀ s : Statistics, s.Fits → ReadsBack Statistics.toJson Statistics.ofJson? s) ∧
    (∀ s : Suggestion, s.Fits → ReadsBack Suggestion.toJson Suggestion.ofJson? s) ∧
    (∀ a : Advice, a.Fits → ReadsBack Advice.toJson Advice.ofJson? a) ∧
    (∀ a : Analysis, a.Fits → ReadsBack Analysis.toJson Analysis.ofJson? a) ∧
    (∀ r : Request, ReadsBack Request.toJson Request.ofJson? r) ∧
    ∀ r : Response, r.Fits → ReadsBack Response.toJson Response.ofJson? r := by
  refine ⟨fun t h => ?tree, fun b => ?binary, fun s h => ?statistics, fun s h => ?suggestion,
    fun a h => ?advice, fun a h => ?analysis, fun r => ?request, fun r h => ?response⟩
  case tree => exact readsBack h.eachNumber (Tree.ofJson?_toJson t h)
  case binary => exact readsBack (BinaryTree.eachNumber_toJson b) b.ofJson?_toJson
  case statistics => exact readsBack h.eachNumber (Statistics.ofJson?_toJson h)
  case suggestion => exact readsBack h.eachNumber (Suggestion.ofJson?_toJson h)
  case advice => exact readsBack h.eachNumber (Advice.ofJson?_toJson h)
  case analysis => exact readsBack h.eachNumber (Analysis.ofJson?_toJson h)
  case request => exact readsBack (Request.eachNumber_toJson r) (Request.ofJson?_toJson r)
  case response => exact readsBack h.eachNumber (Response.ofJson?_toJson h)

/-- A response with an empty map of attributes, a depth left out and a string that needs escapes. -/
theorem serialization_round_trip_escapes :
    let inner : Tree := ⟨"node-0", "b", [], none, some .empty⟩
    let tree : Tree := ⟨"node-1", "\"\\\x01\n/é", [inner], some 3, none⟩
    let statistics : Statistics := ⟨1, 2, 1, nearest 50 100, ["a", "b"]⟩
    let suggestion : Suggestion := ⟨.singleChildWrapper, ["a"], "", 1⟩
    let advice : Advice := ⟨[suggestion], 100, 1, 1, "one"⟩
    let response : Response := ⟨true, some ⟨tree, tree.encode, statistics, advice⟩, none⟩
    response.Fits ∧ ReadsBack Response.toJson Response.ofJson? response := by
  intro inner tree statistics suggestion advice response
  have hs : ∀ s ∈ advice.suggestions, s.Fits := by
    intro s hs
    rw [List.mem_singleton.mp hs]
    exact show 1 < twoTo widths.general by decide
  have hfits : response.Fits := by
    rintro a ⟨⟩
    refine ⟨show 3 < twoTo widths.general by decide, ⟨?_, ?_, ?_, 50, by decide, rfl⟩, hs, ?_, ?_, ?_⟩
    all_goals decide
  exact ⟨hfits, serialization_round_trip.2.2.2.2.2.2.2 response hfits⟩

end MarkupNesting
