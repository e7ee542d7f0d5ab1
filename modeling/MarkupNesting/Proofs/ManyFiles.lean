import MarkupNesting.CommandLine
import MarkupNesting.Proofs.Worker.Service
import MarkupNesting.Proofs.WrittenNumbers

/-! Several files on the command line. What is written for them is put together from what is written
for each of them alone, though one file is given to a worker and several are not. -/

namespace MarkupNesting

namespace Json

def written (pretty : Bool) (j : Json) : String := if pretty then j.pretty else j.compact

theorem isSpace_of_mem_newline : ∀ c ∈ "\n".toList, isSpace c = true := by
  intro c hc
  rw [show "\n".toList = ['\n'] from rfl, List.mem_singleton] at hc
  exact hc ▸ rfl

theorem parse_written_line (pretty : Bool) {j : Json} (h : j.EachNumber IsWritten) :
    parse (j.written pretty ++ "\n") = j.asRead := by
  cases pretty with
  | false => exact parse_compact h "\n" isSpace_of_mem_newline
  | true => exact parse_pretty h "\n" isSpace_of_mem_newline

end Json

namespace CommandLine

def flag (given : Bool) (name : String) : List String := if given then [name] else []

/-- Arguments that ask for an analysis with the given options. -/
def Options.arguments (o : Options) : List String :=
  o.dialect.toList.map ("--dialect=" ++ ·) ++ (flag o.pretty "--pretty" ++ (flag o.verbose "--verbose" ++
    (flag o.quiet "--quiet" ++ "--" :: o.files)))

theorem readArguments_flag {o p : Options} (given : Bool) (name : String) (hn : name ≠ "--")
    (hno : given = false → o = p) (hyes : given = true → readArgument o name = .options p)
    (rest : List String) : readArguments o (flag given name ++ rest) = readArguments p rest := by
  cases given with
  | false => rw [hno rfl, flag, if_neg (by decide), List.nil_append]
  | true => rw [flag, if_pos rfl, List.singleton_append, readArguments, if_neg hn, hyes rfl]

theorem readArgument_dialect (o : Options) (d : String) :
    readArgument o ("--dialect=" ++ d) = .ofOptions (o.setDialect d) := by
  have hlong : ∀ ds,
      readLong o ("dialect=".toList ++ ds) = .ofOptions (o.setDialect (String.ofList ds)) :=
    fun _ => rfl
  have hlist : ("--dialect=" ++ d).toList = '-' :: '-' :: ("dialect=".toList ++ d.toList) :=
    String.toList_append
  rw [readArgument, hlist]
  exact (hlong d.toList).trans (by rw [String.ofList_toList])

/-- Every choice of options can be asked for. -/
theorem readArguments_arguments (o : Options) : readArguments {} o.arguments = .analyze o := by
  obtain ⟨files, dialect, pretty, verbose, quiet⟩ := o
  have hdialect : ∀ rest, readArguments {} (dialect.toList.map ("--dialect=" ++ ·) ++ rest) =
      readArguments { dialect } rest := by
    intro rest
    cases dialect with
    | none => rfl
    | some d =>
      have hne : "--dialect=" ++ d ≠ "--" := by
        intro heq
        have hlen := congrArg String.length heq
        have h10 : "--dialect=".length = 10 := rfl
        have h2 : "--".length = 2 := rfl
        rw [String.length_append] at hlen
        omega
      rw [Option.toList_some, List.map_singleton, List.singleton_append, readArguments, if_neg hne,
        readArgument_dialect]
      rfl
  have hpretty := readArguments_flag (o := { dialect }) (p := { dialect, pretty })
    pretty "--pretty" (by decide) (by rintro rfl; rfl) (by rintro rfl; rfl)
  have hverbose := readArguments_flag (o := { dialect, pretty }) (p := { dialect, pretty, verbose })
    verbose "--verbose" (by decide) (by rintro rfl; rfl) (by rintro rfl; rfl)
  have hquiet := readArguments_flag (o := { dialect, pretty, verbose })
    (p := { dialect, pretty, verbose, quiet })
    quiet "--quiet" (by decide) (by rintro rfl; rfl) (by rintro rfl; rfl)
  rw [Options.arguments, hdialect, hpretty, hverbose, hquiet]
  rfl

namespace Surroundings

variable (s : Surroundings) (o : Options) (path : String)

/-- Whether a file can be read as text. -/
def HasText : Prop := ∃ bytes, s.file? path = some bytes ∧ (String.fromUTF8? bytes).isSome = true

/-- Whether the dialect of a file is given or can be inferred. -/
def HasDialect : Prop :=
  (o.dialect.or s.dialect).isSome = true ∨ (Dialect.ofExtension? (fileExtension path)).isSome = true

def request : Except String Request := fileRequest s (o.dialect.or s.dialect) path

end Surroundings

theorem dialectOf_inferred {path : String} {d : Dialect}
    (h : Dialect.ofExtension? (fileExtension path) = some d) : dialectOf none path = .ok d.name := by
  unfold dialectOf
  rw [h]

theorem exists_request {s : Surroundings} {o : Options} {path : String} (ht : s.HasText path)
    (hd : s.HasDialect o path) : ∃ r, s.request o path = .ok r := by
  obtain ⟨bytes, hbytes, htext⟩ := ht
  obtain ⟨source, hsource⟩ := Option.isSome_iff_exists.mp htext
  have hdialect : ∃ d, dialectOf (o.dialect.or s.dialect) path = .ok d := by
    cases hgiven : o.dialect.or s.dialect with
    | some d => exact ⟨d, rfl⟩
    | none =>
      rw [Surroundings.HasDialect, hgiven] at hd
      obtain ⟨d, hd⟩ := Option.isSome_iff_exists.mp (hd.resolve_left (by simp))
      exact ⟨d.name, dialectOf_inferred hd⟩
  obtain ⟨d, hd⟩ := hdialect
  refine ⟨⟨source, d⟩, ?_⟩
  simp only [Surroundings.request, fileRequest, hbytes, readText, hsource, hd, bind, Except.bind, pure,
    Except.pure]

variable {s : Surroundings} {o : Options} {args : List String}

def outcome (pretty success : Bool) (j : Json) : Outcome :=
  ⟨if success then 0 else 1, j.written pretty ++ "\n", none⟩

theorem run_single {path : String} {r : Request}
    (h : readArguments {} args = .analyze { o with files := [path] }) (hr : s.request o path = .ok r) :
    run s args = outcome o.pretty r.respond.success r.respond.toJson := by
  have hrequests : requests s { o with files := [path] } = .ok [r] :=
    mapM_eq_pure (g := fun _ => r) (List.forall_mem_singleton.mpr hr)
  have hrespond : respond [r] = [r.respond] := Worker.answers_oneByOne Request.respond [r]
  rw [run, h]
  simp only [analyzeAll, hrequests, hrespond, render, List.all_cons, List.all_nil, Bool.and_true]
  rfl

theorem respond_several (rs : List Request) (h : 2 ≤ rs.length) :
    respond rs = rs.map Request.respond := by
  match rs with
  | [] | [_] => simp at h
  | _ :: _ :: _ => rfl

theorem render_several (pretty : Bool) (rs : List Response) (h : 2 ≤ rs.length) :
    render pretty rs = (Json.array (rs.map Response.toJson)).written pretty ++ "\n" := by
  match rs with
  | [] | [_] => simp at h
  | _ :: _ :: _ => rfl

theorem run_several {request : String → Request} (h : readArguments {} args = .analyze o)
    (hn : 2 ≤ o.files.length) (hr : ∀ f ∈ o.files, s.request o f = .ok (request f)) :
    run s args = outcome o.pretty (o.files.all fun f => (request f).respond.success)
      (.array (o.files.map fun f => (request f).respond.toJson)) := by
  have hne : o.files.isEmpty = false := by
    rw [List.isEmpty_eq_false_iff_exists_mem]
    exact List.length_pos_iff_exists_mem.mp (Nat.lt_of_lt_of_le Nat.two_pos hn)
  have hrequests : requests s o = .ok (o.files.map request) := by
    rw [requests, if_neg (by simp [hne])]
    exact mapM_eq_pure hr
  have hrespond : respond (o.files.map request) = o.files.map fun f => (request f).respond := by
    rw [respond_several _ (by rwa [List.length_map]), List.map_map]
    rfl
  have hrender : render o.pretty (o.files.map fun f => (request f).respond) =
      (Json.array (o.files.map fun f => (request f).respond.toJson)).written o.pretty ++ "\n" := by
    rw [render_several _ _ (by rwa [List.length_map]), List.map_map]
    rfl
  rw [run, h]
  simp only [analyzeAll, hrequests, hrespond, hrender, List.all_map, Function.comp_def]
  rfl

theorem exit_outcome (pretty success : Bool) (j : Json) :
    (outcome pretty success j).exit = 0 ↔ success = true := by
  cases success <;> simp [outcome]

theorem parse_single {path : String} {r : Request}
    (h : readArguments {} args = .analyze { o with files := [path] }) (hr : s.request o path = .ok r) :
    Json.parse (run s args).output = r.respond.toJson.asRead := by
  rw [run_single h hr]
  exact Json.parse_written_line o.pretty r.isWritten_respond

theorem parse_several {request : String → Request} (h : readArguments {} args = .analyze o)
    (hn : 2 ≤ o.files.length) (hr : ∀ f ∈ o.files, s.request o f = .ok (request f)) :
    Json.parse (run s args).output =
      (Json.array (o.files.map fun f => (request f).respond.toJson)).asRead := by
  rw [run_several h hn hr]
  apply Json.parse_written_line
  rw [Json.eachNumber_array, List.forall_mem_map]
  exact fun f _ => (request f).isWritten_respond

/-- Two or more files are analysed as each of them would be alone. On one line their texts stand in
brackets, in the order of the arguments; with line breaks the same array is written another way, and
if the counts of elements fit their fields, it is what is read; the exit code tells whether every
file was analysed. A file may be given more than once. -/
theorem several_files (alone : String → List String) (hargs : readArguments {} args = .analyze o)
    (hn : 2 ≤ o.files.length)
    (halone : ∀ f ∈ o.files, readArguments {} (alone f) = .analyze { o with files := [f] })
    (htext : ∀ f ∈ o.files, s.HasText f) (hdialect : ∀ f ∈ o.files, s.HasDialect o f) :
    (o.pretty = false → ∃ text : String → String,
      (∀ f ∈ o.files, (run s (alone f)).output = text f ++ "\n") ∧
        (run s args).output = "[" ++ ",".intercalate (o.files.map text) ++ "]" ++ "\n") ∧
    (o.pretty = true →
      (∀ plain, readArguments {} plain = .analyze { o with pretty := false } →
        Json.parse (run s args).output = Json.parse (run s plain).output) ∧
      Json.parse (run s args).output =
        (o.files.mapM fun f => Json.parse (run s (alone f)).output).map .array ∧
      ∃ value : String → Json,
        (∀ f ∈ o.files, (run s (alone f)).output = (value f).pretty ++ "\n") ∧
        (run s args).output = (Json.array (o.files.map value)).pretty ++ "\n" ∧
        ((∀ f ∈ o.files, ∀ r, s.request o f = .ok r → r.CountsFit) →
          (∀ f ∈ o.files, Json.parse (run s (alone f)).output = some (value f)) ∧
            Json.parse (run s args).output = some (.array (o.files.map value)))) ∧
    (run s args).exit = if ∀ f ∈ o.files, (run s (alone f)).exit = 0 then 0 else 1 := by
  have hr : ∀ f ∈ o.files, ∃ r, s.request o f = .ok r := fun f hf =>
    exists_request (htext f hf) (hdialect f hf)
  have : Nonempty Request := ⟨⟨"", ""⟩⟩
  choose! request hrequest using hr
  have hall := run_several hargs hn hrequest
  have hone := fun f hf => run_single (halone f hf) (hrequest f hf)
  have hparse := parse_several hargs hn hrequest
  have hitem := fun f hf => parse_single (halone f hf) (hrequest f hf)
  refine ⟨fun hp => ⟨fun f => (request f).respond.toJson.compact, fun f hf => ?item, ?line⟩,
    fun hp => ⟨fun plain hplain => ?plain, ?items, fun f => (request f).respond.toJson,
      fun f hf => ?prettyItem, ?prettyArray, fun hfit => ?values⟩, ?exit⟩
  case item | prettyItem =>
    rw [hone f hf, hp]
    rfl
  case line =>
    have htexts : (o.files.map fun f => (request f).respond.toJson).map Json.compact =
        o.files.map fun f => (request f).respond.toJson.compact := List.map_map
    rw [hall, hp]
    exact htexts ▸ congrArg (· ++ "\n") (Json.compact_array _)
  case prettyArray =>
    rw [hall, hp]
    rfl
  case plain => exact hparse.trans (parse_several hplain hn hrequest).symm
  case items => rw [hparse, Json.asRead, Json.asReadIn_map fun f hf => (hitem f hf).symm]
  case values =>
    have hexact : ∀ f ∈ o.files, (request f).respond.toJson.EachNumber Json.IsExact := fun f hf =>
      Request.isExact_respond (hfit f hf _ (hrequest f hf))
    refine ⟨fun f hf => ?_, ?_⟩
    · rw [hitem f hf, Json.asRead_eq_self _ (hexact f hf)]
    · rw [hparse, Json.asRead_eq_self]
      rwa [Json.eachNumber_array, List.forall_mem_map]
  case exit =>
    have hexit : (∀ f ∈ o.files, (run s (alone f)).exit = 0) ↔
        (o.files.all fun f => (request f).respond.success) = true := by
      rw [List.all_eq_true]
      exact forall₂_congr fun f hf => by rw [hone f hf, exit_outcome]
    rw [hall]
    exact if_congr hexit.symm rfl rfl

/-- A file that is given twice, with a blank one in between; the surroundings name the dialect. -/
theorem several_files_twice :
    let file? (path : String) : Option ByteArray :=
      some (if path = "blank" then " " else "<p>é</p>").toByteArray
    let s : Surroundings := ⟨some "html", ByteArray.empty, file?⟩
    let o : Options := { files := ["page", "blank", "page"], pretty := true, quiet := true }
    let plain : Options := { o with pretty := false }
    let alone (f : String) : Options := { o with files := [f] }
    (∀ f ∈ o.files, s.HasText f ∧ s.HasDialect o f ∧ ∀ r, s.request o f = .ok r → r.CountsFit) ∧
      Json.parse (run s o.arguments).output = Json.parse (run s plain.arguments).output ∧
      (∃ value : String → Json,
        (∀ f ∈ o.files, Json.parse (run s (alone f).arguments).output = some (value f)) ∧
          Json.parse (run s o.arguments).output = some (.array (o.files.map value))) ∧
      (run s o.arguments).exit =
        if ∀ f ∈ o.files, (run s (alone f).arguments).exit = 0 then 0 else 1 := by
  intro file? s o plain alone
  have hutf (t : String) : String.fromUTF8? t.toByteArray = some t := by
    rw [String.fromUTF8?, dif_pos t.isValidUTF8]
    rfl
  have htext : ∀ f, s.HasText f := fun f => ⟨_, rfl, by rw [hutf]; rfl⟩
  have hrequest : ∀ f, s.request o f = .ok ⟨if f = "blank" then " " else "<p>é</p>", "html"⟩ := by
    intro f
    show (do return ⟨← readText f (String.toByteArray _), "html"⟩ : Except String Request) = _
    rw [readText, hutf]
    rfl
  have hcounts : ∀ f r, s.request o f = .ok r → r.CountsFit := by
    intro f r hr a ha
    rw [hrequest, Except.ok.injEq] at hr
    subst hr
    have hblank : (⟨" ", "html"⟩ : Request).run = .error .emptyInput := by decide +kernel
    have hpage : (⟨"<p>é</p>", "html"⟩ : Request).run.map
        (fun a => (a.statistics.totalNodes, a.statistics.depthSum)) = .ok (1, 0) := by decide +kernel
    split at ha
    · rw [hblank] at ha
      cases ha
    · rw [ha, Except.map, Except.ok.injEq, Prod.mk.injEq] at hpage
      rw [hpage.1, hpage.2]
      decide
  obtain ⟨-, hpretty, hexit⟩ := several_files (fun f => (alone f).arguments)
    (readArguments_arguments o) (by decide) (fun f _ => readArguments_arguments (alone f))
    (fun f _ => htext f) (fun f _ => .inl rfl)
  obtain ⟨hplain, -, value, -, -, hvalue⟩ := hpretty rfl
  exact ⟨fun f _ => ⟨htext f, .inl rfl, hcounts f⟩, hplain _ (readArguments_arguments plain),
    ⟨value, hvalue fun f _ => hcounts f⟩, hexit⟩

end CommandLine

end MarkupNesting
