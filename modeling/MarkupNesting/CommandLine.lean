import MarkupNesting.Codec
import MarkupNesting.Worker

/-! The command line. Files, or standard input, are analysed and the responses written as JSON. -/

namespace MarkupNesting

namespace CommandLine

structure Options where
  files : List String := []
  dialect : Option String := none
  pretty : Bool := false
  verbose : Bool := false
  quiet : Bool := false
deriving DecidableEq

inductive Command where
  | analyze (options : Options)
  | version
  | help
  | wrong
deriving DecidableEq

inductive Group where
  | options (o : Options)
  | needsDialect (o : Options)
  | command (c : Command)

namespace Options

/-- An option may be given once. -/
def setDialect (o : Options) (value : String) : Option Options :=
  if o.dialect.isSome then none else some { o with dialect := some value }

def setPretty (o : Options) : Option Options := if o.pretty then none else some { o with pretty := true }

def setVerbose (o : Options) : Option Options :=
  if o.verbose then none else some { o with verbose := true }

def setQuiet (o : Options) : Option Options := if o.quiet then none else some { o with quiet := true }

end Options

def Group.ofOptions : Option Options → Group
  | some o => .options o
  | none => .command .wrong

/-- Options of one letter, written together. What follows `d` is its value, with or without an
equals sign. -/
def readShort (o : Options) : List Char → Group
  | [] => .options o
  | 'd' :: [] => .needsDialect o
  | 'd' :: '=' :: value => .ofOptions (o.setDialect (String.ofList value))
  | 'd' :: value => .ofOptions (o.setDialect (String.ofList value))
  | 'v' :: cs => match o.setVerbose with
    | some o => readShort o cs
    | none => .command .wrong
  | 'q' :: cs => match o.setQuiet with
    | some o => readShort o cs
    | none => .command .wrong
  | 'V' :: _ => .command .version
  | 'h' :: _ => .command .help
  | _ => .command .wrong

/-- An option written out, after its dashes; it may have a value after an equals sign. -/
def readLong (o : Options) (cs : List Char) : Group :=
  let name := String.ofList (cs.takeWhile (· ≠ '='))
  let value := match cs.dropWhile (· ≠ '=') with
    | [] => none
    | _ :: value => some (String.ofList value)
  match name, value with
  | "dialect", some value => .ofOptions (o.setDialect value)
  | "dialect", none => .needsDialect o
  | "pretty", none => .ofOptions o.setPretty
  | "verbose", none => .ofOptions o.setVerbose
  | "quiet", none => .ofOptions o.setQuiet
  | "version", none => .command .version
  | "help", none => .command .help
  | _, _ => .command .wrong

def readArgument (o : Options) (arg : String) : Group :=
  match arg.toList with
  | '-' :: '-' :: cs => readLong o cs
  | '-' :: c :: cs => readShort o (c :: cs)
  | _ => .options { o with files := o.files ++ [arg] }

def isOption (arg : String) : Bool :=
  match arg.toList with
  | '-' :: _ :: _ => true
  | _ => false

def readArguments (o : Options) : List String → Command
  | [] => .analyze o
  | arg :: rest =>
    if arg = "--" then .analyze { o with files := o.files ++ rest }
    else
      match readArgument o arg with
      | .command c => c
      | .options o => readArguments o rest
      | .needsDialect o =>
        match rest with
        | [] => .wrong
        | value :: rest =>
          if isOption value then .wrong
          else match o.setDialect value with
            | some o => readArguments o rest
            | none => .wrong

/-- What the program can read: the dialect that the surroundings name, standard input and files. -/
structure Surroundings where
  dialect : Option String
  input : ByteArray
  file? : String → Option ByteArray

structure Outcome where
  exit : Nat
  output : String
  error : Option String
deriving DecidableEq

def fileName (path : String) : List Char :=
  let parts := (path.toList.splitOn '/').filter fun p => p ≠ [] && p ≠ ['.']
  parts.getLast?.getD []

/-- What follows the last dot of a file name that does not begin with it. -/
def fileExtension (path : String) : String :=
  let name := (fileName path).reverse
  let last := name.takeWhile (· ≠ '.')
  match name.drop last.length with
  | '.' :: _ :: _ => if name = ['.', '.'] then "" else String.ofList last.reverse
  | _ => ""

def cannotRead (what why : String) : String := "Failed to read " ++ what ++ ": " ++ why

def notText : String := "stream did not contain valid UTF-8"

/-- The reason that stands for every file that cannot be opened, whatever the system says of it. -/
def noFile : String := "No such file or directory (os error 2)"

def readText (what : String) (bytes : ByteArray) : Except String String :=
  match String.fromUTF8? bytes with
  | some s => .ok s
  | none => .error (cannotRead what notText)

/-- The dialect of a file: the one that is given, or else that of its extension. -/
def dialectOf (given : Option String) (path : String) : Except String String :=
  match given with
  | some d => .ok d
  | none =>
    match Dialect.ofExtension? (fileExtension path) with
    | some d => .ok d.name
    | none => .error ("Cannot infer dialect for " ++ path ++ "; pass --dialect html|jsx|tsx")

def fileRequest (s : Surroundings) (given : Option String) (path : String) : Except String Request := do
  let source ← match s.file? path with
    | some bytes => readText path bytes
    | none => .error (cannotRead path noFile)
  return ⟨source, ← dialectOf given path⟩

def requests (s : Surroundings) (o : Options) : Except String (List Request) := do
  let given := o.dialect.or s.dialect
  if o.files.isEmpty then
    return [⟨← readText "stdin" s.input, given.getD Dialect.html.name⟩]
  else o.files.mapM (fileRequest s given)

def render (pretty : Bool) (responses : List Response) : String :=
  let j := match responses with
    | [r] => r.toJson
    | rs => .array (rs.map Response.toJson)
  (if pretty then j.pretty else j.compact) ++ "\n"

def versionText : String := "markup-depth 0.1.0\n"

/-- The head of the help; the list of arguments and options below it is left out. -/
def helpText : String :=
  "Measure and reduce nesting depth in HTML, JSX and TSX markup\n\n" ++
    "Usage: markup-depth [OPTIONS] [FILES]...\n"

/-- The responses to the requests. A single one is given to a worker, several are independent. -/
def respond (rs : List Request) : List Response :=
  match rs with
  | [r] => respondInTurn [r]
  | rs => respondAll rs

def analyzeAll (s : Surroundings) (o : Options) : Outcome :=
  match requests s o with
  | .error e => ⟨1, "", some e⟩
  | .ok rs =>
    let responses := respond rs
    ⟨if responses.all (·.success) then 0 else 1, render o.pretty responses, none⟩

def run (s : Surroundings) (args : List String) : Outcome :=
  match readArguments {} args with
  | .analyze o => analyzeAll s o
  | .version => ⟨0, versionText, none⟩
  | .help => ⟨0, helpText, none⟩
  | .wrong => ⟨2, "", none⟩

end CommandLine

end MarkupNesting
