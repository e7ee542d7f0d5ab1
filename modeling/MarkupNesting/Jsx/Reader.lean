import MarkupNesting.Jsx.Node

/-! Reading a module that only declares JSX: statements that are an element or give one to a
constant, each closed by a semicolon. It reads one character at a time, and any other module is
refused.

This is a second reading beside the grammars. Such a module holds no place for a type, so the
grammar with types and the one without give it the same nodes, which are those given here. That they
agree has been checked on generated modules and is not proved. -/

namespace MarkupNesting.Jsx

namespace Reader

/-- An element begun in braces has as many parentheses around it; others have no braces. -/
abbrev Braces := Option Nat

/-- The name in a tag: the part up to the last dot, if there is one. -/
abbrev Name := Option Node

/-- What the characters since the last token have amounted to. Runs hold their last character first. -/
inductive Mode where
  | failed
  | between
  | keyword (rest : List Char)
  | keywordGap
  | constant (run : List Char)
  | afterConstant
  | beforeValue
  | afterValue
  | opening (braces : Braces)
  | tagName (braces : Braces) (object : Name) (run : List Char)
  | afterTagName (braces : Braces) (name : Node)
  | afterDot (braces : Braces) (object : Node)
  | attributeName (braces : Braces) (name : Node) (run : List Char)
  | afterAttribute (braces : Braces) (name : Node)
  | beforeString (braces : Braces) (name : Node)
  | string (braces : Braces) (name : Node) (quote : Char)
  | inTag (braces : Braces) (name : Node)
  | slash (braces : Braces) (name : Node)
  | content
  | brace (parens : Nat)
  | afterHeld (parens : Nat)
  | closing
  | closingName (run : List Char)
  | afterClosingName
  | afterClosingDot

/-- An element whose opening tag has been read; its children with the last first. -/
structure Frame where
  braces : Braces
  opening : Node
  children : List Node

structure State where
  mode : Mode
  /-- The open elements, innermost first. -/
  frames : List Frame
  /-- The elements that stand outside all others, the last first. -/
  roots : List Node

def isSpace (c : Char) : Bool := c = ' ' || c = '\n' || c = '\t'

def isNameChar (c : Char) : Bool := c.isAlphanum

/-- Words that scripts do not read as names everywhere. -/
def reserved : List String :=
  ["abstract", "accessor", "any", "as", "asserts", "async", "await", "boolean", "break", "case",
    "catch", "class", "const", "continue", "debugger", "declare", "default", "delete", "do", "else",
    "enum", "export", "extends", "false", "finally", "for", "from", "function", "get", "global", "if",
    "implements", "import", "in", "infer", "instanceof", "interface", "is", "keyof", "let", "meta",
    "module", "namespace", "never", "new"] ++
  ["null", "number", "object", "of", "override", "private", "protected", "public", "readonly",
    "require", "return", "satisfies", "set", "static", "string", "super", "switch", "symbol",
    "target", "this", "throw", "true", "try", "type", "typeof", "undefined", "unique", "unknown",
    "using", "var", "void", "while", "with", "yield"]

def isName (run : List Char) : Bool := !reserved.contains (String.ofList run.reverse)

def nodeOf (kind : Kind) (role : Role) (text : String) (children : List Node) : Node :=
  ⟨kind, role, .read, true, ⟨0, 0⟩, text, children⟩

def branch (kind : Kind) (children : List Node) : Node := nodeOf kind .none "" children

def nameNode (object : Name) (run : List Char) : Node :=
  let last (role : Role) : Node := nodeOf .name role (String.ofList run.reverse) []
  match object with
  | none => last .none
  | some o => branch .dotted [{ o with role := .object }, last .property]

def wrapped (braces : Braces) (n : Node) : Node :=
  match braces with
  | none => n
  | some parens => branch .container [Nat.repeat (fun n => branch .parenthesized [n]) parens n]

namespace State

def start : State := ⟨.between, [], []⟩

variable (s : State)

def moveTo (m : Mode) : State := { s with mode := m }

def fail : State := s.moveTo .failed

def place (braces : Braces) (n : Node) : State :=
  match s.frames with
  | [] => { s with roots := n :: s.roots, mode := .afterValue }
  | f :: fs =>
    { s with
      frames := { f with children := wrapped braces n :: f.children } :: fs
      mode := match braces with
        | none => .content
        | some parens => .afterHeld parens }

def openingNode (name : Option Node) : Node :=
  branch .openingElement (name.toList.map fun n => { n with role := .name })

def enter (braces : Braces) (name : Option Node) : State :=
  { s with frames := ⟨braces, openingNode name, []⟩ :: s.frames, mode := .content }

def leave : State :=
  match s.frames with
  | [] => s.fail
  | f :: fs =>
    { s with frames := fs }.place f.braces (branch .element (f.opening :: f.children.reverse))

def inOpening (braces : Braces) (name : Node) (c : Char) : State :=
  if c = '>' then s.enter braces (some name)
  else if c = '/' then s.moveTo (.slash braces name)
  else if isSpace c then s.moveTo (.inTag braces name)
  else if c.isAlpha then s.moveTo (.attributeName braces name [c])
  else s.fail

def isStringChar (c : Char) : Bool :=
  c.isAlphanum || [' ', '-', '_', '.', ',', ':', '#'].contains c

def step (c : Char) : State :=
  match s.mode with
  | .failed => s
  | .between =>
    if isSpace c then s
    else if c = '<' then s.moveTo (.opening none)
    else if c = 'c' then s.moveTo (.keyword "onst".toList)
    else s.fail
  | .keyword rest =>
    match rest with
    | x :: more =>
      if c = x then s.moveTo (if more.isEmpty then .keywordGap else .keyword more) else s.fail
    | [] => s.fail
  | .keywordGap => if isSpace c then s.moveTo (.constant []) else s.fail
  | .constant run =>
    if c.isAlpha then s.moveTo (.constant (c :: run))
    else if run.isEmpty then (if isSpace c then s else s.fail)
    else if !isName run then s.fail
    else if c = '=' then s.moveTo .beforeValue
    else if isSpace c then s.moveTo .afterConstant
    else s.fail
  | .afterConstant =>
    if isSpace c then s else if c = '=' then s.moveTo .beforeValue else s.fail
  | .beforeValue =>
    if isSpace c then s else if c = '<' then s.moveTo (.opening none) else s.fail
  | .afterValue => if isSpace c then s else if c = ';' then s.moveTo .between else s.fail
  | .opening braces =>
    if c = '>' then s.enter braces none
    else if c = '/' && braces.isNone && !s.frames.isEmpty then s.moveTo .closing
    else if c.isAlpha then s.moveTo (.tagName braces none [c])
    else s.fail
  | .tagName braces object run =>
    if isNameChar c then s.moveTo (.tagName braces object (c :: run))
    else if !isName run then s.fail
    else
      let name := nameNode object run
      if c = '.' then s.moveTo (.afterDot braces name)
      else if isSpace c then s.moveTo (.afterTagName braces name)
      else s.inOpening braces name c
  | .afterTagName braces name =>
    if isSpace c then s
    else if c = '.' then s.moveTo (.afterDot braces name)
    else s.inOpening braces name c
  | .afterDot braces object =>
    if isSpace c then s
    else if c.isAlpha then s.moveTo (.tagName braces (some object) [c])
    else s.fail
  | .attributeName braces name run =>
    if isNameChar c then s.moveTo (.attributeName braces name (c :: run))
    else if !isName run then s.fail
    else if c = '=' then s.moveTo (.beforeString braces name)
    else if isSpace c then s.moveTo (.afterAttribute braces name)
    else s.inOpening braces name c
  | .afterAttribute braces name =>
    if isSpace c then s
    else if c = '=' then s.moveTo (.beforeString braces name)
    else s.inOpening braces name c
  | .beforeString braces name =>
    if isSpace c then s
    else if c = '\x22' || c = '\x27' then s.moveTo (.string braces name c)
    else s.fail
  | .string braces name quote =>
    if c = quote then s.moveTo (.inTag braces name)
    else if isStringChar c then s
    else s.fail
  | .inTag braces name => s.inOpening braces name c
  | .slash braces name =>
    if c = '>' then s.place braces (branch .selfClosingElement [{ name with role := .name }])
    else s.fail
  | .content =>
    if c = '<' then s.moveTo (.opening none)
    else if c = '\x7b' then s.moveTo (.brace 0)
    else if isSpace c || c.isAlphanum then s
    else s.fail
  | .brace parens =>
    if isSpace c then s
    else if c = '(' then s.moveTo (.brace (parens + 1))
    else if c = '<' then s.moveTo (.opening (some parens))
    else s.fail
  | .afterHeld parens =>
    if isSpace c then s
    else match parens with
      | 0 => if c = '\x7d' then s.moveTo .content else s.fail
      | n + 1 => if c = ')' then s.moveTo (.afterHeld n) else s.fail
  | .closing =>
    if c = '>' then s.leave
    else if isSpace c then s
    else if c.isAlpha then s.moveTo (.closingName [c])
    else s.fail
  | .closingName run =>
    if isNameChar c then s.moveTo (.closingName (c :: run))
    else if !isName run then s.fail
    else if c = '>' then s.leave
    else if c = '.' then s.moveTo .afterClosingDot
    else if isSpace c then s.moveTo .afterClosingName
    else s.fail
  | .afterClosingName =>
    if c = '>' then s.leave
    else if c = '.' then s.moveTo .afterClosingDot
    else if isSpace c then s
    else s.fail
  | .afterClosingDot =>
    if isSpace c then s else if c.isAlpha then s.moveTo (.closingName [c]) else s.fail

def finish : Option Node :=
  match s.mode with
  | .between | .afterValue => some (branch .other s.roots.reverse)
  | _ => none

end State

end Reader

/-- The module that a text is, if it only declares JSX. -/
def readModule (source : String) : Option Node :=
  (source.toList.foldl Reader.State.step Reader.State.start).finish

end MarkupNesting.Jsx
