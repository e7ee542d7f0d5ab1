import MarkupNesting.Grammar.Language
import MarkupNesting.Grammar.Text

/-! Reading one token. All tokens of a set are followed at once; the longest match wins unless a
token of higher precedence is already complete. -/

namespace MarkupNesting.Grammar

/-- A token under way: before its first character, or with a pattern left to match. -/
structure Thread where
  token : Nat
  rest : Option Pattern
deriving DecidableEq, Hashable

/-- One way to go on with a character: the thread then, whether the character was space, and the
precedence of the way. -/
structure Advance where
  thread : Thread
  space : Bool
  precedence : Int

structure Lexed where
  found : Option (Nat × Nat × Nat)
  start : Nat
  reached : Nat

namespace Language

variable (L : Language)

def tokenOf (i : Nat) : Token :=
  match L.terminals[i]? with
  | some t => t.token
  | none => .ofPattern (.chars ⟨false, []⟩)

def threads (tokens : TokenSet) : List Thread :=
  (List.range L.terminals.size).filterMap fun i =>
    if tokens.testBit i then
      let t := L.tokenOf i
      some ⟨i, if t.immediate then some t.pattern else none⟩
    else none

def advances (c : Char) (t : Thread) : List Advance :=
  let token := L.tokenOf t.token
  let go (p : Pattern) : List Advance :=
    (p.after c).map fun q => ⟨⟨t.token, some q⟩, false, token.precedence⟩
  match t.rest with
  | some p => go p
  | none => (if L.space.contains c then [⟨t, true, 0⟩] else []) ++ go token.pattern

def preferred (i j : Nat) : Bool :=
  let s := L.tokenOf i
  let t := L.tokenOf j
  if s.precedence != t.precedence then s.precedence > t.precedence
  else if s.specificity != t.specificity then s.specificity > t.specificity
  else i < j

def complete (threads : List Thread) : Option Nat :=
  threads.foldl (fun best t =>
    match t.rest with
    | some p =>
      if p.nullable then
        match best with
        | some b => if L.preferred b t.token then best else some t.token
        | none => some t.token
      else best
    | none => best) none

def readsOn (done : Nat) (before : List Thread) (ways : List Advance) : Bool :=
  let own := (L.tokenOf done).precedence
  let best := ways.foldl (fun p w => max p w.precedence) (ways.head?.elim 0 (·.precedence))
  if best < own then false
  else if best == own then
    if ways.all (·.space) then false
    else !before.any (·.rest.isNone) || ways.any (·.thread.token == done)
  else true

/-- Reads from a position. `atStart` holds as long as only space has been read. -/
def lexFrom (text : Text) (finish : Bool) :
    Nat → List Thread → Bool → Nat → Nat → Option (Nat × Nat × Nat) → Lexed
  | 0, _, _, start, i, found => ⟨found, start, i⟩
  | fuel + 1, threads, atStart, start, i, found =>
    let done := L.complete threads
    let found := match done with
      | some t => some (t, start, i)
      | none => found
    if i ≥ text.size then
      ⟨if finish && atStart then some (L.finish, i, i) else found, start, i⟩
    else
      let c := text.get i
      let ways := if c = '\x00' then [] else threads.flatMap (L.advances c)
      let goesOn := !ways.isEmpty && match done with
        | some t => L.readsOn t threads ways
        | none => true
      if goesOn then
        let space := ways.all (·.space)
        lexFrom text finish fuel (distinct (ways.map (·.thread))) (atStart && space)
          (if space then i + 1 else start) (i + 1) found
      else ⟨found, start, i⟩

def lex (text : Text) (tokens : TokenSet) (i : Nat) : Lexed :=
  L.lexFrom text (tokens.testBit L.finish) (text.size - i + 1) (L.threads tokens) true i i none

end Language

end MarkupNesting.Grammar
