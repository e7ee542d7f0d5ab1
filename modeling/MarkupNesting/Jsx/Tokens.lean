import MarkupNesting.Grammar.Rule

/-! The tokens of script modules that are not written as themselves. -/

namespace MarkupNesting.Jsx

open Grammar Pattern

namespace Tokens

/-- White space before tokens of a module. -/
def space : CharSet :=
  .union [.space, .spaceSeparator,
    ⟨false, [(0xfeff, 0xfeff), (0x2028, 0x2029), (0x2060, 0x2060), (0x200b, 0x200b)]⟩]

private def underscored (d : CharSet) : Pattern :=
  all [chars d, star (all [opt (char '_'), chars d])]

private def unicodeEscape : Pattern :=
  all [text "\\u", any [(chars .hex).times 4, all [char '\x7b', plus (chars .hex), char '\x7d']]]

private def notInName : List CharSet :=
  [space, ⟨false, [(0, 0x1f)]⟩, .ofChars ":;\x60\"'@#.,|^&<=>+-*/\\%?!~()[]\x7b\x7d".toList]

private def nameStart : Pattern := any [noneOf "" (.digit :: notInName), unicodeEscape]
private def nameRest : Pattern := star (any [noneOf "" notInName, unicodeEscape])

def identifier : Pattern := all [nameStart, nameRest]
def privateName : Pattern := all [char '#', nameStart, nameRest]

def dashedName : Pattern :=
  let start := CharSet.union [.letter, .ofChars ['_', '$']]
  let rest := CharSet.union [start, .digit]
  all [chars start, star (chars rest), char '-', star (chars (.union [rest, .single '-']))]

def hashBang : Pattern := all [text "#!", star (noneOf "\n" [])]

def characterReference : Pattern :=
  all [char '&', any [
    all [char '#', any [all [oneOf "xX", (chars .hex).between 5], (chars .digit).between 4]],
    (chars .letter).between 29], char ';']

def attributeText (quote : Char) : Pattern :=
  plus (any [noneOf "&" [.single quote], all [char '&', noneOf "#" [.letter]]])

def stringText (quote : Char) : Pattern := plus (noneOf "\\\r\n" [.single quote])

def escape : Pattern :=
  all [char '\\', any [
    noneOf "xu" [.octal],
    (chars .octal).between 2,
    all [char 'x', (chars .hex).times 2],
    all [char 'u', (chars .hex).times 4],
    all [char 'u', char '\x7b', plus (chars .hex), char '\x7d'],
    all [oneOf "\r?", chars ⟨false, [(10, 10), (0x2028, 0x2029)]⟩]]]

def comment : Pattern :=
  any [
    all [text "//", star (noneOf "\r\n" [⟨false, [(0x2028, 0x2029)]⟩])],
    all [text "/*", star (noneOf "*" []), plus (char '*'),
      star (all [noneOf "/*" [], star (noneOf "*" []), plus (char '*')]), char '/']]

/-- The body of a regular expression; a slash between brackets does not end it. -/
def regexBody : Pattern :=
  let escaped := all [char '\\', noneOf "\n" []]
  plus (any [
    all [char '[', star (any [escaped, noneOf "]\n\\" []]), char ']'],
    escaped,
    noneOf "/\\[\n" []])

def regexFlags : Pattern := plus (chars .lower)

def number : Pattern :=
  let digits := underscored .digit
  let hex := all [char '0', oneOf "xX", underscored .hex]
  let binary := all [char '0', oneOf "bB", underscored (.range '0' '1')]
  let octal := all [char '0', oneOf "oO", underscored .octal]
  let exponent := all [oneOf "eE", opt (oneOf "+-"), digits]
  let whole := any [char '0',
    all [opt (char '0'), chars (.range '1' '9'), opt (all [opt (char '_'), digits])]]
  let decimal := any [
    all [whole, char '.', opt digits, opt exponent],
    all [char '.', digits, opt exponent],
    all [whole, exponent],
    digits]
  any [hex, decimal, binary, octal, all [any [hex, binary, octal, digits], char 'n']]

/-- The word static before an accessor whose name is on the next line. -/
def staticGet : Pattern :=
  all [text "static", plus (chars .space), text "get", star (chars .space), char '\n']

end Tokens

end MarkupNesting.Jsx
