/-! The names of HTML's elements, in lower case: which there are, which have no content, and which
may not stand directly inside which. -/

namespace MarkupNesting.Html

def voidNames : List String :=
  ["area", "base", "basefont", "bgsound", "br", "col", "command", "embed", "frame", "hr", "image",
    "img", "input", "isindex", "keygen", "link", "menuitem", "meta", "nextid", "param", "source",
    "track", "wbr"]

def contentNames : List String :=
  ["a", "abbr", "address", "article", "aside", "audio", "b", "bdi", "bdo", "blockquote", "body",
    "button", "canvas", "caption", "cite", "code", "colgroup", "data", "datalist", "dd", "del",
    "details", "dfn", "dialog", "div", "dl", "dt", "em", "fieldset", "figcaption", "figure", "footer",
    "form", "h1", "h2", "h3", "h4", "h5", "h6", "head", "header", "hgroup", "html", "i", "iframe",
    "ins", "kbd", "label", "legend", "li", "main", "map", "mark", "math", "menu", "meter", "nav",
    "noscript", "object"] ++
  ["ol", "optgroup", "option", "output", "p", "picture", "pre", "progress", "q", "rb", "rp", "rt",
    "rtc", "ruby", "s", "samp", "script", "section", "select", "slot", "small", "span", "strong",
    "style", "sub", "summary", "sup", "svg", "table", "tbody", "td", "template", "textarea", "tfoot",
    "th", "thead", "time", "title", "tr", "u", "ul", "var", "video"]

def blockNames : List String :=
  ["address", "article", "aside", "blockquote", "details", "div", "dl", "fieldset", "figcaption",
    "figure", "footer", "form", "h1", "h2", "h3", "h4", "h5", "h6", "header", "hr", "main", "nav",
    "ol", "p", "pre", "section"]

/-- Elements that the end of the text ends. -/
def documentNames : List String := ["html", "head", "body"]

/-- The family of a name. All names that are not HTML's are of one family. -/
inductive Family where
  | known (name : String)
  | custom
deriving DecidableEq

def isVoid (name : String) : Bool := voidNames.contains name

def isKnown (name : String) : Bool := isVoid name || contentNames.contains name

def familyOf (name : String) : Family := if isKnown name then .known name else .custom

/-- Whether an element may stand directly inside another: where it may not, its start tag ends the
other. -/
def mayHold (outer inner : String) : Bool :=
  let inside (names : List String) : Bool := names.contains inner
  match outer with
  | "li" => !inside ["li"]
  | "dt" | "dd" => !inside ["dt", "dd"]
  | "p" => !inside blockNames
  | "colgroup" => inside ["col"]
  | "rb" | "rt" | "rp" => !inside ["rb", "rt", "rp"]
  | "optgroup" => !inside ["optgroup"]
  | "tr" => !inside ["tr"]
  | "td" | "th" => !inside ["td", "th", "tr"]
  | _ => true

def endsAtEnd (name : String) : Bool := documentNames.contains name || !mayHold name ""

end MarkupNesting.Html
