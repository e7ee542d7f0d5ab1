import MarkupNesting.Grammar.Language

/-! The grammar of HTML documents. Which tags are open, and where raw text and implied end tags
are, is for the scanner of tags to say; the grammar only puts its tokens together. -/

namespace MarkupNesting.Html

open Grammar Grammar.Written
open Pattern (noneOf)

private def doctypeWord : Pattern :=
  .all ("doctype".toList.map fun c => .chars (.ofChars [c, c.toUpper]))

private def entity : Pattern :=
  .all [.char '&', .any [
    .all [.char '#', .any [
      .all [Pattern.oneOf "xX", (Pattern.chars .hex).between 5],
      (Pattern.chars .digit).between 4]],
    (Pattern.chars .letter).between 29], .opt (.char ';')]

private def textRun : Pattern :=
  .all [noneOf "<>&" [.space],
    .opt (.all [.star (noneOf "<>&" []), noneOf "<>&" [.space]])]

private def openTag (name : String) : Written :=
  cat ["<", (nt name).as "tag_name", many (nt "attribute"), ">"]

def grammar : Description where
  rules := [
    ("document", many (nt "_node")),
    ("doctype", cat ["<!", (nt "_doctype").asLiteral "doctype",
      pattern (.plus (noneOf ">" [])), ">"]),
    ("_doctype", pattern doctypeWord),
    ("_node", oneOf [nt "doctype", nt "entity", nt "text", nt "element", nt "script_element",
      nt "style_element", nt "erroneous_end_tag"]),
    ("element", oneOf [
      cat [nt "start_tag", many (nt "_node"), oneOf [nt "end_tag", nt "_implicit_end_tag"]],
      nt "self_closing_tag"]),
    ("script_element", cat [(nt "script_start_tag").as "start_tag", opt (nt "raw_text"), nt "end_tag"]),
    ("style_element", cat [(nt "style_start_tag").as "start_tag", opt (nt "raw_text"), nt "end_tag"]),
    ("start_tag", openTag "_start_tag_name"),
    ("script_start_tag", openTag "_script_start_tag_name"),
    ("style_start_tag", openTag "_style_start_tag_name"),
    ("self_closing_tag", cat ["<", (nt "_start_tag_name").as "tag_name", many (nt "attribute"), "/>"]),
    ("end_tag", cat ["</", (nt "_end_tag_name").as "tag_name", ">"]),
    ("erroneous_end_tag", cat ["</", nt "erroneous_end_tag_name", ">"]),
    ("attribute", cat [nt "attribute_name",
      opt (cat ["=", oneOf [nt "attribute_value", nt "quoted_attribute_value"]])]),
    ("attribute_name", pattern (.plus (noneOf "<>\"'/=" [.space]))),
    ("attribute_value", pattern (.plus (noneOf "<>\"'=" [.space]))),
    ("entity", pattern entity),
    ("quoted_attribute_value", oneOf [
      cat ["'", opt ((pattern (.plus (noneOf "'" []))).as "attribute_value"), "'"],
      cat ["\"", opt ((pattern (.plus (noneOf "\"" []))).as "attribute_value"), "\""]]),
    ("text", pattern textRun)]
  scanned := [nt "_start_tag_name", nt "_script_start_tag_name", nt "_style_start_tag_name",
    nt "_end_tag_name", nt "erroneous_end_tag_name", "/>", nt "_implicit_end_tag", nt "raw_text",
    nt "comment"]
  extras := ["comment"]
  space := .space
  groups := []
  inlined := []
  orders := []
  word := none
  contexts := [
    ["<!", ">", "_doctype", "<", "/>", "</", "=", "entity", "'", "\"", "END"],
    ["<!", "<", "</", "entity", "text", "END"],
    [">", "/>", "=", "attribute_name"],
    ["attribute_value", "'", "\""],
    ["'", "quoted_attribute_value_token1"],
    ["\"", "quoted_attribute_value_token2"],
    ["doctype_token1"]]
  contextual := ["doctype_token1", "attribute_name", "attribute_value",
    "quoted_attribute_value_token1", "quoted_attribute_value_token2", "text"]

def language : Language := .ofDescription grammar

end MarkupNesting.Html
