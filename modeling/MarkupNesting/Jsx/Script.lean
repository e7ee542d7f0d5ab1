import MarkupNesting.Grammar.Language
import MarkupNesting.Jsx.Tokens

/-! The grammar of script modules with markup in them, without types. -/

namespace MarkupNesting.Jsx

open Grammar Grammar.Written

namespace Script

open Tokens

def words (line : String) : List String := line.splitOn " "

/-- The slash that ends a regular expression. -/
private def slash : Token := ⟨.char '/', some "/", true, 1⟩

private def infixRule (bind : Written → Written) (left : Written) (operator : String) : Written :=
  bind (cat [fld "left" left, fld "operator" operator, fld "right" (nt "expression")])

private def leftOperators : List (String × List String) := [
  ("logical_and", ["&&"]), ("logical_or", ["||"]), ("binary_shift", [">>", ">>>", "<<"]),
  ("bitwise_and", ["&"]), ("bitwise_xor", ["^"]), ("bitwise_or", ["|"]),
  ("binary_plus", ["+", "-"]), ("binary_times", ["*", "/", "%"])]

private def relations : List (String × List String) := [
  ("binary_relation", ["<", "<="]), ("binary_equality", ["==", "===", "!=", "!=="]),
  ("binary_relation", [">=", ">"]), ("ternary", ["??"]), ("binary_relation", ["instanceof"])]

private def binaryExpression : Written :=
  let operators (table : List (String × List String)) : List Written :=
    table.flatMap fun (name, ops) => ops.map (infixRule (boundLeft name) (nt "expression"))
  oneOf (operators leftOperators ++
    [infixRule (boundRight "binary_exp") (nt "expression") "**"] ++ operators relations ++
    [infixRule (boundLeft "binary_relation")
      (oneOf [nt "expression", nt "private_property_identifier"]) "in"])

private def moduleRules : List (String × Written) := [
  ("program", cat [opt (nt "hash_bang_line"), many (nt "statement")]),
  ("hash_bang_line", pattern hashBang),
  ("export_statement", oneOf [cat ["export", oneOf [cat ["*", nt "_from_clause"],
    cat [nt "namespace_export", nt "_from_clause"], cat [nt "export_clause", nt "_from_clause"],
    nt "export_clause"], nt "_semicolon"], cat [many (fld "decorator" (nt "decorator")),
    "export", oneOf [fld "declaration" (nt "declaration"), cat ["default",
    oneOf [fld "declaration" (nt "declaration"), cat [fld "value" (nt "expression"),
    nt "_semicolon"]]]]]]),
  ("namespace_export", cat ["*", "as", nt "_module_export_name"]),
  ("export_clause", cat ["\x7b", commas (nt "export_specifier"), opt ",", "\x7d"]),
  ("export_specifier", cat [fld "name" (nt "_module_export_name"), opt (cat ["as",
    fld "otherName" (nt "_module_export_name")])]),
  ("_module_export_name", oneOf [nt "identifier", nt "string"]),
  ("declaration", oneOf [nt "function_declaration", nt "generator_function_declaration",
    nt "class_declaration", nt "lexical_declaration", nt "variable_declaration"]),
  ("import", "import"),
  ("import_statement", cat ["import", oneOf [cat [nt "import_clause", nt "_from_clause"],
    fld "source" (nt "string")], opt (nt "import_attribute"), nt "_semicolon"]),
  ("import_clause", oneOf [nt "namespace_import", nt "named_imports", cat [nt "identifier",
    opt (cat [",", oneOf [nt "namespace_import", nt "named_imports"]])]]),
  ("_from_clause", cat ["from", fld "source" (nt "string")]),
  ("namespace_import", cat ["*", "as", nt "identifier"]),
  ("named_imports", cat ["\x7b", commas (nt "import_specifier"), opt ",", "\x7d"]),
  ("import_specifier", oneOf [fld "name" (nt "identifier"),
    cat [fld "name" (nt "_module_export_name"), "as", fld "otherName" (nt "identifier")]]),
  ("import_attribute", cat ["with", nt "object"])]

private def statementRules : List (String × Written) := [
  ("statement", oneOf [nt "export_statement", nt "import_statement", nt "debugger_statement",
    nt "expression_statement", nt "declaration", nt "statement_block", nt "if_statement",
    nt "switch_statement", nt "for_statement", nt "for_in_statement", nt "while_statement",
    nt "do_statement", nt "try_statement", nt "with_statement", nt "break_statement",
    nt "continue_statement", nt "return_statement", nt "throw_statement", nt "empty_statement",
    nt "labeled_statement"]),
  ("expression_statement", cat [nt "_expressions", nt "_semicolon"]),
  ("variable_declaration", cat ["var", commas1 (nt "variable_declarator"), nt "_semicolon"]),
  ("lexical_declaration", cat [fld "kind" (oneOf ["let", "const"]),
    commas1 (nt "variable_declarator"), nt "_semicolon"]),
  ("variable_declarator", cat [fld "name" (oneOf [nt "identifier", nt "_destructuring_pattern"]),
    opt (nt "_initializer")]),
  ("statement_block", right (cat ["\x7b", many (nt "statement"), "\x7d",
    opt (nt "_automatic_semicolon")])),
  ("else_clause", cat ["else", nt "statement"]),
  ("if_statement", right (cat ["if", fld "condition" (nt "parenthesized_expression"),
    fld "consequence" (nt "statement"), opt (fld "alternative" (nt "else_clause"))])),
  ("switch_statement", cat ["switch", fld "value" (nt "parenthesized_expression"),
    fld "body" (nt "switch_body")]),
  ("for_statement", cat ["for", "(", oneOf [fld "initializer" (oneOf [nt "lexical_declaration",
    nt "variable_declaration"]), cat [fld "initializer" (nt "_expressions"), ";"],
    fld "initializer" (nt "empty_statement")], fld "condition" (oneOf [cat [nt "_expressions",
    ";"], nt "empty_statement"]), fld "increment" (opt (nt "_expressions")), ")",
    fld "body" (nt "statement")]),
  ("for_in_statement", cat ["for", opt "await", nt "_for_header", fld "body" (nt "statement")]),
  ("_for_header", cat ["(", oneOf [fld "left" (oneOf [nt "_lhs_expression",
    nt "parenthesized_expression"]), cat [fld "kind" "var", fld "left" (oneOf [nt "identifier",
    nt "_destructuring_pattern"]), opt (nt "_initializer")], cat [fld "kind" (oneOf ["let",
    "const"]), fld "left" (oneOf [nt "identifier", nt "_destructuring_pattern"])]],
    fld "operator" (oneOf ["in", "of"]), fld "right" (nt "_expressions"), ")"]),
  ("while_statement", cat ["while", fld "condition" (nt "parenthesized_expression"),
    fld "body" (nt "statement")]),
  ("do_statement", right (cat ["do", fld "body" (nt "statement"), "while",
    fld "condition" (nt "parenthesized_expression"), opt (nt "_semicolon")])),
  ("try_statement", cat ["try", fld "body" (nt "statement_block"),
    opt (fld "handler" (nt "catch_clause")), opt (fld "finalizer" (nt "finally_clause"))]),
  ("with_statement", cat ["with", fld "object" (nt "parenthesized_expression"),
    fld "body" (nt "statement")]),
  ("break_statement", cat ["break",
    fld "label" (opt ((nt "identifier").as "statement_identifier")), nt "_semicolon"]),
  ("continue_statement", cat ["continue",
    fld "label" (opt ((nt "identifier").as "statement_identifier")), nt "_semicolon"]),
  ("debugger_statement", cat ["debugger", nt "_semicolon"]),
  ("return_statement", cat ["return", opt (nt "_expressions"), nt "_semicolon"]),
  ("throw_statement", cat ["throw", nt "_expressions", nt "_semicolon"]),
  ("empty_statement", ";"),
  ("labeled_statement", weighing (-1) (cat [fld "label" ((oneOf [nt "identifier",
    nt "_reserved_identifier"]).as "statement_identifier"), ":", fld "body" (nt "statement")])),
  ("switch_body", cat ["\x7b", many (oneOf [nt "switch_case", nt "switch_default"]), "\x7d"]),
  ("switch_case", cat ["case", fld "value" (nt "_expressions"), ":",
    fld "body" (many (nt "statement"))]),
  ("switch_default", cat ["default", ":", fld "body" (many (nt "statement"))]),
  ("catch_clause", cat ["catch", opt (cat ["(", fld "parameter" (oneOf [nt "identifier",
    nt "_destructuring_pattern"]), ")"]), fld "body" (nt "statement_block")]),
  ("finally_clause", cat ["finally", fld "body" (nt "statement_block")])]

private def valueRules : List (String × Written) := [
  ("parenthesized_expression", cat ["(", nt "_expressions", ")"]),
  ("_expressions", oneOf [nt "expression", nt "sequence_expression"]),
  ("expression", oneOf [nt "primary_expression", nt "_jsx_element", nt "assignment_expression",
    nt "augmented_assignment_expression", nt "await_expression", nt "unary_expression",
    nt "binary_expression", nt "ternary_expression", nt "update_expression", nt "new_expression",
    nt "yield_expression"]),
  ("primary_expression", oneOf [nt "subscript_expression", nt "member_expression",
    nt "parenthesized_expression", nt "_identifier", (nt "_reserved_identifier").as "identifier",
    nt "this", nt "super", nt "number", nt "string", nt "template_string", nt "regex", nt "true",
    nt "false", nt "null", nt "object", nt "array", nt "function_expression",
    nt "arrow_function", nt "generator_function", nt "class", nt "meta_property",
    nt "call_expression"]),
  ("yield_expression", right (cat ["yield", oneOf [cat ["*", nt "expression"],
    opt (nt "expression")]])),
  ("object", bound "object" (cat ["\x7b", commas (opt (oneOf [nt "pair", nt "spread_element",
    nt "method_definition", (oneOf [nt "identifier",
    nt "_reserved_identifier"]).as "shorthand_property_identifier"])), "\x7d"])),
  ("object_pattern", bound "object" (cat ["\x7b", commas (opt (oneOf [nt "pair_pattern",
    nt "rest_pattern", nt "object_assignment_pattern", (oneOf [nt "identifier",
    nt "_reserved_identifier"]).as "shorthand_property_identifier_pattern"])), "\x7d"])),
  ("assignment_pattern", cat [fld "left" (nt "pattern"), "=", fld "right" (nt "expression")]),
  ("object_assignment_pattern", cat [fld "left" (oneOf [(oneOf [nt "_reserved_identifier",
    nt "identifier"]).as "shorthand_property_identifier_pattern", nt "_destructuring_pattern"]),
    "=", fld "right" (nt "expression")]),
  ("array", cat ["[", commas (opt (oneOf [nt "expression", nt "spread_element"])), "]"]),
  ("array_pattern", cat ["[", commas (opt (oneOf [nt "pattern", nt "assignment_pattern"])), "]"])]

private def markupRules : List (String × Written) := [
  ("jsx_element", cat [fld "open_tag" (nt "jsx_opening_element"), many (nt "_jsx_child"),
    fld "close_tag" (nt "jsx_closing_element")]),
  ("html_character_reference", pattern characterReference),
  ("jsx_expression", cat ["\x7b", opt (oneOf [nt "expression", nt "sequence_expression",
    nt "spread_element"]), "\x7d"]),
  ("_jsx_child", oneOf [nt "jsx_text", nt "html_character_reference", nt "_jsx_element",
    nt "jsx_expression"]),
  ("jsx_opening_element", weighing (-1) (cat ["<", opt (cat [fld "name" (nt "_jsx_element_name"),
    many (fld "attribute" (nt "_jsx_attribute"))]), ">"])),
  ("jsx_identifier", pattern dashedName),
  ("_jsx_identifier", oneOf [(nt "jsx_identifier").as "identifier", nt "identifier"]),
  ("nested_identifier", bound "member" (cat [fld "object" (oneOf [nt "identifier",
    (nt "nested_identifier").as "member_expression"]), ".",
    fld "property" ((nt "identifier").as "property_identifier")])),
  ("jsx_namespace_name", cat [nt "_jsx_identifier", ":", nt "_jsx_identifier"]),
  ("_jsx_element_name", oneOf [nt "_jsx_identifier",
    (nt "nested_identifier").as "member_expression", nt "jsx_namespace_name"]),
  ("jsx_closing_element", cat ["</", opt (fld "name" (nt "_jsx_element_name")), ">"]),
  ("jsx_self_closing_element", cat ["<", fld "name" (nt "_jsx_element_name"),
    many (fld "attribute" (nt "_jsx_attribute")), "/>"]),
  ("_jsx_attribute", oneOf [nt "jsx_attribute", nt "jsx_expression"]),
  ("_jsx_attribute_name", oneOf [(nt "_jsx_identifier").as "property_identifier",
    nt "jsx_namespace_name"]),
  ("jsx_attribute", cat [nt "_jsx_attribute_name", opt (cat ["=", nt "_jsx_attribute_value"])]),
  ("_jsx_string", oneOf [cat ["\"",
    many (oneOf [(nt "unescaped_double_jsx_string_fragment").as "string_fragment",
    nt "html_character_reference"]), "\""], cat ["'",
    many (oneOf [(nt "unescaped_single_jsx_string_fragment").as "string_fragment",
    nt "html_character_reference"]), "'"]]),
  ("unescaped_double_jsx_string_fragment", immediate 1 (attributeText '"')),
  ("unescaped_single_jsx_string_fragment", immediate 1 (attributeText '\'')),
  ("_jsx_attribute_value", oneOf [(nt "_jsx_string").as "string", nt "jsx_expression",
    nt "_jsx_element"]),
  ("_jsx_element", oneOf [nt "jsx_element", nt "jsx_self_closing_element"])]

private def functionRules : List (String × Written) := [
  ("class", bound "literal" (cat [many (fld "decorator" (nt "decorator")), "class",
    fld "name" (opt (nt "identifier")), opt (nt "class_heritage"),
    fld "body" (nt "class_body")])),
  ("class_declaration", bound "declare" (cat [many (fld "decorator" (nt "decorator")), "class",
    fld "name" (nt "identifier"), opt (nt "class_heritage"), fld "body" (nt "class_body"),
    opt (nt "_automatic_semicolon")])),
  ("class_heritage", cat ["extends", nt "expression"]),
  ("function_expression", bound "literal" (cat [opt "async", "function",
    fld "name" (opt (nt "identifier")), nt "_call_signature",
    fld "body" (nt "statement_block")])),
  ("function_declaration", boundRight "declare" (cat [opt "async", "function",
    fld "name" (nt "identifier"), nt "_call_signature", fld "body" (nt "statement_block"),
    opt (nt "_automatic_semicolon")])),
  ("generator_function", bound "literal" (cat [opt "async", "function", "*",
    fld "name" (opt (nt "identifier")), nt "_call_signature",
    fld "body" (nt "statement_block")])),
  ("generator_function_declaration", boundRight "declare" (cat [opt "async", "function", "*",
    fld "name" (nt "identifier"), nt "_call_signature", fld "body" (nt "statement_block"),
    opt (nt "_automatic_semicolon")])),
  ("arrow_function", cat [opt "async",
    oneOf [fld "parameter" (oneOf [(nt "_reserved_identifier").as "identifier",
    nt "identifier"]), nt "_call_signature"], "=>", fld "body" (oneOf [nt "expression",
    nt "statement_block"])]),
  ("_call_signature", fld "parameters" (nt "formal_parameters")),
  ("_formal_parameter", oneOf [nt "pattern", nt "assignment_pattern"])]

private def operationRules : List (String × Written) := [
  ("optional_chain", "?."),
  ("call_expression", oneOf [bound "call" (cat [fld "function" (oneOf [nt "expression",
    nt "import"]), fld "arguments" (nt "arguments")]),
    bound "template_call" (cat [fld "function" (oneOf [nt "primary_expression",
    nt "new_expression"]), fld "arguments" (nt "template_string")]),
    bound "member" (cat [fld "function" (nt "primary_expression"),
    fld "optional_chain" (nt "optional_chain"), fld "arguments" (nt "arguments")])]),
  ("new_expression", boundRight "new" (cat ["new",
    fld "constructor" (oneOf [nt "primary_expression", nt "new_expression"]),
    fld "arguments" (opt (weighing 1 (nt "arguments")))])),
  ("await_expression", bound "unary_void" (cat ["await", nt "expression"])),
  ("member_expression", bound "member" (cat [fld "object" (oneOf [nt "expression",
    nt "primary_expression", nt "import"]), oneOf [".",
    fld "optional_chain" (nt "optional_chain")],
    fld "property" (oneOf [nt "private_property_identifier",
    (nt "identifier").as "property_identifier"])])),
  ("subscript_expression", boundRight "member" (cat [fld "object" (oneOf [nt "expression",
    nt "primary_expression"]), opt (fld "optional_chain" (nt "optional_chain")), "[",
    fld "index" (nt "_expressions"), "]"])),
  ("_lhs_expression", oneOf [nt "member_expression", nt "subscript_expression", nt "_identifier",
    (nt "_reserved_identifier").as "identifier", nt "_destructuring_pattern"]),
  ("assignment_expression",
    boundRight "assign" (cat [fld "left" (oneOf [nt "parenthesized_expression",
    nt "_lhs_expression"]), "=", fld "right" (nt "expression")])),
  ("_augmented_assignment_lhs", oneOf [nt "member_expression", nt "subscript_expression",
    (nt "_reserved_identifier").as "identifier", nt "identifier", nt "parenthesized_expression"]),
  ("augmented_assignment_expression",
    boundRight "assign" (cat [fld "left" (nt "_augmented_assignment_lhs"),
    fld "operator" (oneOf ["+=", "-=", "*=", "/=", "%=", "^=", "&=", "|=", ">>=", ">>>=", "<<=",
    "**=", "&&=", "||=", "??="]), fld "right" (nt "expression")])),
  ("_initializer", cat ["=", fld "value" (nt "expression")]),
  ("_destructuring_pattern", oneOf [nt "object_pattern", nt "array_pattern"]),
  ("spread_element", cat ["...", nt "expression"]),
  ("ternary_expression", boundRight "ternary" (cat [fld "condition" (nt "expression"),
    (nt "_ternary_qmark").asLiteral "?", fld "consequence" (nt "expression"), ":",
    fld "alternative" (nt "expression")])),
  ("binary_expression", binaryExpression),
  ("unary_expression", boundLeft "unary_void" (cat [fld "operator" (oneOf ["!", "~", "-", "+",
    "typeof", "void", "delete"]), fld "argument" (nt "expression")])),
  ("update_expression", left (oneOf [cat [fld "argument" (nt "expression"),
    fld "operator" (oneOf ["++", "--"])], cat [fld "operator" (oneOf ["++", "--"]),
    fld "argument" (nt "expression")]])),
  ("sequence_expression", cat [fld "left" (nt "expression"), ",",
    fld "right" (oneOf [nt "sequence_expression", nt "expression"])])]

private def literalRules : List (String × Written) := [
  ("string", oneOf [cat ["\"",
    many (oneOf [(nt "unescaped_double_string_fragment").as "string_fragment",
    nt "escape_sequence"]), "\""], cat ["'",
    many (oneOf [(nt "unescaped_single_string_fragment").as "string_fragment",
    nt "escape_sequence"]), "'"]]),
  ("unescaped_double_string_fragment", immediate 1 (stringText '"')),
  ("unescaped_single_string_fragment", immediate 1 (stringText '\'')),
  ("escape_sequence", immediate 0 escape),
  ("comment", pattern comment),
  ("template_string", cat ["`", many (oneOf [(nt "_template_chars").as "string_fragment",
    nt "escape_sequence", nt "template_substitution"]), "`"]),
  ("template_substitution", cat ["$\x7b", nt "_expressions", "\x7d"]),
  ("regex", cat ["/", fld "pattern" (nt "regex_pattern"), (.part (.token slash)),
    opt (fld "flags" (nt "regex_flags"))]),
  ("regex_pattern", immediate (-1) regexBody),
  ("regex_flags", immediate 0 regexFlags),
  ("number", pattern number),
  ("_identifier", oneOf [nt "undefined", nt "identifier"]),
  ("identifier", pattern identifier),
  ("private_property_identifier", pattern privateName),
  ("meta_property", oneOf [cat ["new", ".", "target"], cat ["import", ".", "meta"]]),
  ("this", "this"),
  ("super", "super"),
  ("true", "true"),
  ("false", "false"),
  ("null", "null"),
  ("undefined", "undefined")]

private def memberRules : List (String × Written) := [
  ("arguments", cat ["(", commas (opt (oneOf [nt "expression", nt "spread_element"])), ")"]),
  ("decorator", cat ["@", oneOf [nt "identifier",
    (nt "decorator_member_expression").as "member_expression",
    (nt "decorator_call_expression").as "call_expression"]]),
  ("decorator_member_expression", bound "member" (cat [fld "object" (oneOf [nt "identifier",
    (nt "decorator_member_expression").as "member_expression"]), ".",
    fld "property" ((nt "identifier").as "property_identifier")])),
  ("decorator_call_expression", bound "call" (cat [fld "function" (oneOf [nt "identifier",
    (nt "decorator_member_expression").as "member_expression"]),
    fld "arguments" (nt "arguments")])),
  ("class_body", cat ["\x7b", many (oneOf [cat [fld "member" (nt "method_definition"), opt ";"],
    cat [fld "member" (nt "field_definition"), nt "_semicolon"],
    fld "member" (nt "class_static_block"), ";"]), "\x7d"]),
  ("field_definition", cat [many (fld "decorator" (nt "decorator")), opt "static",
    fld "property" (nt "_property_name"), opt (nt "_initializer")]),
  ("formal_parameters", cat ["(", opt (cat [commas1 (nt "_formal_parameter"), opt ","]), ")"]),
  ("class_static_block", cat ["static", opt (nt "_automatic_semicolon"),
    fld "body" (nt "statement_block")]),
  ("pattern", weighing (-1) (oneOf [nt "_lhs_expression", nt "rest_pattern"])),
  ("rest_pattern", right (cat ["...", nt "_lhs_expression"])),
  ("method_definition", cat [many (fld "decorator" (nt "decorator")), opt (oneOf ["static",
    (pattern staticGet).asLiteral "static get"]), opt "async", opt (oneOf ["get", "set", "*"]),
    fld "name" (nt "_property_name"), fld "parameters" (nt "formal_parameters"),
    fld "body" (nt "statement_block")]),
  ("pair", cat [fld "key" (nt "_property_name"), ":", fld "value" (nt "expression")]),
  ("pair_pattern", cat [fld "key" (nt "_property_name"), ":", fld "value" (oneOf [nt "pattern",
    nt "assignment_pattern"])]),
  ("_property_name", oneOf [(oneOf [nt "identifier",
    nt "_reserved_identifier"]).as "property_identifier", nt "private_property_identifier",
    nt "string", nt "number", nt "computed_property_name"]),
  ("computed_property_name", cat ["[", nt "expression", "]"]),
  ("_reserved_identifier", oneOf ["get", "set", "async", "static", "export", "let"]),
  ("_semicolon", oneOf [nt "_automatic_semicolon", ";"])]

def rules : List (String × Written) :=
  moduleRules ++ statementRules ++ valueRules ++ markupRules ++ functionRules ++ operationRules ++
    literalRules ++ memberRules

private def tightness : List Rank :=
  words "member template_call call" |>.map .binding

def orders : List (List Rank) := [
  tightness ++ [.rule "update_expression"] ++
    (words ("unary_void binary_exp binary_times binary_plus binary_shift binary_compare " ++
      "binary_relation binary_equality bitwise_and bitwise_xor bitwise_or logical_and " ++
      "logical_or ternary")).map .binding ++ [.rule "sequence_expression", .rule "arrow_function"],
  [.binding "assign", .rule "primary_expression"],
  (words "member template_call new call").map .binding ++ [.rule "expression"],
  [.binding "declare", .binding "literal"],
  [.rule "primary_expression", .rule "statement_block", .binding "object"],
  [.rule "meta_property", .rule "import"],
  [.rule "import_statement", .rule "import"],
  [.rule "export_statement", .rule "primary_expression"],
  [.rule "lexical_declaration", .rule "primary_expression"]]

def scanned : List Written := [
  nt "_automatic_semicolon", nt "_template_chars", nt "_ternary_qmark", nt "html_comment", "||",
  nt "escape_sequence", nt "regex_pattern", nt "jsx_text"]

def groups : List String := words "statement declaration expression primary_expression pattern"

def inlined : List String :=
  words ("_call_signature _formal_parameter _expressions _semicolon _identifier " ++
    "_reserved_identifier _jsx_attribute _jsx_element_name _jsx_child _jsx_element " ++
    "_jsx_attribute_name _jsx_attribute_value _jsx_identifier _lhs_expression")

def contextual : List String :=
  words ("html_character_reference jsx_identifier /> unescaped_double_jsx_string_fragment " ++
    "unescaped_single_jsx_string_fragment unescaped_double_string_fragment " ++
    "unescaped_single_string_fragment regex_pattern regex_flags")

end Script

open Script in
/-- Modules without types. -/
def plainGrammar : Description where
  rules := rules
  scanned := scanned
  extras := ["comment", "html_comment"]
  space := Tokens.space
  groups := groups
  inlined := inlined
  orders := orders
  word := some "identifier"
  contexts := [
    words "comment regex_pattern",
    words "comment _/",
    words "escape_sequence comment ` $\x7b",
    words "\" unescaped_double_string_fragment escape_sequence comment",
    words "' unescaped_single_string_fragment escape_sequence comment",
    words "html_character_reference \" unescaped_double_jsx_string_fragment comment",
    words "html_character_reference ' unescaped_single_jsx_string_fragment comment",
    words ("hash_bang_line * \x7b , \x7d ( ; ) : = [ ] < > \" ' => ... + - / ! ~ ++ -- " ++
      "comment ` number identifier private_property_identifier @ END"),
    words ("\x7b ( : [ < > . \" ' + - / ! ~ ++ -- comment ` number identifier " ++
      "private_property_identifier @"),
    words "\x7b : = > jsx_identifier . /> comment identifier",
    words ("* \x7b , \x7d ( ; [ < \" ' ... + - / ! ~ ++ -- comment ` number identifier " ++
      "private_property_identifier @ method_definition_token1"),
    words ("* \x7b , \x7d ( ; ) : = [ ] < > . \" ' optional_chain && || >> >>> << & ^ | + - " ++
      "/ % ** <= == === != !== >= ?? ! ~ ++ -- comment ` number identifier " ++
      "private_property_identifier @ END"),
    words ("* \x7b , \x7d ( ; ) : [ ] < > . optional_chain && || >> >>> << & ^ | + - / % ** " ++
      "<= == === != !== >= ?? ++ -- comment ` regex_flags identifier"),
    words ("* \x7b ( [ html_character_reference < . </ \" ' comment number identifier " ++
      "private_property_identifier @ method_definition_token1"),
    words ("* \x7b , \x7d ( ; ) : = [ ] < > . \" ' => optional_chain += -= *= /= %= ^= &= |= " ++
      ">>= >>>= <<= **= &&= ||= ??= && || >> >>> << & ^ | + - / % ** <= == === != !== " ++
      ">= ?? ++ -- comment ` number identifier private_property_identifier @")]
  contextual := contextual

end MarkupNesting.Jsx
