import MarkupNesting.Jsx.Script

/-! The grammar of script modules with types: the untyped rules, some of them replaced, and the
rules of types. -/

namespace MarkupNesting.Jsx

open Grammar Grammar.Written

namespace TypedScript

open Script (words)

private def untyped (name : String) : Written := (Script.rules.lookup name).getD .blank

private def changedRules : List (String × Written) := [
  ("export_statement", oneOf [untyped "export_statement", cat ["export", "type",
    nt "export_clause", opt (nt "_from_clause"), nt "_semicolon"], cat ["export", "import",
    nt "import_alias"], cat ["export", "=", nt "expression", nt "_semicolon"], cat ["export",
    "as", "namespace", nt "identifier", nt "_semicolon"]]),
  ("export_specifier", cat [opt (oneOf ["type", "typeof"]), untyped "export_specifier"]),
  ("declaration", oneOf [untyped "declaration", nt "function_signature",
    nt "abstract_class_declaration", nt "module", bound "declare" (nt "internal_module"),
    nt "type_alias_declaration", nt "enum_declaration", nt "interface_declaration",
    nt "import_alias", nt "ambient_declaration"]),
  ("import_statement", cat ["import", opt (oneOf ["type", "typeof"]),
    oneOf [cat [nt "import_clause", nt "_from_clause"], nt "import_require_clause",
    fld "source" (nt "string")], opt (nt "import_attribute"), nt "_semicolon"]),
  ("import_clause", oneOf [nt "namespace_import", nt "named_imports",
    cat [nt "_import_identifier", opt (cat [",", oneOf [nt "namespace_import",
    nt "named_imports"]])]]),
  ("import_specifier", cat [opt (oneOf ["type", "typeof"]),
    oneOf [fld "name" (nt "_import_identifier"),
    cat [fld "name" (oneOf [nt "_module_export_name", (literal "type").as "identifier"]), "as",
    fld "otherName" (nt "_import_identifier")]]]),
  ("variable_declarator", oneOf [cat [fld "name" (oneOf [nt "identifier",
    nt "_destructuring_pattern"]), fld "type" (opt (nt "type_annotation")),
    opt (nt "_initializer")], bound "declare" (cat [fld "name" (nt "identifier"), "!",
    fld "type" (nt "type_annotation")])]),
  ("catch_clause", cat ["catch", opt (cat ["(", fld "parameter" (oneOf [nt "identifier",
    nt "_destructuring_pattern"]), opt (fld "type" (nt "type_annotation")), ")"]),
    fld "body" (nt "statement_block")]),
  ("parenthesized_expression", cat ["(", oneOf [cat [nt "expression",
    fld "type" (opt (nt "type_annotation"))], nt "sequence_expression"], ")"]),
  ("expression", oneOf [nt "as_expression", nt "satisfies_expression",
    nt "instantiation_expression", nt "internal_module", nt "primary_expression",
    nt "_jsx_element", nt "assignment_expression", nt "augmented_assignment_expression",
    nt "await_expression", nt "unary_expression", nt "binary_expression",
    nt "ternary_expression", nt "update_expression", nt "new_expression", nt "yield_expression"]),
  ("primary_expression", oneOf [untyped "primary_expression", nt "non_null_expression"]),
  ("jsx_opening_element", weighing (-1) (cat [nt "_jsx_start_opening_element", ">"])),
  ("jsx_self_closing_element", weighing (-1) (cat [nt "_jsx_start_opening_element", "/>"])),
  ("class", bound "literal" (cat [many (fld "decorator" (nt "decorator")), "class",
    fld "name" (opt (nt "_type_identifier")), fld "type_parameters" (opt (nt "type_parameters")),
    opt (nt "class_heritage"), fld "body" (nt "class_body")])),
  ("class_declaration", boundLeft "declare" (cat [many (fld "decorator" (nt "decorator")),
    "class", fld "name" (nt "_type_identifier"),
    fld "type_parameters" (opt (nt "type_parameters")), opt (nt "class_heritage"),
    fld "body" (nt "class_body"), opt (nt "_automatic_semicolon")])),
  ("class_heritage", oneOf [cat [nt "extends_clause", opt (nt "implements_clause")],
    nt "implements_clause"]),
  ("_call_signature", cat [fld "type_parameters" (opt (nt "type_parameters")),
    fld "parameters" (nt "formal_parameters"),
    fld "return_type" (opt (oneOf [nt "type_annotation", nt "asserts_annotation",
    nt "type_predicate_annotation"]))]),
  ("_formal_parameter", oneOf [nt "required_parameter", nt "optional_parameter"]),
  ("call_expression", oneOf [bound "call" (cat [fld "function" (oneOf [nt "expression",
    nt "import"]), fld "type_arguments" (opt (nt "type_arguments")),
    fld "arguments" (nt "arguments")]),
    bound "template_call" (cat [fld "function" (oneOf [nt "primary_expression",
    nt "new_expression"]), fld "arguments" (nt "template_string")]),
    bound "member" (cat [fld "function" (nt "primary_expression"), "?.",
    fld "type_arguments" (opt (nt "type_arguments")), fld "arguments" (nt "arguments")])]),
  ("new_expression", boundRight "new" (cat ["new", fld "constructor" (nt "primary_expression"),
    fld "type_arguments" (opt (nt "type_arguments")), fld "arguments" (opt (nt "arguments"))])),
  ("_lhs_expression", oneOf [untyped "_lhs_expression", nt "non_null_expression"]),
  ("assignment_expression", boundRight "assign" (cat [opt "using",
    fld "left" (oneOf [nt "parenthesized_expression", nt "_lhs_expression"]), "=",
    fld "right" (nt "expression")])),
  ("_augmented_assignment_lhs", oneOf [untyped "_augmented_assignment_lhs",
    nt "non_null_expression"]),
  ("decorator", cat ["@", oneOf [nt "identifier",
    (nt "decorator_member_expression").as "member_expression",
    (nt "decorator_call_expression").as "call_expression",
    (nt "decorator_parenthesized_expression").as "parenthesized_expression"]]),
  ("decorator_call_expression", bound "call" (cat [fld "function" (oneOf [nt "identifier",
    (nt "decorator_member_expression").as "member_expression"]),
    opt (fld "type_arguments" (nt "type_arguments")), fld "arguments" (nt "arguments")])),
  ("class_body", cat ["\x7b", many (oneOf [cat [many (fld "decorator" (nt "decorator")),
    nt "method_definition", opt (nt "_semicolon")], cat [nt "method_signature",
    oneOf [nt "_function_signature_automatic_semicolon", ","]], nt "class_static_block",
    cat [oneOf [nt "abstract_method_signature", nt "index_signature", nt "method_signature",
    nt "public_field_definition"], oneOf [nt "_semicolon", ","]], ";"]), "\x7d"]),
  ("method_definition", left (cat [opt (nt "accessibility_modifier"), opt "static",
    opt (nt "override_modifier"), opt "readonly", opt "async", opt (oneOf ["get", "set", "*"]),
    fld "name" (nt "_property_name"), opt "?", nt "_call_signature",
    fld "body" (nt "statement_block")])),
  ("_reserved_identifier", oneOf ["declare", "namespace", "type", "public", "private",
    "protected", "override", "readonly", "module", "any", "number", "boolean", "string",
    "symbol", "export", "object", "new", "readonly", untyped "_reserved_identifier"])]

/-- Declarations and expressions that only typed modules have. -/
private def declarationRules : List (String × Written) := [
  ("public_field_definition", cat [many (fld "decorator" (nt "decorator")),
    opt (oneOf [cat ["declare", opt (nt "accessibility_modifier")],
    cat [nt "accessibility_modifier", opt "declare"]]), oneOf [cat [opt "static",
    opt (nt "override_modifier"), opt "readonly"], cat [opt "abstract", opt "readonly"],
    cat [opt "readonly", opt "abstract"], opt "accessor"], fld "name" (nt "_property_name"),
    opt (oneOf ["?", "!"]), fld "type" (opt (nt "type_annotation")), opt (nt "_initializer")]),
  ("_jsx_start_opening_element", cat ["<",
    opt (cat [oneOf [fld "name" (oneOf [nt "_jsx_identifier", nt "jsx_namespace_name"]),
    cat [fld "name" (oneOf [nt "identifier", (nt "nested_identifier").as "member_expression"]),
    fld "type_arguments" (opt (nt "type_arguments"))]],
    many (fld "attribute" (nt "_jsx_attribute"))])]),
  ("_import_identifier", oneOf [nt "identifier", (literal "type").as "identifier"]),
  ("non_null_expression", boundLeft "unary" (cat [nt "expression", "!"])),
  ("method_signature", cat [opt (nt "accessibility_modifier"), opt "static",
    opt (nt "override_modifier"), opt "readonly", opt "async", opt (oneOf ["get", "set", "*"]),
    fld "name" (nt "_property_name"), opt "?", nt "_call_signature"]),
  ("abstract_method_signature", cat [opt (nt "accessibility_modifier"), "abstract",
    opt (nt "override_modifier"), opt (oneOf ["get", "set", "*"]),
    fld "name" (nt "_property_name"), opt "?", nt "_call_signature"]),
  ("function_signature", cat [opt "async", "function", fld "name" (nt "identifier"),
    nt "_call_signature", oneOf [nt "_semicolon", nt "_function_signature_automatic_semicolon"]]),
  ("decorator_parenthesized_expression", cat ["(", oneOf [nt "identifier",
    (nt "decorator_member_expression").as "member_expression",
    (nt "decorator_call_expression").as "call_expression"], ")"]),
  ("type_assertion", boundLeft "unary" (cat [nt "type_arguments", nt "expression"])),
  ("as_expression", boundLeft "binary" (cat [nt "expression", "as", oneOf ["const", nt "type"]])),
  ("satisfies_expression", boundLeft "binary" (cat [nt "expression", "satisfies", nt "type"])),
  ("instantiation_expression", bound "instantiation" (cat [nt "expression",
    fld "type_arguments" (nt "type_arguments")])),
  ("import_require_clause", cat [nt "identifier", "=", "require", "(",
    fld "source" (nt "string"), ")"]),
  ("extends_clause", cat ["extends", commas1 (nt "_extends_clause_single")]),
  ("_extends_clause_single", bound "extends" (cat [fld "value" (nt "expression"),
    fld "type_arguments" (opt (nt "type_arguments"))])),
  ("implements_clause", cat ["implements", commas1 (nt "type")]),
  ("ambient_declaration", cat ["declare", oneOf [nt "declaration", cat ["global",
    nt "statement_block"], cat ["module", ".", (nt "identifier").as "property_identifier", ":",
    nt "type", nt "_semicolon"]]]),
  ("abstract_class_declaration", bound "declare" (cat [many (fld "decorator" (nt "decorator")),
    "abstract", "class", fld "name" (nt "_type_identifier"),
    fld "type_parameters" (opt (nt "type_parameters")), opt (nt "class_heritage"),
    fld "body" (nt "class_body")])),
  ("module", cat ["module", nt "_module"]),
  ("internal_module", cat ["namespace", nt "_module"]),
  ("_module", right (cat [fld "name" (oneOf [nt "string", nt "identifier",
    nt "nested_identifier"]), fld "body" (opt (nt "statement_block"))])),
  ("import_alias", cat ["import", nt "identifier", "=", oneOf [nt "identifier",
    nt "nested_identifier"], nt "_semicolon"]),
  ("nested_type_identifier", bound "member" (cat [fld "module" (oneOf [nt "identifier",
    nt "nested_identifier"]), ".", fld "name" (nt "_type_identifier")])),
  ("interface_declaration", cat ["interface", fld "name" (nt "_type_identifier"),
    fld "type_parameters" (opt (nt "type_parameters")), opt (nt "extends_type_clause"),
    fld "body" ((nt "object_type").as "interface_body")]),
  ("extends_type_clause", cat ["extends", cat [fld "type" (oneOf [nt "_type_identifier",
    nt "nested_type_identifier", nt "generic_type"]), many (cat [",",
    fld "type" (oneOf [nt "_type_identifier", nt "nested_type_identifier",
    nt "generic_type"])])]]),
  ("enum_declaration", cat [opt "const", "enum", fld "name" (nt "identifier"),
    fld "body" (nt "enum_body")]),
  ("enum_body", cat ["\x7b", opt (cat [cat [oneOf [fld "name" (nt "_property_name"),
    nt "enum_assignment"], many (cat [",", oneOf [fld "name" (nt "_property_name"),
    nt "enum_assignment"]])], opt ","]), "\x7d"]),
  ("enum_assignment", cat [fld "name" (nt "_property_name"), nt "_initializer"]),
  ("type_alias_declaration", cat ["type", fld "name" (nt "_type_identifier"),
    fld "type_parameters" (opt (nt "type_parameters")), "=", fld "value" (nt "type"),
    nt "_semicolon"])]

private def annotationRules : List (String × Written) := [
  ("accessibility_modifier", oneOf ["public", "private", "protected"]),
  ("override_modifier", "override"),
  ("required_parameter", cat [nt "_parameter_name", fld "type" (opt (nt "type_annotation")),
    opt (nt "_initializer")]),
  ("optional_parameter", cat [nt "_parameter_name", "?", fld "type" (opt (nt "type_annotation")),
    opt (nt "_initializer")]),
  ("_parameter_name", cat [many (fld "decorator" (nt "decorator")),
    opt (nt "accessibility_modifier"), opt (nt "override_modifier"), opt "readonly",
    fld "pattern" (oneOf [nt "pattern", nt "this"])]),
  ("omitting_type_annotation", cat ["-?:", nt "type"]),
  ("adding_type_annotation", cat ["+?:", nt "type"]),
  ("opting_type_annotation", cat ["?:", nt "type"]),
  ("type_annotation", cat [":", oneOf [nt "type",
    (nt "_type_query_member_expression_in_type_annotation").as "member_expression",
    (nt "_type_query_call_expression_in_type_annotation").as "call_expression"]]),
  ("_type_query_member_expression_in_type_annotation", cat [fld "object" (oneOf [nt "import",
    (nt "_type_query_member_expression_in_type_annotation").as "member_expression",
    (nt "_type_query_call_expression_in_type_annotation").as "call_expression"]), ".",
    fld "property" (oneOf [nt "private_property_identifier",
    (nt "identifier").as "property_identifier"])]),
  ("_type_query_call_expression_in_type_annotation", cat [fld "function" (oneOf [nt "import",
    (nt "_type_query_member_expression_in_type_annotation").as "member_expression"]),
    fld "arguments" (nt "arguments")])]

private def typeRules : List (String × Written) := [
  ("asserts", cat ["asserts", oneOf [nt "type_predicate", nt "identifier", nt "this"]]),
  ("asserts_annotation", cat [cat [":", nt "asserts"]]),
  ("type", oneOf [nt "primary_type", nt "function_type", nt "readonly_type",
    nt "constructor_type", nt "infer_type",
    level (-1) ((nt "_type_query_member_expression_in_type_annotation").as "member_expression"),
    level (-1) ((nt "_type_query_call_expression_in_type_annotation").as "call_expression")]),
  ("tuple_parameter", cat [fld "name" (oneOf [nt "identifier", nt "rest_pattern"]),
    fld "type" (nt "type_annotation")]),
  ("optional_tuple_parameter", cat [fld "name" (nt "identifier"), "?",
    fld "type" (nt "type_annotation")]),
  ("optional_type", cat [nt "type", "?"]),
  ("rest_type", cat ["...", nt "type"]),
  ("_tuple_type_member", oneOf [(nt "tuple_parameter").as "required_parameter",
    (nt "optional_tuple_parameter").as "optional_parameter", nt "optional_type", nt "rest_type",
    nt "type"]),
  ("constructor_type", left (cat [opt "abstract", "new",
    fld "type_parameters" (opt (nt "type_parameters")),
    fld "parameters" (nt "formal_parameters"), "=>", fld "type" (nt "type")])),
  ("primary_type", oneOf [nt "parenthesized_type", nt "predefined_type", nt "_type_identifier",
    nt "nested_type_identifier", nt "generic_type", nt "object_type", nt "array_type",
    nt "tuple_type", nt "flow_maybe_type", nt "type_query", nt "index_type_query",
    (nt "this").as "this_type", nt "existential_type", nt "literal_type", nt "lookup_type",
    nt "conditional_type", nt "template_literal_type", nt "intersection_type", nt "union_type",
    "const"]),
  ("template_type", cat ["$\x7b", oneOf [nt "primary_type", nt "infer_type"], "\x7d"]),
  ("template_literal_type", cat ["`", many (oneOf [(nt "_template_chars").as "string_fragment",
    nt "template_type"]), "`"]),
  ("infer_type", right (cat ["infer", nt "_type_identifier", opt (cat ["extends", nt "type"])])),
  ("conditional_type", right (cat [fld "left" (nt "type"), "extends", fld "right" (nt "type"),
    "?", fld "consequence" (nt "type"), ":", fld "alternative" (nt "type")])),
  ("generic_type", bound "call" (cat [fld "name" (oneOf [nt "_type_identifier",
    nt "nested_type_identifier"]), fld "type_arguments" (nt "type_arguments")])),
  ("type_predicate", cat [fld "name" (oneOf [nt "identifier", nt "this",
    (nt "predefined_type").as "identifier"]), "is", fld "type" (nt "type")]),
  ("type_predicate_annotation", cat [cat [":", nt "type_predicate"]]),
  ("_type_query_member_expression", cat [fld "object" (oneOf [nt "identifier", nt "this",
    (nt "_type_query_subscript_expression").as "subscript_expression",
    (nt "_type_query_member_expression").as "member_expression",
    (nt "_type_query_call_expression").as "call_expression"]), oneOf [".", "?."],
    fld "property" (oneOf [nt "private_property_identifier",
    (nt "identifier").as "property_identifier"])]),
  ("_type_query_subscript_expression", cat [fld "object" (oneOf [nt "identifier", nt "this",
    (nt "_type_query_subscript_expression").as "subscript_expression",
    (nt "_type_query_member_expression").as "member_expression",
    (nt "_type_query_call_expression").as "call_expression"]), opt "?.", "[",
    fld "index" (oneOf [nt "predefined_type", nt "string", nt "number"]), "]"]),
  ("_type_query_call_expression", cat [fld "function" (oneOf [nt "import", nt "identifier",
    (nt "_type_query_member_expression").as "member_expression",
    (nt "_type_query_subscript_expression").as "subscript_expression"]),
    fld "arguments" (nt "arguments")]),
  ("_type_query_instantiation_expression", cat [fld "function" (oneOf [nt "import",
    nt "identifier", (nt "_type_query_member_expression").as "member_expression",
    (nt "_type_query_subscript_expression").as "subscript_expression"]),
    fld "type_arguments" (nt "type_arguments")]),
  ("type_query", right (cat ["typeof",
    oneOf [(nt "_type_query_subscript_expression").as "subscript_expression",
    (nt "_type_query_member_expression").as "member_expression",
    (nt "_type_query_call_expression").as "call_expression",
    (nt "_type_query_instantiation_expression").as "instantiation_expression", nt "identifier",
    nt "this"]])),
  ("index_type_query", cat ["keyof", nt "primary_type"]),
  ("lookup_type", cat [nt "primary_type", "[", nt "type", "]"]),
  ("mapped_type_clause", cat [fld "name" (nt "_type_identifier"), "in", fld "type" (nt "type"),
    opt (cat ["as", fld "otherName" (nt "type")])]),
  ("literal_type", oneOf [(nt "_number").as "unary_expression", nt "number", nt "string",
    nt "true", nt "false", nt "null", nt "undefined"]),
  ("_number", levelLeft 1 (cat [fld "operator" (oneOf ["-", "+"]),
    fld "argument" (nt "number")])),
  ("existential_type", "*"),
  ("flow_maybe_type", right (cat ["?", nt "primary_type"])),
  ("parenthesized_type", cat ["(", nt "type", ")"]),
  ("predefined_type", oneOf ["any", "number", "boolean", "string", "symbol", (cat ["unique",
    "symbol"]).asLiteral "unique symbol", "void", "unknown", "string", "never", "object"]),
  ("type_arguments", cat ["<", commas1 (nt "type"), opt ",", ">"]),
  ("object_type", cat [oneOf ["\x7b", "\x7b|"], opt (cat [opt (oneOf [",", ";"]),
    cat [oneOf [nt "export_statement", nt "property_signature", nt "call_signature",
    nt "construct_signature", nt "index_signature", nt "method_signature"],
    many (cat [oneOf [",", nt "_semicolon"], oneOf [nt "export_statement",
    nt "property_signature", nt "call_signature", nt "construct_signature", nt "index_signature",
    nt "method_signature"]])], opt (oneOf [",", nt "_semicolon"])]), oneOf ["\x7d", "|\x7d"]]),
  ("call_signature", nt "_call_signature"),
  ("property_signature", cat [opt (nt "accessibility_modifier"), opt "static",
    opt (nt "override_modifier"), opt "readonly", fld "name" (nt "_property_name"), opt "?",
    fld "type" (opt (nt "type_annotation"))]),
  ("type_parameters", cat ["<", commas1 (nt "type_parameter"), opt ",", ">"]),
  ("type_parameter", cat [opt "const", fld "name" (nt "_type_identifier"),
    fld "constraint" (opt (nt "constraint")), fld "value" (opt (nt "default_type"))]),
  ("default_type", cat ["=", nt "type"]),
  ("constraint", cat [oneOf ["extends", ":"], nt "type"]),
  ("construct_signature", cat [opt "abstract", "new",
    fld "type_parameters" (opt (nt "type_parameters")),
    fld "parameters" (nt "formal_parameters"), fld "type" (opt (nt "type_annotation"))]),
  ("index_signature", cat [opt (cat [fld "sign" (opt (oneOf ["+", "-"])), "readonly"]), "[",
    oneOf [cat [fld "name" (oneOf [nt "identifier",
    (nt "_reserved_identifier").as "identifier"]), ":", fld "index_type" (nt "type")],
    nt "mapped_type_clause"], "]", fld "type" (oneOf [nt "type_annotation",
    nt "omitting_type_annotation", nt "adding_type_annotation", nt "opting_type_annotation"])]),
  ("array_type", cat [nt "primary_type", "[", "]"]),
  ("tuple_type", cat ["[", commas (nt "_tuple_type_member"), opt ",", "]"]),
  ("readonly_type", cat ["readonly", nt "type"]),
  ("union_type", left (cat [opt (nt "type"), "|", nt "type"])),
  ("intersection_type", left (cat [opt (nt "type"), "&", nt "type"])),
  ("function_type", left (cat [fld "type_parameters" (opt (nt "type_parameters")),
    fld "parameters" (nt "formal_parameters"), "=>", fld "return_type" (oneOf [nt "type",
    nt "asserts", nt "type_predicate"])])),
  ("_type_identifier", (nt "identifier").as "type_identifier")]

private def typedRules : List (String × Written) :=
  changedRules ++ declarationRules ++ annotationRules ++ typeRules

/-- The rules of `base`, each in its typed form if it has one, then the others of `typed`. -/
def extend (base typed : List (String × Written)) : List (String × Written) :=
  base.map (fun (n, r) => (n, (typed.lookup n).getD r)) ++
    typed.filter fun (n, _) => (base.lookup n).isNone

def rules : List (String × Written) := extend Script.rules typedRules

private def ruleOrder (line : String) : List Rank := (words line).map .rule

def orders : List (List Rank) := Script.orders ++ [
  (words "call instantiation unary binary").map .binding ++
    [.rule "await_expression", .rule "arrow_function"],
  [.binding "extends", .binding "instantiation"],
  ruleOrder "intersection_type union_type conditional_type function_type" ++ [.binding "binary"] ++
    ruleOrder "type_predicate readonly_type",
  ruleOrder "mapped_type_clause primary_expression",
  ruleOrder "accessibility_modifier primary_expression",
  [.binding "unary_void", .rule "expression"],
  ruleOrder "extends_clause primary_expression",
  [.binding "unary", .binding "assign"],
  [.binding "declare", .rule "expression"],
  ruleOrder "predefined_type unary_expression",
  ruleOrder "type flow_maybe_type",
  ruleOrder "tuple_type array_type pattern type",
  ruleOrder "readonly_type pattern",
  ruleOrder "readonly_type primary_expression",
  ruleOrder "type_query subscript_expression expression",
  ruleOrder "type_query _type_query_subscript_expression",
  ruleOrder "nested_type_identifier generic_type primary_type lookup_type index_type_query type",
  ruleOrder "as_expression satisfies_expression primary_type",
  ruleOrder "_type_query_member_expression member_expression",
  ruleOrder "member_expression _type_query_member_expression_in_type_annotation",
  ruleOrder "_type_query_member_expression primary_expression",
  ruleOrder "_type_query_subscript_expression subscript_expression",
  ruleOrder "_type_query_subscript_expression primary_expression",
  ruleOrder "_type_query_call_expression primary_expression",
  ruleOrder "_type_query_instantiation_expression primary_expression",
  ruleOrder "type_query primary_expression",
  ruleOrder "override_modifier primary_expression",
  ruleOrder "decorator_call_expression decorator",
  ruleOrder "literal_type pattern",
  ruleOrder "predefined_type pattern",
  ruleOrder "call_expression _type_query_call_expression",
  ruleOrder "call_expression _type_query_call_expression_in_type_annotation",
  ruleOrder "new_expression primary_expression",
  ruleOrder "meta_property primary_expression",
  ruleOrder "construct_signature _property_name"]

end TypedScript

open TypedScript Script in
/-- Modules with types. -/
def typedGrammar : Description where
  rules := TypedScript.rules
  scanned := Script.scanned ++ [nt "_function_signature_automatic_semicolon", nt "__error_recovery"]
  extras := ["comment", "html_comment"]
  space := Tokens.space
  groups := Script.groups ++ ["type", "primary_type"]
  inlined := (Script.inlined.filter fun n => n != "_formal_parameter" && n != "_call_signature") ++
    ["_type_identifier", "_jsx_start_opening_element"]
  orders := TypedScript.orders
  word := some "identifier"
  contexts := [
    words "comment regex_pattern",
    words "comment _/",
    words "\" unescaped_double_string_fragment escape_sequence comment",
    words "' unescaped_single_string_fragment escape_sequence comment",
    words "html_character_reference \" unescaped_double_jsx_string_fragment comment",
    words "html_character_reference ' unescaped_single_jsx_string_fragment comment",
    words ("hash_bang_line * = \x7b , \x7d ! ( ; ) : [ ] > . \" ' => ... & | + - / < ~ ++ -- " ++
      "comment ` number identifier private_property_identifier @ ? |\x7d END"),
    words "\x7b html_character_reference </ < escape_sequence comment ` $\x7b",
    words "= \x7b , ( : [ > jsx_identifier . /> & | < comment identifier -?: +?: ?:",
    words ("* \x7b , \x7d ( ; [ ] > \" ' ... & | + - < comment ` number identifier " ++
      "private_property_identifier @ ? \x7b| |\x7d"),
    words ("* \x7b , ! ( ) [ ] . \" ' ... & | + - / < ~ ++ -- comment ` number identifier " ++
      "private_property_identifier @ ? \x7b|"),
    words ("* = \x7b , \x7d ( ; ) : [ ] > . \" ' => ?. ... & | + - < comment number " ++
      "identifier private_property_identifier @ ? |\x7d"),
    words ("* \x7b ( [ > jsx_identifier /> \" ' & | + - < comment ` number identifier ? " ++
      "\x7b|"),
    words ("* = \x7b , \x7d ! ( ; ) : [ ] > . \" ' ?. && || >> >>> << & ^ | + - / % ** < <= " ++
      "== === != !== >= ?? ~ ++ -- comment ` number identifier " ++
      "private_property_identifier @ ? |\x7d END"),
    words ("* \x7b , \x7d ! ( ; ) : [ ] > . ?. && || >> >>> << & ^ | + - / % ** < <= == === " ++
      "!= !== >= ?? ++ -- comment ` regex_flags identifier"),
    words ("* = \x7b , \x7d ! ( ; ) : [ ] > . \" ' => ?. += -= *= /= %= ^= &= |= >>= >>>= " ++
      "<<= **= &&= ||= ??= ... && || >> >>> << & ^ | + - / % ** < <= == === != !== >= " ++
      "?? ~ ++ -- comment ` number identifier private_property_identifier @ ? \x7b| " ++
      "|\x7d"),
    words ("* = \x7b , \x7d ! ( ; ) : [ ] > . \" ' => ?. += -= *= /= %= ^= &= |= >>= >>>= " ++
      "<<= **= &&= ||= ??= ... && || >> >>> << & ^ | + - / % ** < <= == === != !== >= " ++
      "?? ~ ++ -- comment ` number identifier private_property_identifier @ ?")]
  contextual := Script.contextual ++ ["?:"]

end MarkupNesting.Jsx
