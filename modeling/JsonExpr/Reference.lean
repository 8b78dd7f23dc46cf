/-!
The reference: an overview of the language and a page for each of its parts, found by name.
-/

namespace JsonExpr.Reference

/-- The parts of the reference. -/
inductive Category
  | syntaxRules
  | operators
  | filters
  | transforms
  | types
deriving DecidableEq, Repr

/-- The part with that name, in letters of either case. -/
def Category.ofName? (name : String) : Option Category :=
  match name.map Char.toLower with
  | "syntax" => some .syntaxRules
  | "operators" | "ops" => some .operators
  | "filters" | "filter" => some .filters
  | "transforms" | "transform" | "functions" => some .transforms
  | "types" | "type" => some .types
  | _ => none

/-- The message for a name that no part has. -/
def unknownCategory (name : String) : String :=
  "Unknown category: '" ++ name ++ "'\nRun 'jexl docs' to see available categories."

/-- The text of a page, every line ended. -/
def pageText (lines : List String) : String :=
  lines.foldr (fun line rest => line ++ "\n" ++ rest) ""

/-- The lines of the overview. -/
def overviewPage : List String := [
  "JEXL DOCUMENTATION",
  "",
  "Jexl is a small expression language evaluated against a JSON context.",
  "Expressions read context values by name, combine them with operators, and",
  "pipe them through host-registered transforms.",
  "",
  "DOCUMENTATION CATEGORIES",
  "",
  "  syntax        Literals, identifiers, property access, objects and arrays",
  "  operators     Arithmetic, comparison and logical operators with precedence",
  "  filters       Bracket access: indexing and per-element filtering",
  "  transforms    Pipes, transforms and function calls",
  "  types         Values, truthiness, null and undefined",
  "",
  "QUICK REFERENCE",
  "",
  "  user.name             Property access",
  "  items[0]              Index",
  "  items[.price > 10]    Filter by element",
  "  a ? b : c             Conditional",
  "  a ?: b                a when truthy, otherwise b",
  "  name|upper            Transform (host-registered)",
  "  Math.max(a, b)        Function call (host-registered)",
  "",
  "Transforms and functions come from the embedding application. The jexl",
  "binary registers none, so 'jexl check' reports them as unknown.",
  "",
  "Run 'jexl doc <category>' for detailed documentation."]

/-- The lines on literals, names and whole expressions. -/
def syntaxPage : List String := [
  "SYNTAX",
  "",
  "LITERALS",
  "  42  -7  3.14          Numbers (a sign directly before a digit is part of the number)",
  "  \"text\"  'text'        Strings; backslash escapes the quote and itself",
  "  true  false           Booleans",
  "  null  undefined       The two empty values",
  "",
  "IDENTIFIERS",
  "  name",
  "    Looks up a top-level key of the context.",
  "",
  "    Example:",
  "      Context:    \x7b\"name\": \"Alice\"\x7d",
  "      Expression: name",
  "      Output:     \"Alice\"",
  "",
  "PROPERTY ACCESS",
  "  user.address.city",
  "    Each step reads a key of the previous value.",
  "",
  "    Constraints:",
  "      - A missing key gives undefined, not an error",
  "      - A property of null is null",
  "      - A property read through an array uses its first element",
  "",
  "OBJECT AND ARRAY LITERALS",
  "  \x7bname: user.name, \"full name\": first + \" \" + last\x7d",
  "  [1, two, \"three\"]",
  "    Members are evaluated in order. Object keys are identifiers or strings.",
  "",
  "CONDITIONALS",
  "  age >= 18 ? \"adult\" : \"minor\"",
  "  nickname ?: name",
  "",
  "WHITESPACE",
  "  Spaces, tabs and newlines between tokens are ignored."]

/-- The lines on operators. -/
def operatorsPage : List String := [
  "OPERATORS",
  "",
  "Lowest to highest precedence. Operators of equal precedence group left,",
  "so 10 - 2 - 3 is 5.",
  "",
  "  10  ||  &&                Logical; return one of their operands",
  "  20  == != < <= > >= in    Comparison and membership",
  "  30  + -                   Addition, subtraction, string concatenation",
  "  40  * / // %              Multiply, divide, floor divide, remainder",
  "  50  ^                     Power",
  "      !                     Logical not (binds tightest)",
  "",
  "LOGICAL",
  "  a || b    a when truthy, otherwise b",
  "  a && b    a when falsy, otherwise b",
  "    The right operand is only evaluated when needed.",
  "",
  "EQUALITY",
  "  1 == 1.0              true",
  "  null == undefined     true",
  "  \"1\" == 1              false",
  "",
  "MEMBERSHIP",
  "  \"ell\" in \"hello\"      Substring",
  "  2 in [1, 2, 3]        Array element",
  "  \"a\" in \x7ba: 1\x7d         Object key",
  "",
  "ARITHMETIC",
  "  10 / 2      5       (exact result: integer)",
  "  10 / 3      3.333   (inexact result: float)",
  "  7 // 2      3",
  "  \"a\" + 1     \"a1\"",
  "  1 / 0       error: division by zero",
  "",
  "Hosts may add, replace or remove any operator."]

/-- The lines on brackets. -/
def filtersPage : List String := [
  "FILTERS",
  "",
  "INDEXING",
  "  items[1]",
  "  user[\"first name\"]",
  "  items[index + 1]",
  "    The bracketed expression is evaluated once. Numbers index arrays and",
  "    strings; anything else is used as a property key.",
  "",
  "    Example:",
  "      Context:    \x7b\"a\": [\x7b\"b\": 1\x7d, \x7b\"b\": 2\x7d]\x7d",
  "      Expression: a[1]",
  "      Output:     \x7b\"b\": 2\x7d",
  "",
  "FILTERING",
  "  items[.price > 10]",
  "    A leading dot reads from the element being tested. Elements for which",
  "    the expression is truthy are kept, in order.",
  "",
  "    Example:",
  "      Context:    \x7b\"a\": [\x7b\"b\": 1\x7d, \x7b\"b\": 2\x7d, \x7b\"b\": 3\x7d]\x7d",
  "      Expression: a[.b > 1]",
  "      Output:     [\x7b\"b\": 2\x7d, \x7b\"b\": 3\x7d]",
  "",
  "    Constraints:",
  "      - A non-array subject is tested as a single element",
  "      - An undefined subject gives []",
  "      - Names without a leading dot still read the outer context:",
  "          items[.price > limit]",
  "",
  "BOOLEAN GUARD",
  "  user[isAdmin]",
  "    A boolean key returns the subject when true and undefined when false."]

/-- The lines on transforms and functions. -/
def transformsPage : List String := [
  "TRANSFORMS AND FUNCTIONS",
  "",
  "Both are registered by the host application; none are built in. The",
  "examples below assume a host that registered them: the jexl binary has an",
  "empty library, so 'jexl check \"x|upper\"' fails with \"Unknown transform\".",
  "",
  "TRANSFORMS",
  "  value|name",
  "  value|name(arg1, arg2)",
  "    The piped value is the first argument: x|f(a, b) calls f(x, a, b).",
  "    Pipes chain from left to right: 5|double|addOne.",
  "",
  "FUNCTIONS",
  "  name(arg1, arg2)",
  "  Math.max(a, b)",
  "    Dotted names call the function registered under the full dotted name.",
  "",
  "NAMESPACED TRANSFORMS",
  "  value|str.upper",
  "    By default the dotted run after a pipe names one transform. Hosts that",
  "    turn this off get a traversal of the transform's result instead."]

/-- The lines on values. -/
def typesPage : List String := [
  "TYPES",
  "",
  "  undefined   Missing value; printed as null in JSON output",
  "  null        Explicit empty value",
  "  boolean     true, false",
  "  integer     Whole numbers",
  "  float       Numbers with a fractional part",
  "  string      Text",
  "  array       Ordered list",
  "  object      Keys in insertion order",
  "",
  "TRUTHINESS",
  "  Falsy: undefined, null, false, 0, NaN, \"\"",
  "  Everything else is truthy, including [] and \x7b\x7d.",
  "",
  "NULL AND UNDEFINED",
  "  foo.bar with \x7b\"foo\": null\x7d     null",
  "  foo.bar with \x7b\x7d                undefined",
  "  null ? 1 : 2                   2"]

/-- The overview. -/
def overview : String :=
  pageText overviewPage

/-- The page for a part. -/
def Category.page : Category → String
  | .syntaxRules => pageText syntaxPage
  | .operators => pageText operatorsPage
  | .filters => pageText filtersPage
  | .transforms => pageText transformsPage
  | .types => pageText typesPage

end JsonExpr.Reference
