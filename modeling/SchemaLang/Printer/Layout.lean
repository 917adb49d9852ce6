import SchemaLang.Ast.Definition

/-!
# Layout

How the canonical text of a node is put together from the texts of its parts. A part that is not
there has the empty text, and is left out together with what would separate it from its neighbours.
Blocks have an entry a line, indented by two spaces; so have arguments as soon as one of them takes
more than one line.
-/

namespace SchemaLang.Layout

/-- The items that are there, with a separator between them. -/
def join (separator : String) (items : List String) : String :=
  separator.intercalate (items.filter (· ≠ ""))

/-- A text between two others, or nothing if it is not there. -/
def wrap (start text stop : String) : String :=
  if text = "" then "" else start ++ text ++ stop

/-- Two spaces after a line break. -/
def indentChar (c : Char) : List Char :=
  if c = '\n' then ['\n', ' ', ' '] else [c]

/-- All lines but the first, two spaces further in. -/
def indent (text : String) : String :=
  String.ofList (text.toList.flatMap indentChar)

/-- Whether a text takes more than one line. -/
def isMultiline (text : String) : Bool :=
  text.toList.contains '\n'

/-- Entries between braces, a line for each. -/
def block (entries : List String) : String :=
  if entries.isEmpty then "\x7b\x7d"
  else indent ("\x7b\n" ++ join "\n" entries) ++ "\n\x7d"

/-- Arguments in parentheses, a line for each if one of them needs more than one. -/
def argumentList (arguments : List String) : String :=
  if arguments.any isMultiline then indent ("(\n" ++ join "\n" arguments) ++ "\n)"
  else wrap "(" (join ", " arguments) ")"

/-- A line of a description as it stands in a document. -/
def descriptionLine (line : List Char) : List Char :=
  ['#', '#'] ++ (if line.isEmpty then [] else ' ' :: line) ++ ['\n']

/-- The description of a node on lines of its own above the text of the node. -/
def described (description : Option String) (text : String) : String :=
  match description with
  | none => text
  | some d => String.ofList ((d.toList.splitOn '\n').flatMap descriptionLine) ++ text

/-- A variable. -/
def variableOf (name : String) : String := "$" ++ name

/-- A truth value. -/
def booleanOf (b : Bool) : String := if b then "true" else "false"

/-- A list of values. -/
def listOf (values : List String) : String := "[" ++ join ", " values ++ "]"

/-- An object. -/
def objectOf (fields : List String) : String := "\x7b" ++ join ", " fields ++ "\x7d"

/-- A name and what it stands for. -/
def member (name value : String) : String := name ++ ": " ++ value

/-- A directive. -/
def directive (name : String) (arguments : List String) : String :=
  "@" ++ name ++ wrap "(" (join ", " arguments) ")"

/-- A list type. -/
def listType (type : String) : String := "[" ++ type ++ "]"

/-- A required type. -/
def nonNullType (type : String) : String := type ++ "!"

/-- The two parts of an arrow, before and after its label. -/
def arrow : Direction → Cardinality → String × String
  | .outgoing, .singular => ("-", "->")
  | .outgoing, .plural => ("=", "=>")
  | .incoming, .singular => ("<-", "-")
  | .incoming, .plural => ("<=", "=")

/-- An arrow and the type at its other end. -/
def hop (direction : Direction) (cardinality : Cardinality) (label type : String) : String :=
  let (opening, closing) := arrow direction cardinality
  opening ++ label ++ closing ++ " " ++ type

/-- The parts of a definition after its keyword, on one line. -/
def headed (keyword : String) (parts : List String) : String := join " " (keyword :: parts)

/-- A scalar. -/
def scalar (name : String) (directives : List String) : String :=
  headed "scalar" [name, join " " directives]

/-- An object type, without its description. -/
def objectType (name : String) (interfaces directives entries : List String) : String :=
  headed "type" [name, wrap "implements " (join ", " interfaces) "",
    join " " directives, block entries]

/-- A definition of named entries: an interface, an enum or an input object. -/
def entriesOf (keyword name : String) (directives entries : List String) : String :=
  headed keyword [name, join " " directives, block entries]

/-- A union. -/
def union (name : String) (directives types : List String) : String :=
  headed "union" [name, join " " directives, "= " ++ join " | " types]

/-- A field. -/
def field (name : String) (arguments : List String) (type : String) (directives : List String) :
    String :=
  name ++ argumentList arguments ++ ": " ++ type ++ wrap " " (join " " directives) ""

/-- An argument's definition. -/
def inputValue (name type defaultValue : String) (directives : List String) : String :=
  join " " [member name type, wrap "= " defaultValue "", join " " directives]

/-- A value of an enum. -/
def enumValue (name : String) (directives : List String) : String :=
  join " " [name, join " " directives]

/-- An extension. -/
def extension (definition : String) : String := "extend " ++ definition

/-- A directive's definition. -/
def directiveDefinition (name : String) (arguments locations : List String) : String :=
  "directive @" ++ name ++ argumentList arguments ++ " on " ++ join " | " locations

/-- A mutation or a query up to its result. -/
def operationHead (keyword name : String) (arguments : List String) : String :=
  keyword ++ " " ++ name ++ argumentList arguments

/-- A mutation or a query that answers a type. -/
def operationOfType (keyword name : String) (arguments directives : List String) (type : String) :
    String :=
  operationHead keyword name arguments ++ ": " ++ type ++ wrap " " (join " " directives) ""

/-- A mutation or a query that answers fields. -/
def operationOfFields (keyword name : String) (arguments directives entries : List String) :
    String :=
  operationHead keyword name arguments ++ wrap " " (join " " directives) "" ++ " " ++ block entries

/-- A filter or an order: a block of entries for a target. -/
def targeted (keyword target : String) (entries : List String) : String :=
  headed keyword [target, block entries]

/-- A filter's condition. -/
def condition (key : String) (arguments : List String) (object : String) : String :=
  key ++ ": " ++ wrap "" (argumentList arguments) " " ++ object

/-- An order's expression. One object stands on its own, several in brackets. -/
def ordering (key : String) (objects : List String) : String :=
  key ++ ": " ++ if objects.length > 1 then listOf objects else join "" objects

/-- Definitions with a blank line between them. -/
def document (definitions : List String) : String := join "\n\n" definitions ++ "\n"

end SchemaLang.Layout
