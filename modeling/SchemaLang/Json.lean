import SchemaLang.Json.Decimal
import SchemaLang.Text.Quoted

/-!
# JSON values

The form in which trees of a document are exchanged. An object keeps its members in the order they
were written in. `render` writes a value without any blanks, in that order; `sorted` puts the
members of every object in the order of their keys, which is how a message shows a value.
-/

namespace SchemaLang

/-- A JSON value. A number is an integer of 64 bits or a binary number with a sign. -/
inductive Json where
  | null
  | bool (b : Bool)
  | int (n : Int)
  | float (negative : Bool) (size : Json.Binary)
  | str (s : String)
  | arr (items : List Json)
  | obj (members : List (String × Json))
deriving Repr, Inhabited

namespace Json

/-- The text of a binary number with its sign. -/
def floatText (negative : Bool) (size : Binary) : String :=
  (if negative then "-" else "") ++ size.text

mutual

/-- Puts the text of a value behind another text. -/
def renderAfter (text : String) : Json → String
  | .null => text ++ "null"
  | .bool b => text ++ if b then "true" else "false"
  | .int n => text ++ toString n
  | .float negative size => text ++ floatText negative size
  | .str s => text ++ Text.quote s
  | .arr items => renderItems (text ++ "[") items ++ "]"
  | .obj members => renderMembers (text ++ "\x7b") members ++ "\x7d"

/-- Puts the items of an array behind a text, with commas between them. -/
def renderItems (text : String) : List Json → String
  | [] => text
  | [j] => renderAfter text j
  | j :: js => renderItems (renderAfter text j ++ ",") js

/-- Puts the members of an object behind a text, with commas between them. -/
def renderMembers (text : String) : List (String × Json) → String
  | [] => text
  | [(key, j)] => renderAfter (text ++ Text.quote key ++ ":") j
  | (key, j) :: ms => renderMembers (renderAfter (text ++ Text.quote key ++ ":") j ++ ",") ms

end

/-- The text of a value, without blanks. -/
def render (j : Json) : String := renderAfter "" j

/-- Whether one member comes before another by its key. -/
def keyBefore (m n : String × Json) : Bool := m.1 ≤ n.1

mutual

/-- The value with the members of every object in the order of their keys. -/
def sorted : Json → Json
  | .arr items => .arr (sortedItems items)
  | .obj members => .obj ((sortedMembers members).mergeSort keyBefore)
  | .null => .null
  | .bool b => .bool b
  | .int n => .int n
  | .float negative size => .float negative size
  | .str s => .str s

/-- The items of an array, each sorted. -/
def sortedItems : List Json → List Json
  | [] => []
  | j :: js => sorted j :: sortedItems js

/-- The members of an object in their order, each sorted. -/
def sortedMembers : List (String × Json) → List (String × Json)
  | [] => []
  | (key, j) :: ms => (key, sorted j) :: sortedMembers ms

end

/-- The member of an object with a key. -/
def member? (j : Json) (key : String) : Option Json :=
  match j with
  | .obj members => members.lookup key
  | _ => none

end Json

end SchemaLang
