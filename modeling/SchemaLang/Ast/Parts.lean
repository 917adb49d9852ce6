import SchemaLang.Ast.Encode

/-!
# Structures in JSON

A structure stands in JSON as an object with its parts under their keys, or as an array with its
parts in the order of their declaration. An object may hold members that are no parts, and its
members are read in the order of their keys, whatever the order they are written in: the first one
that cannot be read is the fault, and after that the first part that is wanted and not there. An
array may end early if what it leaves out may be left out, and may not go on behind the last part.

`Parts` lists the parts of a structure. Both ways to read it are recursions on that list.
-/

namespace SchemaLang

/-- Why a JSON value is no node. -/
inductive DecodeError where
  /-- No kind that may stand here. -/
  | notANode (found : Json)
  /-- A part that must be there is not. -/
  | missing (key : String)
  /-- A tag other than the two that may stand here. -/
  | unknownTag (found first second : String)
  /-- A value of the wrong type. -/
  | wrongType (found : Json) (wanted : String)
  /-- A value of the right type that is out of range. -/
  | wrongValue (found : Json) (wanted : String)
  /-- A join of fewer than two connections. -/
  | shortJoin (count : Nat)
  /-- An array in the place of a structure that ends before a part that must be there. -/
  | shortArray (count : Nat) (structName : String) (size : Nat)
  /-- An array in the place of a structure that goes on behind the last part. -/
  | longArray (count size : Nat)
  /-- The same, where the array was put aside before it was read. -/
  | longSequence (count size : Nat)
  /-- A fault in a node that was read by its kind. -/
  | inNode (e : DecodeError)
deriving Repr

/-- A value of the wrong type as a message shows it. -/
def Json.describe : Json → String
  | .null => "null"
  | .bool b => s!"boolean `{b}`"
  | .int n => s!"integer `{n}`"
  | .float negative size => s!"floating point `{Json.floatText negative size}`"
  | .str s => s!"string {Text.visibleString s}"
  | .arr _ => "sequence"
  | .obj _ => "map"

/-- How many of something, in words. -/
def countOf (n : Nat) (singular plural : String) : String :=
  s!"{n} {if n = 1 then singular else plural}"

/-- The message for a person. -/
def DecodeError.message : DecodeError → String
  | .notANode found => s!"Invalid AST Node: {found.sorted.render}"
  | .missing key => s!"missing field `{key}`"
  | .unknownTag found first second =>
    s!"unknown variant `{found}`, expected `{first}` or `{second}`"
  | .wrongType found wanted => s!"invalid type: {found.describe}, expected {wanted}"
  | .wrongValue found wanted => s!"invalid value: {found.describe}, expected {wanted}"
  | .shortJoin count => s!"a ConnectionJoinType needs at least 2 connections, found {count}"
  | .shortArray count structName size =>
    let parts := countOf size "element" "elements"
    s!"invalid length {count}, expected struct {structName} with {parts}"
  | .longArray count _ => s!"invalid length {count}, expected fewer elements in array"
  | .longSequence count size =>
    let parts := countOf size "element in sequence" "elements in sequence"
    s!"invalid length {count}, expected {parts}"
  | .inNode e => e.message

/-- The fault as it is worded where what was read had been put aside before. -/
def DecodeError.afterwards : DecodeError → DecodeError
  | .longArray count size => .longSequence count size
  | e => e

namespace Json

/-- What reading a JSON value gives. -/
abbrev Read (α : Type) := Except DecodeError α

/-- Reads null as nothing. -/
def orNull (read : Json → Read α) : Json → Read (Option α)
  | .null => .ok none
  | j => some <$> read j

/-- Reads a text. -/
def readString : Json → Read String
  | .str s => .ok s
  | j => .error (.wrongType j "a string")

/-- Reads a truth value. -/
def readBool : Json → Read Bool
  | .bool b => .ok b
  | j => .error (.wrongType j "a boolean")

/-- Reads an offset. -/
def readNat : Json → Read Nat
  | .int (.ofNat n) => .ok n
  | .int n => .error (.wrongValue (.int n) "usize")
  | j => .error (.wrongType j "usize")

/-- Reads a list, item after item. -/
def readList (read : Json → Read α) : Json → Read (List α)
  | .arr items => items.mapM read
  | j => .error (.wrongType j "a sequence")

/-- The one of two tags that a text is. -/
def tagged (first second : String) (a b : α) (found : String) : Read α :=
  if found = first then .ok a
  else if found = second then .ok b
  else .error (.unknownTag found first second)

/-- Reads one of two tags: a text, or an object with the tag as its only key and null for its
value. -/
def readTag (first second : String) (a b : α) : Json → Read α
  | .str found => tagged first second a b found
  | .obj [(found, j)] => do
    let tag ← tagged first second a b found
    match j with
    | .null => return tag
    | j => .error (.wrongType j "unit")
  | .obj ms => .error (.wrongValue (.obj ms) "map with a single key")
  | j => .error (.wrongType j "string or map")

/-- The kind that an object names. -/
def kind? (j : Json) : Option Kind :=
  match j.member? "kind" with
  | some (.str name) => Kind.ofText? name
  | _ => none

/-- Reads what stands where nodes of several kinds may stand, each with a reader of its own. -/
def byKind (reader? : Kind → Option (Json → Read α)) (j : Json) : Read α :=
  match j.kind?.bind reader? with
  | some read => (read j).mapError .inNode
  | none => .error (.notANode j)

/-- A part of a structure: its key, how it is read, and what it is where it is left out. A part
for which nothing is said there must not be left out. -/
structure Part (α : Type) where
  key : String
  read : Json → Read α
  absent : Option α

namespace Part

/-- A part that must be there. -/
@[simp] def required (key : String) (read : Json → Read α) : Part α := ⟨key, read, none⟩

/-- A part that may be null or left out. -/
@[simp] def nullable (key : String) (read : Json → Read α) : Part (Option α) :=
  ⟨key, orNull read, some none⟩

/-- A list that may be left out. -/
@[simp] def list (key : String) (read : Json → Read α) : Part (List α) :=
  ⟨key, readList read, some []⟩

end Part

/-- What is wrong with the members of an object: one that cannot be read, or one that must be
there and is not. -/
inductive Fault where
  | unread (key : String) (e : DecodeError)
  | missing (key : String)

namespace Fault

/-- The one of two faults that is met first, where the part that the first one is about is declared
first. -/
def first : Fault → Fault → Fault
  | .unread key e, .unread key' e' => if key' < key then .unread key' e' else .unread key e
  | .missing _, .unread key e => .unread key e
  | f, _ => f

def error : Fault → DecodeError
  | .unread _ e => e
  | .missing key => .missing key

end Fault

/-- Reads a part from the members of an object. -/
def Part.ofMembers (p : Part α) (ms : List (String × Json)) : Except Fault α :=
  match ms.lookup p.key with
  | some j => (p.read j).mapError (.unread p.key)
  | none =>
    match p.absent with
    | some a => .ok a
    | none => .error (.missing p.key)

/-- The parts of a structure in the order of their declaration, and what is made of them. -/
inductive Parts : Type → Type 1
  | of {α : Type} (make : α) : Parts α
  | and {α β : Type} (ps : Parts (β → α)) (p : Part β) : Parts α

namespace Parts

/-- How many parts there are. -/
def size : Parts α → Nat
  | .of _ => 0
  | .and ps _ => ps.size + 1

/-- The keys of the parts. -/
def keys : Parts α → List String
  | .of _ => []
  | .and ps p => ps.keys ++ [p.key]

/-- What is made of two readings, or the fault that is met first. -/
def both : Except Fault (β → α) → Except Fault β → Except Fault α
  | .ok f, .ok b => .ok (f b)
  | .ok _, .error e => .error e
  | .error e, .ok _ => .error e
  | .error e, .error e' => .error (e.first e')

/-- Reads the parts from the members of an object. -/
def ofMembers (ms : List (String × Json)) : Parts α → Except Fault α
  | .of a => .ok a
  | .and ps p => both (ps.ofMembers ms) (p.ofMembers ms)

/-- Reads the parts from the items of an array, and says which items are left. Where items run out
before a part that must be there, the place of that part says what the fault is. -/
def ofItems (short : Nat → DecodeError) : Parts α → List Json → Read (α × List Json)
  | .of a, items => .ok (a, items)
  | .and ps p, items => do
    match ← ps.ofItems short items with
    | (f, j :: rest) => return (f (← p.read j), rest)
    | (f, []) =>
      match p.absent with
      | some b => return (f b, [])
      | none => .error (short ps.size)

/-- Reads the parts from the members of an object. -/
def readMembers (ps : Parts α) (ms : List (String × Json)) : Read α :=
  (ps.ofMembers ms).mapError Fault.error

/-- Reads the parts from the items of an array. -/
def readItems (ps : Parts α) (structName : String) (items : List Json) : Read α := do
  let (a, rest) ← ps.ofItems (fun i => .shortArray i structName ps.size) items
  if rest.isEmpty then return a else .error (.longArray items.length ps.size)

/-- Reads a structure. -/
def read (ps : Parts α) (structName : String) : Json → Read α
  | .obj ms => ps.readMembers ms
  | .arr items => ps.readItems structName items
  | j => .error (.wrongType j s!"struct {structName}")

end Parts

end Json

end SchemaLang
