import SchemaLang.Ast.Node
import SchemaLang.Printer.Layout
import SchemaLang.Text.Quoted

/-!
# A node from the texts of its parts

`Node.assemble` lays a node out from the texts of its parts alone, taken one after the other in the
order of the source. How many there are of each part it sees from the node.
-/

namespace SchemaLang

/-- What takes texts from the front of a list of them. -/
abbrev Texts (α : Type) := StateM (List String) α

namespace Texts

/-- The next text. -/
def one : Texts String := fun ts => (ts.headD "", ts.tail)

/-- The next `count` texts. -/
def many (count : Nat) : Texts (List String) := fun ts => (ts.take count, ts.drop count)

/-- The next text if there is one for this part. -/
def maybe (present : Bool) : Texts String := if present then one else return ""

/-- The texts of a name and what it stands for. -/
def member : Texts String := do
  let name ← one
  let value ← one
  return Layout.member name value

/-- The texts of an arrow. -/
def hop (direction : Direction) (cardinality : Cardinality) (label : Option NamedType) :
    Texts String := do
  let label ← maybe label.isSome
  let type ← one
  return Layout.hop direction cardinality label type

/-- The texts of a field. -/
def field (d : FieldDefinition) : Texts String := do
  let name ← one
  let arguments ← many d.arguments.length
  let type ← one
  let directives ← many d.directives.length
  return Layout.described d.description (Layout.field name arguments type directives)

/-- The texts of a definition of named entries. -/
def entriesOf (keyword : String) (description : Option String) (directives entries : Nat) :
    Texts String := do
  let name ← one
  let directives ← many directives
  let entries ← many entries
  return Layout.described description (Layout.entriesOf keyword name directives entries)

/-- The texts of a mutation or a query. -/
def operation (keyword : String) (d : OperationDefinition) : Texts String := do
  let name ← one
  let arguments ← many d.arguments.length
  let directives ← many d.directives.length
  match d.result with
  | .type _ => do
    let type ← one
    return Layout.described d.description
      (Layout.operationOfType keyword name arguments directives type)
  | .fields ds => do
    let entries ← many ds.length
    return Layout.described d.description
      (Layout.operationOfFields keyword name arguments directives entries)

/-- The texts of a filter or an order. -/
def targeted (keyword : String) (description : Option String) (entries : Nat) : Texts String := do
  let target ← one
  let entries ← many entries
  return Layout.described description (Layout.targeted keyword target entries)

end Texts

open Texts

/-- Lays a value out. -/
def Value.assemble : Value → Texts String
  | .var .. => return Layout.variableOf (← one)
  | .int text _ => return text
  | .float text _ => return text
  | .string text _ => return Text.quote text
  | .boolean b _ => return Layout.booleanOf b
  | .enum text _ => return text
  | .list values _ => return Layout.listOf (← many values.length)
  | .object fields _ => return Layout.objectOf (← many fields.length)

/-- Lays a type reference out. -/
def TypeRef.assemble : TypeRef → Texts String
  | .named _ => one
  | .list .. => return Layout.listType (← one)
  | .nonNull .. => return Layout.nonNullType (← one)
  | .connection t => hop t.direction t.cardinality t.edgeLabel
  | .connectionJoin t => return Layout.join " " (← many t.connections.length)
  | .edge t => hop t.direction .plural t.edgeLabel

/-- Lays a definition out below a node of kind `parent`. The object in an extension has no
description of its own. -/
def Definition.assemble (parent : Option Kind) : Definition → Texts String
  | .scalar d => do
    let name ← one
    let directives ← many d.directives.length
    return Layout.described d.description (Layout.scalar name directives)
  | .object d => do
    let name ← one
    let interfaces ← many d.interfaces.length
    let directives ← many d.directives.length
    let entries ← many d.fields.length
    let text := Layout.objectType name interfaces directives entries
    return if parent = some .typeExtensionDefinition then text
      else Layout.described d.description text
  | .interface d => entriesOf "interface" d.description d.directives.length d.fields.length
  | .union d => do
    let name ← one
    let directives ← many d.directives.length
    let types ← many d.types.length
    return Layout.described d.description (Layout.union name directives types)
  | .enum d => entriesOf "enum" d.description d.directives.length d.values.length
  | .inputObject d => entriesOf "input" d.description d.directives.length d.fields.length
  | .typeExtension d => return Layout.described d.description (Layout.extension (← one))
  | .directive d => do
    let name ← one
    let arguments ← many d.arguments.length
    let locations ← many d.locations.length
    return Layout.described d.description (Layout.directiveDefinition name arguments locations)
  | .mutation d => operation "mutation" d
  | .query d => operation "query" d
  | .filter d => targeted "filter on" d.description d.conditions.length
  | .order d => targeted "order on" d.description d.expressions.length

/-- Lays a node out below a node of kind `parent`. -/
def Node.assemble (parent : Option Kind) : Node → Texts String
  | .name n => return n.value
  | .document d => return Layout.document (← many d.definitions.length)
  | .value v => v.assemble
  | .objectField _ => Texts.member
  | .argument _ => Texts.member
  | .directive d => do
    let name ← one
    let arguments ← many d.arguments.length
    return Layout.directive name arguments
  | .type t => t.assemble
  | .inputValue d => do
    let name ← one
    let type ← one
    let defaultValue ← maybe d.defaultValue.isSome
    let directives ← many d.directives.length
    return Layout.described d.description (Layout.inputValue name type defaultValue directives)
  | .field _ d => Texts.field d
  | .enumValue d => do
    let name ← one
    let directives ← many d.directives.length
    return Layout.described d.description (Layout.enumValue name directives)
  | .definition d => d.assemble parent
  | .condition c => do
    let key ← one
    let arguments ← many c.arguments.length
    let object ← one
    return Layout.condition key arguments object
  | .ordering e => do
    let key ← one
    let objects ← many e.expression.length
    return Layout.ordering key objects

end SchemaLang
