import SchemaLang.Ast.Node
import SchemaLang.Json

/-!
# Nodes as JSON

A node is written as an object that starts with its kind and its description, goes on with its
parts in their order, and ends with its location. Description and location are left out where
there are none; every other part is always written, an empty list as one and an absent default
or label as null.
-/

namespace SchemaLang

namespace Json

/-- A member that is there only if there is something to write. -/
def optional (key : String) (write : α → Json) : Option α → List (String × Json)
  | none => []
  | some a => [(key, write a)]

/-- Null if there is nothing to write. -/
def nullable (write : α → Json) : Option α → Json
  | none => .null
  | some a => write a

/-- A list of what `write` writes. -/
def list (write : α → Json) (items : List α) : Json := .arr (items.map write)

end Json

def Source.toJson (s : Source) : Json := .obj [("body", .str s.body), ("name", .str s.name)]

def Loc.toJson (l : Loc) : Json :=
  .obj ([("start", .int l.start), ("end", .int l.stop)] ++
    Json.optional "source" Source.toJson l.source)

/-- The object that stands for a node of a kind, with its parts. -/
def Json.node (kind : Kind) (description : Option String) (parts : List (String × Json))
    (loc : Option Loc) : Json :=
  .obj (("kind", .str kind.text) :: Json.optional "description" .str description ++ parts ++
    Json.optional "loc" Loc.toJson loc)

def Name.toJson (n : Name) : Json := .node .name none [("value", .str n.value)] n.loc

def NamedType.toJson (t : NamedType) : Json := .node .namedType none [("name", t.name.toJson)] t.loc

/-- The tag of a direction. -/
def Direction.tag : Direction → String
  | .incoming => "IN"
  | .outgoing => "OUT"

/-- The tag of a cardinality. -/
def Cardinality.tag : Cardinality → String
  | .singular => "SINGULAR"
  | .plural => "PLURAL"

def ConnectionType.toJson (t : ConnectionType) : Json :=
  .node .connectionType none
    [("type", t.type.toJson), ("edgeLabel", .nullable NamedType.toJson t.edgeLabel),
      ("direction", .str t.direction.tag),
     ("cardinality", .str t.cardinality.tag)]
    t.loc

def ConnectionJoinType.toJson (t : ConnectionJoinType) : Json :=
  .node .connectionJoinType none [("connections", .list ConnectionType.toJson t.connections)] t.loc

def EdgeType.toJson (t : EdgeType) : Json :=
  .node .edgeType none
    [("type", t.type.toJson), ("edgeLabel", .nullable NamedType.toJson t.edgeLabel),
      ("direction", .str t.direction.tag)]
    t.loc

def TypeRef.toJson : TypeRef → Json
  | .named t => t.toJson
  | .list type loc => .node .listType none [("type", type.toJson)] loc
  | .nonNull type loc => .node .nonNullType none [("type", type.toJson)] loc
  | .connection t => t.toJson
  | .connectionJoin t => t.toJson
  | .edge t => t.toJson

mutual

def Value.toJson : Value → Json
  | .var name loc => .node .var none [("name", name.toJson)] loc
  | .int text loc => .node .intValue none [("value", .str text)] loc
  | .float text loc => .node .floatValue none [("value", .str text)] loc
  | .string text loc => .node .stringValue none [("value", .str text)] loc
  | .boolean b loc => .node .booleanValue none [("value", .bool b)] loc
  | .enum text loc => .node .enumValue none [("value", .str text)] loc
  | .list values loc => .node .listValue none [("values", .arr (valuesToJson values))] loc
  | .object fields loc => .node .objectValue none [("fields", .arr (fieldsToJson fields))] loc

def valuesToJson : List Value → List Json
  | [] => []
  | v :: vs => v.toJson :: valuesToJson vs

def fieldsToJson : List ObjectField → List Json
  | [] => []
  | ⟨name, value, loc⟩ :: fs =>
    .node .objectField none [("name", name.toJson), ("value", value.toJson)] loc :: fieldsToJson fs

end

def ObjectFieldOf.toJson (f : ObjectField) : Json :=
  .node .objectField none [("name", f.name.toJson), ("value", f.value.toJson)] f.loc

def ObjectValue.toJson (o : ObjectValue) : Json := o.toValue.toJson

def Argument.toJson (a : Argument) : Json :=
  .node .argument none [("name", a.name.toJson), ("value", a.value.toJson)] a.loc

def Directive.toJson (d : Directive) : Json :=
  .node .directive none [("name", d.name.toJson),
    ("arguments", .list Argument.toJson d.arguments)] d.loc

def InputValueDefinition.toJson (d : InputValueDefinition) : Json :=
  .node .inputValueDefinition d.description
    [("name", d.name.toJson), ("type", d.type.toJson),
      ("defaultValue", .nullable Value.toJson d.defaultValue),
     ("directives", .list Directive.toJson d.directives)]
    d.loc

def FieldDefinition.toJson (owner : FieldOwner) (d : FieldDefinition) : Json :=
  .node owner.kind d.description
    [("name", d.name.toJson), ("arguments", .list InputValueDefinition.toJson d.arguments),
      ("type", d.type.toJson),
     ("directives", .list Directive.toJson d.directives)]
    d.loc

def EnumValueDefinition.toJson (d : EnumValueDefinition) : Json :=
  .node .enumValueDefinition d.description
    [("name", d.name.toJson), ("directives", .list Directive.toJson d.directives)]
    d.loc

def ScalarTypeDefinition.toJson (d : ScalarTypeDefinition) : Json :=
  .node .scalarTypeDefinition d.description
    [("name", d.name.toJson), ("directives", .list Directive.toJson d.directives)]
    d.loc

def ObjectTypeDefinition.toJson (d : ObjectTypeDefinition) : Json :=
  .node .objectTypeDefinition d.description
    [("name", d.name.toJson), ("interfaces", .list NamedType.toJson d.interfaces),
     ("directives", .list Directive.toJson d.directives),
     ("fields", .list (FieldDefinition.toJson .type) d.fields)]
    d.loc

def InterfaceTypeDefinition.toJson (d : InterfaceTypeDefinition) : Json :=
  .node .interfaceTypeDefinition d.description
    [("name", d.name.toJson), ("directives", .list Directive.toJson d.directives),
     ("fields", .list (FieldDefinition.toJson .type) d.fields)]
    d.loc

def UnionTypeDefinition.toJson (d : UnionTypeDefinition) : Json :=
  .node .unionTypeDefinition d.description
    [("name", d.name.toJson), ("directives", .list Directive.toJson d.directives),
     ("types", .list NamedType.toJson d.types)]
    d.loc

def EnumTypeDefinition.toJson (d : EnumTypeDefinition) : Json :=
  .node .enumTypeDefinition d.description
    [("name", d.name.toJson), ("directives", .list Directive.toJson d.directives),
     ("values", .list EnumValueDefinition.toJson d.values)]
    d.loc

def InputObjectTypeDefinition.toJson (d : InputObjectTypeDefinition) : Json :=
  .node .inputObjectTypeDefinition d.description
    [("name", d.name.toJson), ("directives", .list Directive.toJson d.directives),
     ("fields", .list InputValueDefinition.toJson d.fields)]
    d.loc

def TypeExtensionDefinition.toJson (d : TypeExtensionDefinition) : Json :=
  .node .typeExtensionDefinition d.description [("definition", d.definition.toJson)] d.loc

def DirectiveDefinition.toJson (d : DirectiveDefinition) : Json :=
  .node .directiveDefinition d.description
    [("name", d.name.toJson), ("arguments", .list InputValueDefinition.toJson d.arguments),
     ("locations", .list Name.toJson d.locations)]
    d.loc

/-- The members that stand for the result of a mutation or a query: a tag, and what it announces. -/
def OperationResult.members (owner : FieldOwner) : OperationResult → List (String × Json)
  | .type t => [("result", .str "TYPE"), ("type", t.toJson)]
  | .fields ds => [("result", .str "FIELDS"), ("fields", .list (FieldDefinition.toJson owner) ds)]

def OperationDefinition.toJson (kind : Kind) (owner : FieldOwner)
    (d : OperationDefinition) : Json :=
  .node kind d.description
    ([("name", d.name.toJson), ("arguments", .list InputValueDefinition.toJson d.arguments),
      ("directives", .list Directive.toJson d.directives)] ++ d.result.members owner)
    d.loc

def FilterCondition.toJson (c : FilterCondition) : Json :=
  .node .filterCondition none
    [("key", c.key.toJson), ("arguments", .list InputValueDefinition.toJson c.arguments),
     ("condition", c.condition.toJson)]
    c.loc

def FilterDefinition.toJson (d : FilterDefinition) : Json :=
  .node .filterDefinition d.description
    [("type", d.type.toJson), ("conditions", .list FilterCondition.toJson d.conditions)]
    d.loc

def OrderExpression.toJson (e : OrderExpression) : Json :=
  .node .orderExpression none
    [("key", e.key.toJson), ("expression", .list ObjectValue.toJson e.expression)]
    e.loc

def OrderDefinition.toJson (d : OrderDefinition) : Json :=
  .node .orderDefinition d.description
    [("type", d.type.toJson), ("expressions", .list OrderExpression.toJson d.expressions)]
    d.loc

def Definition.toJson : Definition → Json
  | .scalar d => d.toJson
  | .object d => d.toJson
  | .interface d => d.toJson
  | .union d => d.toJson
  | .enum d => d.toJson
  | .inputObject d => d.toJson
  | .typeExtension d => d.toJson
  | .directive d => d.toJson
  | .mutation d => d.toJson .mutationDefinition .mutation
  | .query d => d.toJson .queryDefinition .query
  | .filter d => d.toJson
  | .order d => d.toJson

def Document.toJson (d : Document) : Json :=
  .node .document none [("definitions", .list Definition.toJson d.definitions)] d.loc

/-- The JSON form of a node. -/
def Node.toJson : Node → Json
  | .name n => n.toJson
  | .document d => d.toJson
  | .value v => v.toJson
  | .objectField f => f.toJson
  | .argument a => a.toJson
  | .directive d => d.toJson
  | .type t => t.toJson
  | .inputValue d => d.toJson
  | .field owner d => d.toJson owner
  | .enumValue d => d.toJson
  | .definition d => d.toJson
  | .condition c => c.toJson
  | .ordering e => e.toJson

end SchemaLang
