import SchemaLang.Ast.Parts

/-!
# Nodes from JSON

A place that admits several kinds of nodes goes by the kind that the object names, and refuses what
is no object and an object that names none of them. A place for one kind only does not look at the
kind. Lists may be left out, except the connections of a join and the fields of a result.
-/

namespace SchemaLang

open Json (Read Part Parts byKind readString readBool readNat readList readTag)

def Source.parts : Parts Source :=
  Parts.of Source.mk |>.and (.required "body" readString) |>.and (.required "name" readString)

def Source.ofJson : Json → Read Source := Source.parts.read "Source"

def Loc.parts : Parts Loc :=
  Parts.of Loc.mk |>.and (.required "start" readNat) |>.and (.required "end" readNat)
    |>.and (.nullable "source" Source.ofJson)

def Loc.ofJson : Json → Read Loc := Loc.parts.read "Loc"

namespace Json.Part

/-- The location, the last part of most structures. -/
@[simp] def loc : Part (Option Loc) := .nullable "loc" Loc.ofJson

@[simp] def description : Part (Option String) := .nullable "description" readString

end Json.Part

def Name.parts : Parts Name := Parts.of Name.mk |>.and (.required "value" readString) |>.and .loc

def Name.ofJson : Json → Read Name := Name.parts.read "Name"

@[simp] def Json.Part.name : Part Name := .required "name" Name.ofJson

def NamedType.parts : Parts NamedType := Parts.of NamedType.mk |>.and .name |>.and .loc

def NamedType.ofJson : Json → Read NamedType := NamedType.parts.read "NamedType"

def Direction.ofJson : Json → Read Direction :=
  readTag (Direction.tag .incoming) (Direction.tag .outgoing) .incoming .outgoing

def Cardinality.ofJson : Json → Read Cardinality :=
  readTag (Cardinality.tag .singular) (Cardinality.tag .plural) .singular .plural

def ConnectionType.parts : Parts ConnectionType :=
  Parts.of ConnectionType.mk |>.and (.required "type" NamedType.ofJson)
    |>.and (.nullable "edgeLabel" NamedType.ofJson) |>.and (.required "direction" Direction.ofJson)
    |>.and (.required "cardinality" Cardinality.ofJson) |>.and .loc

def ConnectionType.ofJson : Json → Read ConnectionType := ConnectionType.parts.read "ConnectionType"

/-- Reads the connections of a join, of which there must be two. -/
def readConnections (j : Json) : Read (List ConnectionType) := do
  let ts ← readList ConnectionType.ofJson j
  if ts.length < 2 then .error (.shortJoin ts.length) else return ts

def ConnectionJoinType.parts : Parts ConnectionJoinType :=
  Parts.of ConnectionJoinType.mk |>.and (.required "connections" readConnections) |>.and .loc

def ConnectionJoinType.ofJson : Json → Read ConnectionJoinType :=
  ConnectionJoinType.parts.read "ConnectionJoinType"

def EdgeType.parts : Parts EdgeType :=
  Parts.of EdgeType.mk |>.and (.required "type" NamedType.ofJson)
    |>.and (.nullable "edgeLabel" NamedType.ofJson) |>.and (.required "direction" Direction.ofJson)
    |>.and .loc

def EdgeType.ofJson : Json → Read EdgeType := EdgeType.parts.read "EdgeType"

namespace TypeRef

/-- The parts of a list or of a required type. -/
def parts (make : TypeRef → Option Loc → TypeRef) (readType : Json → Read TypeRef) :
    Parts TypeRef :=
  Parts.of make |>.and (.required "type" readType) |>.and .loc

/-- How a type of a kind is read, with a reader for the types inside. -/
def reader? (readType : Json → Read TypeRef) : Kind → Option (Json → Read TypeRef)
  | .namedType => some fun j => .named <$> NamedType.ofJson j
  | .listType => some ((parts .list readType).read "ListType")
  | .nonNullType => some ((parts .nonNull readType).read "NonNullType")
  | .connectionType => some fun j => .connection <$> ConnectionType.ofJson j
  | .connectionJoinType => some fun j => .connectionJoin <$> ConnectionJoinType.ofJson j
  | .edgeType => some fun j => .edge <$> EdgeType.ofJson j
  | _ => none

end TypeRef

mutual

/-- Reads a type reference by its kind. -/
def TypeRef.ofJson : Json → Read TypeRef
  | .obj ms => byKind (TypeRef.reader? fun _ => typeAt ms) (.obj ms)
  | j => .error (.notANode j)

/-- Reads the type inside a list or a required type. -/
def typeAt : List (String × Json) → Read TypeRef
  | [] => .error (.missing "type")
  | (key, j) :: ms => if key = "type" then TypeRef.ofJson j else typeAt ms

end

@[simp] def Json.Part.type : Part TypeRef := .required "type" TypeRef.ofJson

def ObjectFieldOf.parts (readValue : Json → Read Value) : Parts ObjectField :=
  Parts.of ObjectFieldOf.mk |>.and .name |>.and (.required "value" readValue) |>.and .loc

def ObjectValue.parts (readFields : Json → Read (List ObjectField)) : Parts ObjectValue :=
  Parts.of ObjectValue.mk |>.and ⟨"fields", readFields, some []⟩ |>.and .loc

namespace Value

def varParts : Parts Value := Parts.of Value.var |>.and .name |>.and .loc

/-- The parts of a value that is a text. -/
def textParts (make : String → Option Loc → Value) : Parts Value :=
  Parts.of make |>.and (.required "value" readString) |>.and .loc

def booleanParts : Parts Value :=
  Parts.of Value.boolean |>.and (.required "value" readBool) |>.and .loc

def listParts (readValues : Json → Read (List Value)) : Parts Value :=
  Parts.of Value.list |>.and ⟨"values", readValues, some []⟩ |>.and .loc

/-- How a value of a kind is read, with readers for what is inside a list and an object. -/
def reader? (readValues : Json → Read (List Value)) (readFields : Json → Read (List ObjectField)) :
    Kind → Option (Json → Read Value)
  | .var => some (varParts.read "Variable")
  | .intValue => some ((textParts .int).read "IntValue")
  | .floatValue => some ((textParts .float).read "FloatValue")
  | .stringValue => some ((textParts .string).read "StringValue")
  | .booleanValue => some (booleanParts.read "BooleanValue")
  | .enumValue => some ((textParts .enum).read "EnumValue")
  | .listValue => some ((listParts readValues).read "ListValue")
  | .objectValue =>
    some fun j => ObjectValue.toValue <$> (ObjectValue.parts readFields).read "ObjectValue" j
  | _ => none

end Value

mutual

/-- Reads a value by its kind. -/
def Value.ofJson : Json → Read Value
  | .obj ms => byKind (Value.reader? (fun _ => valuesAt ms) fun _ => fieldsAt ms) (.obj ms)
  | j => .error (.notANode j)

/-- Reads the values of a list. -/
def valuesAt : List (String × Json) → Read (List Value)
  | [] => .error (.missing "values")
  | (key, j) :: ms => if key = "values" then valuesIn j else valuesAt ms

/-- Reads a list of values. -/
def valuesIn : Json → Read (List Value)
  | .arr items => valuesOfJson items
  | j => .error (.wrongType j "a sequence")

/-- Reads values one after the other. -/
def valuesOfJson : List Json → Read (List Value)
  | [] => .ok []
  | j :: js => do
    let v ← Value.ofJson j
    return v :: (← valuesOfJson js)

/-- Reads the members of an object. -/
def fieldsAt : List (String × Json) → Read (List ObjectField)
  | [] => .error (.missing "fields")
  | (key, j) :: ms => if key = "fields" then fieldsIn j else fieldsAt ms

/-- Reads a list of members of an object. -/
def fieldsIn : Json → Read (List ObjectField)
  | .arr items => fieldsOfJson items
  | j => .error (.wrongType j "a sequence")

/-- Reads the members of an object one after the other. -/
def fieldsOfJson : List Json → Read (List ObjectField)
  | [] => .ok []
  | j :: js => do
    let f ← ObjectFieldOf.ofJson j
    return f :: (← fieldsOfJson js)

/-- Reads a member of an object. The value is found under its key, or behind the name. -/
def ObjectFieldOf.ofJson : Json → Read ObjectField
  | .obj ms => (ObjectFieldOf.parts fun _ => valueAt ms).read "ObjectField" (.obj ms)
  | .arr items => (ObjectFieldOf.parts fun _ => secondValue items).read "ObjectField" (.arr items)
  | j => .error (.wrongType j "struct ObjectField")

/-- Reads the value of a member. -/
def valueAt : List (String × Json) → Read Value
  | [] => .error (.missing "value")
  | (key, j) :: ms => if key = "value" then Value.ofJson j else valueAt ms

/-- Reads the second item as a value. -/
def secondValue : List Json → Read Value
  | _ :: j :: _ => Value.ofJson j
  | _ => .error (.missing "value")

end

def ObjectValue.ofJson : Json → Read ObjectValue :=
  (ObjectValue.parts (readList ObjectFieldOf.ofJson)).read "ObjectValue"

def Argument.parts : Parts Argument :=
  Parts.of Argument.mk |>.and .name |>.and (.required "value" Value.ofJson) |>.and .loc

def Argument.ofJson : Json → Read Argument := Argument.parts.read "Argument"

def Directive.parts : Parts Directive :=
  Parts.of Directive.mk |>.and .name |>.and (.list "arguments" Argument.ofJson) |>.and .loc

def Directive.ofJson : Json → Read Directive := Directive.parts.read "Directive"

@[simp] def Json.Part.directives : Part (List Directive) := .list "directives" Directive.ofJson

def InputValueDefinition.parts : Parts InputValueDefinition :=
  Parts.of InputValueDefinition.mk |>.and .description |>.and .name |>.and .type
    |>.and (.nullable "defaultValue" Value.ofJson) |>.and .directives |>.and .loc

def InputValueDefinition.ofJson : Json → Read InputValueDefinition :=
  InputValueDefinition.parts.read "InputValueDefinition"

/-- The definitions of arguments. -/
@[simp] def Json.Part.arguments : Part (List InputValueDefinition) :=
  .list "arguments" InputValueDefinition.ofJson

def FieldDefinition.parts : Parts FieldDefinition :=
  Parts.of FieldDefinition.mk |>.and .description |>.and .name |>.and .arguments |>.and .type
    |>.and .directives |>.and .loc

def FieldDefinition.ofJson (owner : FieldOwner) : Json → Read FieldDefinition :=
  FieldDefinition.parts.read owner.kind.text

def EnumValueDefinition.parts : Parts EnumValueDefinition :=
  Parts.of EnumValueDefinition.mk |>.and .description |>.and .name |>.and .directives |>.and .loc

def EnumValueDefinition.ofJson : Json → Read EnumValueDefinition :=
  EnumValueDefinition.parts.read "EnumValueDefinition"

def ScalarTypeDefinition.parts : Parts ScalarTypeDefinition :=
  Parts.of ScalarTypeDefinition.mk |>.and .description |>.and .name |>.and .directives |>.and .loc

def ScalarTypeDefinition.ofJson : Json → Read ScalarTypeDefinition :=
  ScalarTypeDefinition.parts.read "ScalarTypeDefinition"

def ObjectTypeDefinition.parts : Parts ObjectTypeDefinition :=
  Parts.of ObjectTypeDefinition.mk |>.and .description |>.and .name
    |>.and (.list "interfaces" NamedType.ofJson) |>.and .directives
    |>.and (.list "fields" (FieldDefinition.ofJson .type)) |>.and .loc

def ObjectTypeDefinition.ofJson : Json → Read ObjectTypeDefinition :=
  ObjectTypeDefinition.parts.read "ObjectTypeDefinition"

def InterfaceTypeDefinition.parts : Parts InterfaceTypeDefinition :=
  Parts.of InterfaceTypeDefinition.mk |>.and .description |>.and .name |>.and .directives
    |>.and (.list "fields" (FieldDefinition.ofJson .type)) |>.and .loc

def InterfaceTypeDefinition.ofJson : Json → Read InterfaceTypeDefinition :=
  InterfaceTypeDefinition.parts.read "InterfaceTypeDefinition"

def UnionTypeDefinition.parts : Parts UnionTypeDefinition :=
  Parts.of UnionTypeDefinition.mk |>.and .description |>.and .name |>.and .directives
    |>.and (.list "types" NamedType.ofJson) |>.and .loc

def UnionTypeDefinition.ofJson : Json → Read UnionTypeDefinition :=
  UnionTypeDefinition.parts.read "UnionTypeDefinition"

def EnumTypeDefinition.parts : Parts EnumTypeDefinition :=
  Parts.of EnumTypeDefinition.mk |>.and .description |>.and .name |>.and .directives
    |>.and (.list "values" EnumValueDefinition.ofJson) |>.and .loc

def EnumTypeDefinition.ofJson : Json → Read EnumTypeDefinition :=
  EnumTypeDefinition.parts.read "EnumTypeDefinition"

def InputObjectTypeDefinition.parts : Parts InputObjectTypeDefinition :=
  Parts.of InputObjectTypeDefinition.mk |>.and .description |>.and .name |>.and .directives
    |>.and (.list "fields" InputValueDefinition.ofJson) |>.and .loc

def InputObjectTypeDefinition.ofJson : Json → Read InputObjectTypeDefinition :=
  InputObjectTypeDefinition.parts.read "InputObjectTypeDefinition"

def TypeExtensionDefinition.parts : Parts TypeExtensionDefinition :=
  Parts.of TypeExtensionDefinition.mk |>.and .description
    |>.and (.required "definition" ObjectTypeDefinition.ofJson) |>.and .loc

def TypeExtensionDefinition.ofJson : Json → Read TypeExtensionDefinition :=
  TypeExtensionDefinition.parts.read "TypeExtensionDefinition"

def DirectiveDefinition.parts : Parts DirectiveDefinition :=
  Parts.of DirectiveDefinition.mk |>.and .description |>.and .name |>.and .arguments
    |>.and (.list "locations" Name.ofJson) |>.and .loc

def DirectiveDefinition.ofJson : Json → Read DirectiveDefinition :=
  DirectiveDefinition.parts.read "DirectiveDefinition"

/-- Reads whether a result is a type (false) or fields (true). The tag may also be given by
its place. -/
def readResultTag : Json → Read Bool
  | .str found => Json.tagged "TYPE" "FIELDS" false true found
  | .int 0 => .ok false
  | .int 1 => .ok true
  | .int (.ofNat n) => .error (.wrongValue (.int n) "variant index 0 <= i < 2")
  | j => .error (.wrongType j "variant identifier")

namespace OperationResult

/-- The tag of a result. -/
def tagParts : Parts Bool := Parts.of id |>.and (.required "result" readResultTag)

def typeParts : Parts OperationResult := Parts.of OperationResult.type |>.and .type

def fieldsParts (owner : FieldOwner) : Parts OperationResult :=
  Parts.of OperationResult.fields |>.and ⟨"fields", readList (FieldDefinition.ofJson owner), none⟩

/-- Reads the result of a mutation or a query from the members that belong to it. These were put
aside until the tag was found. -/
def ofMembers (owner : FieldOwner) (ms : List (String × Json)) : Read OperationResult := do
  let isFields ← tagParts.readMembers ms
  let parts := if isFields then fieldsParts owner else typeParts
  (parts.readMembers ms).mapError .afterwards

end OperationResult

/-- What a mutation or a query has besides its result. -/
def OperationDefinition.parts : Parts (OperationResult → OperationDefinition) :=
  Parts.of (fun text name arguments directives loc result =>
      OperationDefinition.mk text name arguments directives result loc)
    |>.and .description |>.and .name |>.and .arguments |>.and .directives |>.and .loc

/-- Reads a mutation or a query, which is an object. Its result is read after all else. -/
def OperationDefinition.ofJson (kind : Kind) (owner : FieldOwner) :
    Json → Read OperationDefinition
  | .obj ms => do
    let make ← OperationDefinition.parts.readMembers ms
    return make (← OperationResult.ofMembers owner ms)
  | j => .error (.wrongType j s!"struct {kind.text}")

def FilterCondition.parts : Parts FilterCondition :=
  Parts.of FilterCondition.mk |>.and (.required "key" EnumValueDefinition.ofJson) |>.and .arguments
    |>.and (.required "condition" ObjectValue.ofJson) |>.and .loc

def FilterCondition.ofJson : Json → Read FilterCondition :=
  FilterCondition.parts.read "FilterCondition"

def FilterDefinition.parts : Parts FilterDefinition :=
  Parts.of FilterDefinition.mk |>.and .description |>.and .type
    |>.and (.list "conditions" FilterCondition.ofJson) |>.and .loc

def FilterDefinition.ofJson : Json → Read FilterDefinition :=
  FilterDefinition.parts.read "FilterDefinition"

def OrderExpression.parts : Parts OrderExpression :=
  Parts.of OrderExpression.mk |>.and (.required "key" EnumValueDefinition.ofJson)
    |>.and (.list "expression" ObjectValue.ofJson) |>.and .loc

def OrderExpression.ofJson : Json → Read OrderExpression :=
  OrderExpression.parts.read "OrderExpression"

def OrderDefinition.parts : Parts OrderDefinition :=
  Parts.of OrderDefinition.mk |>.and .description |>.and .type
    |>.and (.list "expressions" OrderExpression.ofJson) |>.and .loc

def OrderDefinition.ofJson : Json → Read OrderDefinition :=
  OrderDefinition.parts.read "OrderDefinition"

/-- How a definition of a kind is read. -/
def Definition.reader? : Kind → Option (Json → Read Definition)
  | .scalarTypeDefinition => some fun j => .scalar <$> ScalarTypeDefinition.ofJson j
  | .objectTypeDefinition => some fun j => .object <$> ObjectTypeDefinition.ofJson j
  | .interfaceTypeDefinition => some fun j => .interface <$> InterfaceTypeDefinition.ofJson j
  | .unionTypeDefinition => some fun j => .union <$> UnionTypeDefinition.ofJson j
  | .enumTypeDefinition => some fun j => .enum <$> EnumTypeDefinition.ofJson j
  | .inputObjectTypeDefinition => some fun j => .inputObject <$> InputObjectTypeDefinition.ofJson j
  | .typeExtensionDefinition => some fun j => .typeExtension <$> TypeExtensionDefinition.ofJson j
  | .directiveDefinition => some fun j => .directive <$> DirectiveDefinition.ofJson j
  | .mutationDefinition =>
    some fun j => .mutation <$> OperationDefinition.ofJson .mutationDefinition .mutation j
  | .queryDefinition =>
    some fun j => .query <$> OperationDefinition.ofJson .queryDefinition .query j
  | .filterDefinition => some fun j => .filter <$> FilterDefinition.ofJson j
  | .orderDefinition => some fun j => .order <$> OrderDefinition.ofJson j
  | _ => none

/-- Reads a definition by its kind. -/
def Definition.ofJson : Json → Read Definition := byKind Definition.reader?

def Document.parts : Parts Document :=
  Parts.of Document.mk |>.and (.list "definitions" Definition.ofJson) |>.and .loc

/-- Reads a document, without looking at the kind. -/
def Document.ofJson : Json → Read Document := Document.parts.read "Document"

/-- How a node of a kind is read. -/
def Node.reader? : Kind → Option (Json → Read Node)
  | .name => some fun j => .name <$> Name.ofJson j
  | .document => some fun j => .document <$> Document.ofJson j
  | .objectField => some fun j => .objectField <$> ObjectFieldOf.ofJson j
  | .argument => some fun j => .argument <$> Argument.ofJson j
  | .directive => some fun j => .directive <$> Directive.ofJson j
  | .inputValueDefinition => some fun j => .inputValue <$> InputValueDefinition.ofJson j
  | .fieldDefinition => some fun j => .field .type <$> FieldDefinition.ofJson .type j
  | .mutationFieldDefinition =>
    some fun j => .field .mutation <$> FieldDefinition.ofJson .mutation j
  | .queryFieldDefinition => some fun j => .field .query <$> FieldDefinition.ofJson .query j
  | .enumValueDefinition => some fun j => .enumValue <$> EnumValueDefinition.ofJson j
  | .filterCondition => some fun j => .condition <$> FilterCondition.ofJson j
  | .orderExpression => some fun j => .ordering <$> OrderExpression.ofJson j
  | .var | .intValue | .floatValue | .stringValue | .booleanValue | .enumValue | .listValue
  | .objectValue => some fun j => .value <$> Value.ofJson j
  | .namedType | .listType | .nonNullType | .connectionType | .connectionJoinType | .edgeType =>
    some fun j => .type <$> TypeRef.ofJson j
  | .scalarTypeDefinition | .objectTypeDefinition | .interfaceTypeDefinition
  | .unionTypeDefinition | .enumTypeDefinition | .inputObjectTypeDefinition
  | .typeExtensionDefinition | .directiveDefinition | .mutationDefinition | .queryDefinition
  | .filterDefinition | .orderDefinition => some fun j => .definition <$> Definition.ofJson j

/-- Reads a node by its kind. -/
def Node.ofJson : Json → Read Node := byKind Node.reader?

end SchemaLang
