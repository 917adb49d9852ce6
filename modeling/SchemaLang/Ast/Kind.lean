/-!
# Kinds of nodes

Every node of a document tree is of one kind. The text of a kind is how the JSON form, messages and
key tables name it.
-/

namespace SchemaLang

/-- What a node of the tree is. -/
inductive Kind where
  | name
  | document
  | var
  | argument
  | intValue
  | floatValue
  | stringValue
  | booleanValue
  | enumValue
  | listValue
  | objectValue
  | objectField
  | directive
  | namedType
  | listType
  | nonNullType
  | connectionType
  | connectionJoinType
  | edgeType
  | scalarTypeDefinition
  | objectTypeDefinition
  | fieldDefinition
  | inputValueDefinition
  | interfaceTypeDefinition
  | unionTypeDefinition
  | enumTypeDefinition
  | enumValueDefinition
  | inputObjectTypeDefinition
  | typeExtensionDefinition
  | directiveDefinition
  | mutationDefinition
  | mutationFieldDefinition
  | queryDefinition
  | queryFieldDefinition
  | filterDefinition
  | filterCondition
  | orderDefinition
  | orderExpression
deriving DecidableEq, Repr

namespace Kind

/-- The name of the kind. -/
def text : Kind → String
  | .name => "Name"
  | .document => "Document"
  | .var => "Variable"
  | .argument => "Argument"
  | .intValue => "IntValue"
  | .floatValue => "FloatValue"
  | .stringValue => "StringValue"
  | .booleanValue => "BooleanValue"
  | .enumValue => "EnumValue"
  | .listValue => "ListValue"
  | .objectValue => "ObjectValue"
  | .objectField => "ObjectField"
  | .directive => "Directive"
  | .namedType => "NamedType"
  | .listType => "ListType"
  | .nonNullType => "NonNullType"
  | .connectionType => "ConnectionType"
  | .connectionJoinType => "ConnectionJoinType"
  | .edgeType => "EdgeType"
  | .scalarTypeDefinition => "ScalarTypeDefinition"
  | .objectTypeDefinition => "ObjectTypeDefinition"
  | .fieldDefinition => "FieldDefinition"
  | .inputValueDefinition => "InputValueDefinition"
  | .interfaceTypeDefinition => "InterfaceTypeDefinition"
  | .unionTypeDefinition => "UnionTypeDefinition"
  | .enumTypeDefinition => "EnumTypeDefinition"
  | .enumValueDefinition => "EnumValueDefinition"
  | .inputObjectTypeDefinition => "InputObjectTypeDefinition"
  | .typeExtensionDefinition => "TypeExtensionDefinition"
  | .directiveDefinition => "DirectiveDefinition"
  | .mutationDefinition => "MutationDefinition"
  | .mutationFieldDefinition => "MutationFieldDefinition"
  | .queryDefinition => "QueryDefinition"
  | .queryFieldDefinition => "QueryFieldDefinition"
  | .filterDefinition => "FilterDefinition"
  | .filterCondition => "FilterCondition"
  | .orderDefinition => "OrderDefinition"
  | .orderExpression => "OrderExpression"

/-- Every kind once, from names and values through types to definitions. -/
def all : List Kind :=
  [.name, .document, .var, .argument, .intValue, .floatValue, .stringValue, .booleanValue,
    .enumValue, .listValue,
   .objectValue, .objectField, .directive, .namedType, .listType, .nonNullType, .connectionType,
   .connectionJoinType, .edgeType, .scalarTypeDefinition, .objectTypeDefinition, .fieldDefinition,
   .inputValueDefinition, .interfaceTypeDefinition, .unionTypeDefinition, .enumTypeDefinition,
   .enumValueDefinition, .inputObjectTypeDefinition, .typeExtensionDefinition, .directiveDefinition,
   .mutationDefinition, .mutationFieldDefinition, .queryDefinition, .queryFieldDefinition,
   .filterDefinition, .filterCondition, .orderDefinition, .orderExpression]

/-- The kind with a name. -/
def ofText? (name : String) : Option Kind :=
  all.find? fun k => k.text = name

theorem mem_all (k : Kind) : k ∈ all := by
  cases k <;> decide

theorem ofText?_text (k : Kind) : ofText? k.text = some k := by
  cases k <;> decide

theorem text_of_ofText? {name : String} {k : Kind} (h : ofText? name = some k) : k.text = name := by
  simpa using List.find?_some h

end Kind

end SchemaLang
