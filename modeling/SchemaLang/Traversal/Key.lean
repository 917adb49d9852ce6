import SchemaLang.Ast.Kind

/-!
# Keys

The parts of a node go by keys, the same in its JSON form and in a walk. A key table says which
parts of the nodes of each kind a walk goes into, and in which order. A key that a node has no part
for means nothing for that node.
-/

namespace SchemaLang

/-- What a part of a node goes by. -/
inductive Key where
  | name
  | value
  | values
  | fields
  | arguments
  | definitions
  | type
  | edgeLabel
  | connections
  | directives
  | interfaces
  | types
  | definition
  | locations
  | defaultValue
  | key
  | conditions
  | condition
  | expressions
  | expression
deriving DecidableEq, Repr

namespace Key

/-- The name of the key. -/
def text : Key → String
  | .name => "name"
  | .value => "value"
  | .values => "values"
  | .fields => "fields"
  | .arguments => "arguments"
  | .definitions => "definitions"
  | .type => "type"
  | .edgeLabel => "edgeLabel"
  | .connections => "connections"
  | .directives => "directives"
  | .interfaces => "interfaces"
  | .types => "types"
  | .definition => "definition"
  | .locations => "locations"
  | .defaultValue => "defaultValue"
  | .key => "key"
  | .conditions => "conditions"
  | .condition => "condition"
  | .expressions => "expressions"
  | .expression => "expression"

/-- Every key once. -/
def all : List Key :=
  [.name, .value, .values, .fields, .arguments, .definitions, .type, .edgeLabel,
    .connections, .directives,
   .interfaces, .types, .definition, .locations, .defaultValue, .key, .conditions,
   .condition, .expressions, .expression]

/-- The key with a name. -/
def ofText? (name : String) : Option Key :=
  all.find? fun k => k.text = name

/-- The keys with these names, without the names that no node has a part for. -/
def ofTexts (names : List String) : List Key :=
  names.filterMap ofText?

theorem ofText?_text (k : Key) : ofText? k.text = some k := by
  cases k <;> decide

end Key

/-- The keys of the parts that a walk goes into, in order, for the nodes of a kind. -/
abbrev KeyTable := Kind → List Key

/-- Every part of every node, in the order of the source. -/
def schemaKeys : KeyTable
  | .name => []
  | .document => [.definitions]
  | .var => [.name]
  | .argument => [.name, .value]
  | .intValue => []
  | .floatValue => []
  | .stringValue => []
  | .booleanValue => []
  | .enumValue => []
  | .listValue => [.values]
  | .objectValue => [.fields]
  | .objectField => [.name, .value]
  | .directive => [.name, .arguments]
  | .namedType => [.name]
  | .listType => [.type]
  | .nonNullType => [.type]
  | .connectionType => [.edgeLabel, .type]
  | .connectionJoinType => [.connections]
  | .edgeType => [.edgeLabel, .type]
  | .scalarTypeDefinition => [.name, .directives]
  | .objectTypeDefinition => [.name, .interfaces, .directives, .fields]
  | .fieldDefinition => [.name, .arguments, .type, .directives]
  | .inputValueDefinition => [.name, .type, .defaultValue, .directives]
  | .interfaceTypeDefinition => [.name, .directives, .fields]
  | .unionTypeDefinition => [.name, .directives, .types]
  | .enumTypeDefinition => [.name, .directives, .values]
  | .enumValueDefinition => [.name, .directives]
  | .inputObjectTypeDefinition => [.name, .directives, .fields]
  | .typeExtensionDefinition => [.definition]
  | .directiveDefinition => [.name, .arguments, .locations]
  | .mutationDefinition => [.name, .arguments, .directives, .type, .fields]
  | .mutationFieldDefinition => [.name, .arguments, .type, .directives]
  | .queryDefinition => [.name, .arguments, .directives, .type, .fields]
  | .queryFieldDefinition => [.name, .arguments, .type, .directives]
  | .filterDefinition => [.type, .conditions]
  | .filterCondition => [.key, .arguments, .condition]
  | .orderDefinition => [.type, .expressions]
  | .orderExpression => [.key, .expression]

end SchemaLang
