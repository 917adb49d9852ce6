import SchemaLang.Ast.Decode

/-!
# JSON forms that mean the same

What a reader looks for in an object is a table of fields: the key, whether the member must be
there, and what stands in it. A JSON form may be changed where the table does not look: by members
that are not in it, by the kind where there is only one kind to read, and by leaving out or writing
null for what counts as not there anyway. `Edit` is one such change, at any depth.
-/

namespace SchemaLang

/-- What stands somewhere in a JSON form. -/
inductive Place where
  /-- A text, a number, a truth value or a tag. -/
  | scalar
  | source
  | loc
  | name
  | namedType
  | connection
  | object
  | objectField
  | argument
  | directive
  | inputValue
  | field (owner : FieldOwner)
  | enumValue
  | objectType
  | condition
  | ordering
  /-- A value of the kind that is named. -/
  | value
  /-- A type of the kind that is named. -/
  | type
  /-- A definition of the kind that is named. -/
  | definition
  /-- Any node of the kind that is named. -/
  | node
deriving DecidableEq, Repr

/-- Whether a member must be there, and whether it is a list. -/
inductive Presence where
  | required
  /-- Null and nothing are the same. -/
  | nullable
  /-- A list that is empty if it is not there. -/
  | list
  | requiredList
deriving DecidableEq, Repr

/-- What a reader looks for in an object. In a list the place is that of each item. -/
structure Field where
  key : String
  presence : Presence
  place : Place
deriving DecidableEq, Repr

namespace Field

def kind : Field := ⟨"kind", .required, .scalar⟩

def loc : Field := ⟨"loc", .nullable, .loc⟩

def description : Field := ⟨"description", .nullable, .scalar⟩

def name : Field := ⟨"name", .required, .name⟩

def type : Field := ⟨"type", .required, .type⟩

def directives : Field := ⟨"directives", .list, .directive⟩

/-- The definitions of arguments. -/
def arguments : Field := ⟨"arguments", .list, .inputValue⟩

/-- The member that the tag of a result announces. -/
def ofResult (owner : FieldOwner) (ms : List (String × Json)) : Field :=
  match (ms.lookup "result").map readResultTag with
  | some (.ok true) => ⟨"fields", .requiredList, .field owner⟩
  | _ => type

/-- What is looked for in a mutation or a query. -/
@[simp] def ofOperation (owner : FieldOwner) (ms : List (String × Json)) : List Field :=
  [description, name, arguments, directives, ⟨"result", .required, .scalar⟩, ofResult owner ms, loc]

@[simp] def ofSource : List Field := [⟨"body", .required, .scalar⟩, ⟨"name", .required, .scalar⟩]

@[simp] def ofLoc : List Field :=
  [⟨"start", .required, .scalar⟩, ⟨"end", .required, .scalar⟩, ⟨"source", .nullable, .source⟩]

/-- What is looked for in a node of a kind. Only a mutation or a query depends on what
its members are. -/
@[simp] def ofKind (ms : List (String × Json)) : Kind → List Field
  | .name => [⟨"value", .required, .scalar⟩, loc]
  | .document => [⟨"definitions", .list, .definition⟩, loc]
  | .var => [name, loc]
  | .argument => [name, ⟨"value", .required, .value⟩, loc]
  | .intValue => [⟨"value", .required, .scalar⟩, loc]
  | .floatValue => [⟨"value", .required, .scalar⟩, loc]
  | .stringValue => [⟨"value", .required, .scalar⟩, loc]
  | .booleanValue => [⟨"value", .required, .scalar⟩, loc]
  | .enumValue => [⟨"value", .required, .scalar⟩, loc]
  | .listValue => [⟨"values", .list, .value⟩, loc]
  | .objectValue => [⟨"fields", .list, .objectField⟩, loc]
  | .objectField => [name, ⟨"value", .required, .value⟩, loc]
  | .directive => [name, ⟨"arguments", .list, .argument⟩, loc]
  | .namedType => [name, loc]
  | .listType => [type, loc]
  | .nonNullType => [type, loc]
  | .connectionType =>
    [⟨"type", .required, .namedType⟩, ⟨"edgeLabel", .nullable, .namedType⟩,
     ⟨"direction", .required, .scalar⟩, ⟨"cardinality", .required, .scalar⟩, loc]
  | .connectionJoinType => [⟨"connections", .requiredList, .connection⟩, loc]
  | .edgeType =>
    [⟨"type", .required, .namedType⟩, ⟨"edgeLabel", .nullable, .namedType⟩,
     ⟨"direction", .required, .scalar⟩, loc]
  | .scalarTypeDefinition => [description, name, directives, loc]
  | .objectTypeDefinition =>
    [description, name, ⟨"interfaces", .list, .namedType⟩, directives,
     ⟨"fields", .list, .field .type⟩, loc]
  | .fieldDefinition => [description, name, arguments, type, directives, loc]
  | .inputValueDefinition =>
    [description, name, type, ⟨"defaultValue", .nullable, .value⟩, directives, loc]
  | .interfaceTypeDefinition =>
    [description, name, directives, ⟨"fields", .list, .field .type⟩, loc]
  | .unionTypeDefinition => [description, name, directives, ⟨"types", .list, .namedType⟩, loc]
  | .enumTypeDefinition => [description, name, directives, ⟨"values", .list, .enumValue⟩, loc]
  | .enumValueDefinition => [description, name, directives, loc]
  | .inputObjectTypeDefinition =>
    [description, name, directives, ⟨"fields", .list, .inputValue⟩, loc]
  | .typeExtensionDefinition => [description, ⟨"definition", .required, .objectType⟩, loc]
  | .directiveDefinition => [description, name, arguments, ⟨"locations", .list, .name⟩, loc]
  | .mutationDefinition => ofOperation .mutation ms
  | .mutationFieldDefinition => [description, name, arguments, type, directives, loc]
  | .queryDefinition => ofOperation .query ms
  | .queryFieldDefinition => [description, name, arguments, type, directives, loc]
  | .filterDefinition => [description, type, ⟨"conditions", .list, .condition⟩, loc]
  | .filterCondition =>
    [⟨"key", .required, .enumValue⟩, arguments, ⟨"condition", .required, .object⟩, loc]
  | .orderDefinition => [description, type, ⟨"expressions", .list, .ordering⟩, loc]
  | .orderExpression => [⟨"key", .required, .enumValue⟩, ⟨"expression", .list, .object⟩, loc]

end Field

namespace Place

/-- What is looked for in an object at a place for one structure only, whatever kind the
object names. -/
def fixedFields? : Place → Option (List Field)
  | source => some Field.ofSource
  | loc => some Field.ofLoc
  | name => some (Field.ofKind [] .name)
  | namedType => some (Field.ofKind [] .namedType)
  | connection => some (Field.ofKind [] .connectionType)
  | object => some (Field.ofKind [] .objectValue)
  | objectField => some (Field.ofKind [] .objectField)
  | argument => some (Field.ofKind [] .argument)
  | directive => some (Field.ofKind [] .directive)
  | inputValue => some (Field.ofKind [] .inputValueDefinition)
  | field owner => some (Field.ofKind [] owner.kind)
  | enumValue => some (Field.ofKind [] .enumValueDefinition)
  | objectType => some (Field.ofKind [] .objectTypeDefinition)
  | condition => some (Field.ofKind [] .filterCondition)
  | ordering => some (Field.ofKind [] .orderExpression)
  | scalar | value | type | definition | node => none

/-- What is looked for in an object at a place. -/
def fields? (ms : List (String × Json)) : Place → Option (List Field)
  | scalar => none
  | value | type | definition | node =>
    (Json.kind? (.obj ms)).map fun k => .kind :: Field.ofKind ms k
  | p => p.fixedFields?

end Place

namespace Json

/-- The members without the one with a key. -/
def without (key : String) (ms : List (String × Json)) : List (String × Json) :=
  ms.filter fun m => m.1 ≠ key

/-- The members with another value for a key that is there. -/
def put (key : String) (j : Json) (ms : List (String × Json)) : List (String × Json) :=
  ms.map fun m => if m.1 = key then (key, j) else m

/-- A change to what stands at a place that means nothing to its reader. -/
inductive Edit : Place → Json → Json → Prop
  /-- A member that is not looked for is added, anywhere between the others. -/
  | add {p : Place} {front back : List (String × Json)} {fields : List Field} {key : String}
    {j : Json} (hfields : p.fields? (front ++ back) = some fields)
    (hunknown : ∀ f ∈ fields, f.key ≠ key) (hnew : (front ++ back).lookup key = none) :
    Edit p (.obj (front ++ back)) (.obj (front ++ (key, j) :: back))
  /-- The kind is dropped where there is only one structure to read. -/
  | dropKind {p : Place} {ms : List (String × Json)} (hfixed : p.fixedFields?.isSome) :
    Edit p (.obj ms) (.obj (without "kind" ms))
  /-- The kind is changed where there is only one structure to read. -/
  | changeKind {p : Place} {ms : List (String × Json)} {j : Json} (hfixed : p.fixedFields?.isSome) :
    Edit p (.obj ms) (.obj (put "kind" j ms))
  /-- A null or an empty list is dropped, unless it is a list that must be there. -/
  | drop {p : Place} {ms : List (String × Json)} {fields : List Field} {key : String}
    (hfields : p.fields? ms = some fields)
    (hempty : ms.lookup key = some .null ∨ ms.lookup key = some (.arr []))
    (hlist : ∀ f ∈ fields, f.key = key → f.presence ≠ .requiredList) :
    Edit p (.obj ms) (.obj (without key ms))
  /-- Null is written for what is not there. -/
  | writeNull {p : Place} {front back : List (String × Json)} {fields : List Field} {f : Field}
    (hfields : p.fields? (front ++ back) = some fields) (hf : f ∈ fields)
    (hnullable : f.presence = .nullable) (habsent : (front ++ back).lookup f.key = none) :
    Edit p (.obj (front ++ back)) (.obj (front ++ (f.key, .null) :: back))
  /-- A change inside a member. -/
  | member {p : Place} {ms : List (String × Json)} {fields : List Field} {f : Field} {j j' : Json}
    (hfields : p.fields? ms = some fields) (hf : f ∈ fields)
    (hsingle : f.presence = .required ∨ f.presence = .nullable)
    (hj : ms.lookup f.key = some j) (h : Edit f.place j j') :
    Edit p (.obj ms) (.obj (put f.key j' ms))
  /-- A change inside an item of a list. -/
  | item {p : Place} {ms : List (String × Json)} {fields : List Field} {f : Field}
    {before after : List Json} {j j' : Json} (hfields : p.fields? ms = some fields)
    (hf : f ∈ fields) (hlist : f.presence = .list ∨ f.presence = .requiredList)
    (hj : ms.lookup f.key = some (.arr (before ++ j :: after))) (h : Edit f.place j j') :
    Edit p (.obj ms) (.obj (put f.key (.arr (before ++ j' :: after)) ms))

end Json

end SchemaLang
