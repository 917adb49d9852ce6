import SchemaLang.Ast.Value

/-!
# Definitions and documents

A document is a list of definitions: types, directives, the shorthand for mutations and queries,
filters and orders. Most of them, and most of their parts, can carry a description, the text of the
`##` lines in front of them.
-/

namespace SchemaLang

/-- `name: value` in the arguments of a directive. -/
structure Argument where
  name : Name
  value : Value
  loc : Option Loc
deriving DecidableEq, Repr

/-- `@name(arguments)`. -/
structure Directive where
  name : Name
  arguments : List Argument
  loc : Option Loc
deriving DecidableEq, Repr

/-- `name: Type = default @directives`: an argument of a field, or a field of an input object. -/
structure InputValueDefinition where
  description : Option String
  name : Name
  type : TypeRef
  defaultValue : Option Value
  directives : List Directive
  loc : Option Loc
deriving DecidableEq, Repr

/-- `name(arguments): Type @directives`: a field of an object, of an interface, or of the result of
a mutation or a query. -/
structure FieldDefinition where
  description : Option String
  name : Name
  arguments : List InputValueDefinition
  type : TypeRef
  directives : List Directive
  loc : Option Loc
deriving DecidableEq, Repr

/-- What a field belongs to. Fields look alike, but nodes of different owners are of
different kinds. -/
inductive FieldOwner where
  | type
  | mutation
  | query
deriving DecidableEq, Repr

/-- `NAME @directives`: a value of an enum, or the key of a filter's condition or an
order's expression. -/
structure EnumValueDefinition where
  description : Option String
  name : Name
  directives : List Directive
  loc : Option Loc
deriving DecidableEq, Repr

/-- `scalar Name @directives`. -/
structure ScalarTypeDefinition where
  description : Option String
  name : Name
  directives : List Directive
  loc : Option Loc
deriving DecidableEq, Repr

/-- `type Name implements A B @directives`, with a block of fields. -/
structure ObjectTypeDefinition where
  description : Option String
  name : Name
  interfaces : List NamedType
  directives : List Directive
  fields : List FieldDefinition
  loc : Option Loc
deriving DecidableEq, Repr

/-- `interface Name @directives`, with a block of fields. -/
structure InterfaceTypeDefinition where
  description : Option String
  name : Name
  directives : List Directive
  fields : List FieldDefinition
  loc : Option Loc
deriving DecidableEq, Repr

/-- `union Name @directives = A | B`. -/
structure UnionTypeDefinition where
  description : Option String
  name : Name
  directives : List Directive
  types : List NamedType
  loc : Option Loc
deriving DecidableEq, Repr

/-- `enum Name @directives`, with a block of values. -/
structure EnumTypeDefinition where
  description : Option String
  name : Name
  directives : List Directive
  values : List EnumValueDefinition
  loc : Option Loc
deriving DecidableEq, Repr

/-- `input Name @directives`, with a block of input fields. -/
structure InputObjectTypeDefinition where
  description : Option String
  name : Name
  directives : List Directive
  fields : List InputValueDefinition
  loc : Option Loc
deriving DecidableEq, Repr

/-- `extend` in front of the definition of an object type. -/
structure TypeExtensionDefinition where
  description : Option String
  definition : ObjectTypeDefinition
  loc : Option Loc
deriving DecidableEq, Repr

/-- `directive @name(arguments) on LOCATION | LOCATION`. -/
structure DirectiveDefinition where
  description : Option String
  name : Name
  arguments : List InputValueDefinition
  locations : List Name
  loc : Option Loc
deriving DecidableEq, Repr

/-- What a mutation or a query answers: a type, or a block of fields. -/
inductive OperationResult where
  | type (t : TypeRef)
  | fields (ds : List FieldDefinition)
deriving DecidableEq, Repr

/-- `name(arguments): Type @directives`, or `name(arguments) @directives` with a block of fields: a
mutation or a query after its keyword. -/
structure OperationDefinition where
  description : Option String
  name : Name
  arguments : List InputValueDefinition
  directives : List Directive
  result : OperationResult
  loc : Option Loc
deriving DecidableEq, Repr

/-- `KEY: (arguments)` and an object: one condition of a filter. -/
structure FilterCondition where
  key : EnumValueDefinition
  arguments : List InputValueDefinition
  condition : ObjectValue
  loc : Option Loc
deriving DecidableEq, Repr

/-- `filter on Target`, with a block of conditions. -/
structure FilterDefinition where
  description : Option String
  type : TypeRef
  conditions : List FilterCondition
  loc : Option Loc
deriving DecidableEq, Repr

/-- `KEY:` and one object, or a list of objects each of which decides where the ones before
it are equal. -/
structure OrderExpression where
  key : EnumValueDefinition
  expression : List ObjectValue
  loc : Option Loc
deriving DecidableEq, Repr

/-- `order on Target`, with a block of expressions. -/
structure OrderDefinition where
  description : Option String
  type : TypeRef
  expressions : List OrderExpression
  loc : Option Loc
deriving DecidableEq, Repr

inductive Definition where
  | scalar (d : ScalarTypeDefinition)
  | object (d : ObjectTypeDefinition)
  | interface (d : InterfaceTypeDefinition)
  | union (d : UnionTypeDefinition)
  | enum (d : EnumTypeDefinition)
  | inputObject (d : InputObjectTypeDefinition)
  | typeExtension (d : TypeExtensionDefinition)
  | directive (d : DirectiveDefinition)
  | mutation (d : OperationDefinition)
  | query (d : OperationDefinition)
  | filter (d : FilterDefinition)
  | order (d : OrderDefinition)
deriving DecidableEq, Repr

/-- The cases of a definition in which its parts show: those of a mutation and of a query are by
what it answers. -/
theorem Definition.byResult {motive : Definition → Prop} (scalar : ∀ d, motive (.scalar d))
    (object : ∀ d, motive (.object d)) (interface : ∀ d, motive (.interface d))
    (union : ∀ d, motive (.union d)) (enum : ∀ d, motive (.enum d))
    (inputObject : ∀ d, motive (.inputObject d)) (typeExtension : ∀ d, motive (.typeExtension d))
    (directive : ∀ d, motive (.directive d)) (mutationType : ∀ text name args directives t loc,
      motive (.mutation ⟨text, name, args, directives, .type t, loc⟩))
    (mutationFields : ∀ text name args directives ds loc,
      motive (.mutation ⟨text, name, args, directives, .fields ds, loc⟩))
    (queryType : ∀ text name args directives t loc,
      motive (.query ⟨text, name, args, directives, .type t, loc⟩))
    (queryFields : ∀ text name args directives ds loc,
      motive (.query ⟨text, name, args, directives, .fields ds, loc⟩))
    (filter : ∀ d, motive (.filter d)) (order : ∀ d, motive (.order d)) (d : Definition) :
    motive d :=
  match d with
  | .scalar d => scalar d
  | .object d => object d
  | .interface d => interface d
  | .union d => union d
  | .enum d => enum d
  | .inputObject d => inputObject d
  | .typeExtension d => typeExtension d
  | .directive d => directive d
  | .mutation ⟨_, _, _, _, .type _, _⟩ => mutationType _ _ _ _ _ _
  | .mutation ⟨_, _, _, _, .fields _, _⟩ => mutationFields _ _ _ _ _ _
  | .query ⟨_, _, _, _, .type _, _⟩ => queryType _ _ _ _ _ _
  | .query ⟨_, _, _, _, .fields _, _⟩ => queryFields _ _ _ _ _ _
  | .filter d => filter d
  | .order d => order d

/-- A document: its definitions in order. A parsed document has at least one. -/
structure Document where
  definitions : List Definition
  loc : Option Loc
deriving DecidableEq, Repr

/-- The kind of a field with this owner. -/
def FieldOwner.kind : FieldOwner → Kind
  | .type => .fieldDefinition
  | .mutation => .mutationFieldDefinition
  | .query => .queryFieldDefinition

namespace OperationResult

/-- The type, if the result is one. -/
def type? : OperationResult → Option TypeRef
  | .type t => some t
  | .fields _ => none

/-- The fields, if the result is a block of them. -/
def fields? : OperationResult → Option (List FieldDefinition)
  | .type _ => none
  | .fields ds => some ds

end OperationResult

namespace Definition

def kind : Definition → Kind
  | .scalar _ => .scalarTypeDefinition
  | .object _ => .objectTypeDefinition
  | .interface _ => .interfaceTypeDefinition
  | .union _ => .unionTypeDefinition
  | .enum _ => .enumTypeDefinition
  | .inputObject _ => .inputObjectTypeDefinition
  | .typeExtension _ => .typeExtensionDefinition
  | .directive _ => .directiveDefinition
  | .mutation _ => .mutationDefinition
  | .query _ => .queryDefinition
  | .filter _ => .filterDefinition
  | .order _ => .orderDefinition

def loc : Definition → Option Loc
  | .scalar d => d.loc
  | .object d => d.loc
  | .interface d => d.loc
  | .union d => d.loc
  | .enum d => d.loc
  | .inputObject d => d.loc
  | .typeExtension d => d.loc
  | .directive d => d.loc
  | .mutation d => d.loc
  | .query d => d.loc
  | .filter d => d.loc
  | .order d => d.loc

/-- The name that is defined. An extension has the name of what it extends; filters and
orders have none. -/
def name? : Definition → Option Name
  | .scalar d => some d.name
  | .object d => some d.name
  | .interface d => some d.name
  | .union d => some d.name
  | .enum d => some d.name
  | .inputObject d => some d.name
  | .typeExtension d => some d.definition.name
  | .directive d => some d.name
  | .mutation d => some d.name
  | .query d => some d.name
  | .filter _ => none
  | .order _ => none

/-- The description in front of the definition. -/
def description : Definition → Option String
  | .scalar d => d.description
  | .object d => d.description
  | .interface d => d.description
  | .union d => d.description
  | .enum d => d.description
  | .inputObject d => d.description
  | .typeExtension d => d.description
  | .directive d => d.description
  | .mutation d => d.description
  | .query d => d.description
  | .filter d => d.description
  | .order d => d.description

/-- What a mutation or a query answers. -/
def result? : Definition → Option OperationResult
  | .mutation d => some d.result
  | .query d => some d.result
  | _ => none

end Definition

end SchemaLang
