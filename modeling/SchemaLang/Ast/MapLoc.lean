import SchemaLang.Ast.Definition

/-!
# Changing the locations of a whole document

`mapLoc f` applies `f` to the location of every node below and including the given one, and touches
nothing else. Where `f` answers nothing the location is dropped, so that `mapLoc fun _ => none`
leaves what was written, without where.
-/

namespace SchemaLang

def Argument.mapLoc (f : Loc → Option Loc) (a : Argument) : Argument :=
  ⟨a.name.mapLoc f, a.value.mapLoc f, a.loc.bind f⟩

def Directive.mapLoc (f : Loc → Option Loc) (d : Directive) : Directive :=
  ⟨d.name.mapLoc f, d.arguments.map (·.mapLoc f), d.loc.bind f⟩

def InputValueDefinition.mapLoc (f : Loc → Option Loc) (d : InputValueDefinition) :
    InputValueDefinition :=
  { d with
    name := d.name.mapLoc f
    type := d.type.mapLoc f
    defaultValue := d.defaultValue.map (·.mapLoc f)
    directives := d.directives.map (·.mapLoc f)
    loc := d.loc.bind f }

def FieldDefinition.mapLoc (f : Loc → Option Loc) (d : FieldDefinition) : FieldDefinition :=
  { d with
    name := d.name.mapLoc f
    arguments := d.arguments.map (·.mapLoc f)
    type := d.type.mapLoc f
    directives := d.directives.map (·.mapLoc f)
    loc := d.loc.bind f }

def EnumValueDefinition.mapLoc (f : Loc → Option Loc) (d : EnumValueDefinition) :
    EnumValueDefinition :=
  { d with
    name := d.name.mapLoc f, directives := d.directives.map (·.mapLoc f), loc := d.loc.bind f }

def ScalarTypeDefinition.mapLoc (f : Loc → Option Loc) (d : ScalarTypeDefinition) :
    ScalarTypeDefinition :=
  { d with
    name := d.name.mapLoc f, directives := d.directives.map (·.mapLoc f), loc := d.loc.bind f }

def ObjectTypeDefinition.mapLoc (f : Loc → Option Loc) (d : ObjectTypeDefinition) :
    ObjectTypeDefinition :=
  { d with
    name := d.name.mapLoc f
    interfaces := d.interfaces.map (·.mapLoc f)
    directives := d.directives.map (·.mapLoc f)
    fields := d.fields.map (·.mapLoc f)
    loc := d.loc.bind f }

def InterfaceTypeDefinition.mapLoc (f : Loc → Option Loc) (d : InterfaceTypeDefinition) :
    InterfaceTypeDefinition :=
  { d with
    name := d.name.mapLoc f
    directives := d.directives.map (·.mapLoc f)
    fields := d.fields.map (·.mapLoc f)
    loc := d.loc.bind f }

def UnionTypeDefinition.mapLoc (f : Loc → Option Loc) (d : UnionTypeDefinition) :
    UnionTypeDefinition :=
  { d with
    name := d.name.mapLoc f
    directives := d.directives.map (·.mapLoc f)
    types := d.types.map (·.mapLoc f)
    loc := d.loc.bind f }

def EnumTypeDefinition.mapLoc (f : Loc → Option Loc) (d : EnumTypeDefinition) :
    EnumTypeDefinition :=
  { d with
    name := d.name.mapLoc f
    directives := d.directives.map (·.mapLoc f)
    values := d.values.map (·.mapLoc f)
    loc := d.loc.bind f }

def InputObjectTypeDefinition.mapLoc (f : Loc → Option Loc) (d : InputObjectTypeDefinition) :
    InputObjectTypeDefinition :=
  { d with
    name := d.name.mapLoc f
    directives := d.directives.map (·.mapLoc f)
    fields := d.fields.map (·.mapLoc f)
    loc := d.loc.bind f }

def TypeExtensionDefinition.mapLoc (f : Loc → Option Loc) (d : TypeExtensionDefinition) :
    TypeExtensionDefinition :=
  { d with definition := d.definition.mapLoc f, loc := d.loc.bind f }

def DirectiveDefinition.mapLoc (f : Loc → Option Loc) (d : DirectiveDefinition) :
    DirectiveDefinition :=
  { d with
    name := d.name.mapLoc f
    arguments := d.arguments.map (·.mapLoc f)
    locations := d.locations.map (·.mapLoc f)
    loc := d.loc.bind f }

def OperationResult.mapLoc (f : Loc → Option Loc) : OperationResult → OperationResult
  | .type t => .type (t.mapLoc f)
  | .fields ds => .fields (ds.map (·.mapLoc f))

def OperationDefinition.mapLoc (f : Loc → Option Loc) (d : OperationDefinition) :
    OperationDefinition :=
  { d with
    name := d.name.mapLoc f
    arguments := d.arguments.map (·.mapLoc f)
    directives := d.directives.map (·.mapLoc f)
    result := d.result.mapLoc f
    loc := d.loc.bind f }

def FilterCondition.mapLoc (f : Loc → Option Loc) (c : FilterCondition) : FilterCondition :=
  ⟨c.key.mapLoc f, c.arguments.map (·.mapLoc f), c.condition.mapLoc f, c.loc.bind f⟩

def FilterDefinition.mapLoc (f : Loc → Option Loc) (d : FilterDefinition) : FilterDefinition :=
  { d with
    type := d.type.mapLoc f, conditions := d.conditions.map (·.mapLoc f), loc := d.loc.bind f }

def OrderExpression.mapLoc (f : Loc → Option Loc) (e : OrderExpression) : OrderExpression :=
  ⟨e.key.mapLoc f, e.expression.map (·.mapLoc f), e.loc.bind f⟩

def OrderDefinition.mapLoc (f : Loc → Option Loc) (d : OrderDefinition) : OrderDefinition :=
  { d with
    type := d.type.mapLoc f, expressions := d.expressions.map (·.mapLoc f), loc := d.loc.bind f }

def Definition.mapLoc (f : Loc → Option Loc) : Definition → Definition
  | .scalar d => .scalar (d.mapLoc f)
  | .object d => .object (d.mapLoc f)
  | .interface d => .interface (d.mapLoc f)
  | .union d => .union (d.mapLoc f)
  | .enum d => .enum (d.mapLoc f)
  | .inputObject d => .inputObject (d.mapLoc f)
  | .typeExtension d => .typeExtension (d.mapLoc f)
  | .directive d => .directive (d.mapLoc f)
  | .mutation d => .mutation (d.mapLoc f)
  | .query d => .query (d.mapLoc f)
  | .filter d => .filter (d.mapLoc f)
  | .order d => .order (d.mapLoc f)

def Document.mapLoc (f : Loc → Option Loc) (d : Document) : Document :=
  ⟨d.definitions.map (·.mapLoc f), d.loc.bind f⟩

end SchemaLang
