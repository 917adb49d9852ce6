import SchemaLang.Ast.Node
import SchemaLang.Printer.Layout
import SchemaLang.Text.Quoted

/-!
# Canonical text

The canonical text of a node, from the texts of its parts, part by part. A document ends with a line
break, no other node does. Nodes that were never parsed have a text as well; it is a document of the
language only if the node could have been parsed.
-/

namespace SchemaLang

def Name.render (n : Name) : String := n.value

def NamedType.render (t : NamedType) : String := t.name.render

/-- The canonical text of the label of an arrow, nothing without one. -/
def NamedType.renderLabel (label : Option NamedType) : String := (label.map render).getD ""

def ConnectionType.render (t : ConnectionType) : String :=
  Layout.hop t.direction t.cardinality (NamedType.renderLabel t.edgeLabel) t.type.render

def ConnectionJoinType.render (t : ConnectionJoinType) : String :=
  Layout.join " " (t.connections.map (·.render))

def EdgeType.render (t : EdgeType) : String :=
  Layout.hop t.direction .plural (NamedType.renderLabel t.edgeLabel) t.type.render

def TypeRef.render : TypeRef → String
  | .named t => t.render
  | .list type _ => Layout.listType type.render
  | .nonNull type _ => Layout.nonNullType type.render
  | .connection t => t.render
  | .connectionJoin t => t.render
  | .edge t => t.render

mutual

def Value.render : Value → String
  | .var name _ => Layout.variableOf name.render
  | .int text _ => text
  | .float text _ => text
  | .string text _ => Text.quote text
  | .boolean b _ => Layout.booleanOf b
  | .enum text _ => text
  | .list values _ => Layout.listOf (renderValues values)
  | .object fields _ => Layout.objectOf (renderFields fields)

def renderValues : List Value → List String
  | [] => []
  | v :: vs => v.render :: renderValues vs

def renderFields : List ObjectField → List String
  | [] => []
  | ⟨name, value, _⟩ :: fs => Layout.member name.render value.render :: renderFields fs

end

def ObjectFieldOf.render (f : ObjectField) : String := Layout.member f.name.render f.value.render

def ObjectValue.render (o : ObjectValue) : String := o.toValue.render

def Argument.render (a : Argument) : String := Layout.member a.name.render a.value.render

def Directive.render (d : Directive) : String :=
  Layout.directive d.name.render (d.arguments.map (·.render))

def InputValueDefinition.render (d : InputValueDefinition) : String :=
  Layout.described d.description
    (Layout.inputValue d.name.render d.type.render ((d.defaultValue.map (·.render)).getD "")
      (d.directives.map (·.render)))

def FieldDefinition.render (d : FieldDefinition) : String :=
  Layout.described d.description
    (Layout.field d.name.render (d.arguments.map (·.render)) d.type.render
      (d.directives.map (·.render)))

def EnumValueDefinition.render (d : EnumValueDefinition) : String :=
  Layout.described d.description (Layout.enumValue d.name.render (d.directives.map (·.render)))

def ScalarTypeDefinition.render (d : ScalarTypeDefinition) : String :=
  Layout.described d.description (Layout.scalar d.name.render (d.directives.map (·.render)))

/-- The canonical text of an object type's definition without its description. -/
def ObjectTypeDefinition.renderBare (d : ObjectTypeDefinition) : String :=
  Layout.objectType d.name.render (d.interfaces.map (·.render)) (d.directives.map (·.render))
    (d.fields.map (·.render))

def ObjectTypeDefinition.render (d : ObjectTypeDefinition) : String :=
  Layout.described d.description d.renderBare

def InterfaceTypeDefinition.render (d : InterfaceTypeDefinition) : String :=
  Layout.described d.description
    (Layout.entriesOf "interface" d.name.render (d.directives.map (·.render))
      (d.fields.map (·.render)))

def UnionTypeDefinition.render (d : UnionTypeDefinition) : String :=
  Layout.described d.description
    (Layout.union d.name.render (d.directives.map (·.render)) (d.types.map (·.render)))

def EnumTypeDefinition.render (d : EnumTypeDefinition) : String :=
  Layout.described d.description
    (Layout.entriesOf "enum" d.name.render (d.directives.map (·.render)) (d.values.map (·.render)))

def InputObjectTypeDefinition.render (d : InputObjectTypeDefinition) : String :=
  Layout.described d.description
    (Layout.entriesOf "input" d.name.render (d.directives.map (·.render)) (d.fields.map (·.render)))

/-- The canonical text of an extension. No description can stand after the keyword, so that the one
of the object is left out. -/
def TypeExtensionDefinition.render (d : TypeExtensionDefinition) : String :=
  Layout.described d.description (Layout.extension d.definition.renderBare)

def DirectiveDefinition.render (d : DirectiveDefinition) : String :=
  Layout.described d.description
    (Layout.directiveDefinition d.name.render (d.arguments.map (·.render))
      (d.locations.map (·.render)))

def OperationDefinition.render (keyword : String) (d : OperationDefinition) : String :=
  let name := d.name.render
  let arguments := d.arguments.map (·.render)
  let directives := d.directives.map (·.render)
  Layout.described d.description <|
    match d.result with
    | .type t => Layout.operationOfType keyword name arguments directives t.render
    | .fields ds => Layout.operationOfFields keyword name arguments directives (ds.map (·.render))

def FilterCondition.render (c : FilterCondition) : String :=
  Layout.condition c.key.render (c.arguments.map (·.render)) c.condition.render

def FilterDefinition.render (d : FilterDefinition) : String :=
  Layout.described d.description
    (Layout.targeted "filter on" d.type.render (d.conditions.map (·.render)))

def OrderExpression.render (e : OrderExpression) : String :=
  Layout.ordering e.key.render (e.expression.map (·.render))

def OrderDefinition.render (d : OrderDefinition) : String :=
  Layout.described d.description
    (Layout.targeted "order on" d.type.render (d.expressions.map (·.render)))

def Definition.render : Definition → String
  | .scalar d => d.render
  | .object d => d.render
  | .interface d => d.render
  | .union d => d.render
  | .enum d => d.render
  | .inputObject d => d.render
  | .typeExtension d => d.render
  | .directive d => d.render
  | .mutation d => d.render "mutation"
  | .query d => d.render "query"
  | .filter d => d.render
  | .order d => d.render

def Document.render (d : Document) : String :=
  Layout.document (d.definitions.map (·.render))

/-- The canonical text of a node on its own. -/
def Node.render : Node → String
  | .name n => n.render
  | .document d => d.render
  | .value v => v.render
  | .objectField f => f.render
  | .argument a => a.render
  | .directive d => d.render
  | .type t => t.render
  | .inputValue d => d.render
  | .field _ d => d.render
  | .enumValue d => d.render
  | .definition d => d.render
  | .condition c => c.render
  | .ordering e => e.render

end SchemaLang
