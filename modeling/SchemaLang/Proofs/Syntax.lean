import SchemaLang.Proofs.Form

/-!
# The forms of nodes

The concrete syntax of every node, in the order of the source. A description belongs to the first
word of what it describes; the object in an extension has none.
-/

namespace SchemaLang

def Name.form (n : Name) : Form := .located n.loc (.token (.name n.value) rfl)

/-- A name with a description in front that belongs to what is named. -/
def Name.describedForm (description : Option String) (n : Name) : Form :=
  .located n.loc (.described description (.name n.value) rfl)

def NamedType.form (t : NamedType) : Form := .located t.loc t.name.form

mutual

def Value.form : Value → Form
  | .var n loc => .located loc (.all [.punctuator .dollar, n.form])
  | .int text loc => .located loc (.token (.int text) rfl)
  | .float text loc => .located loc (.token (.float text) rfl)
  | .string text loc => .located loc (.token (.string text) rfl)
  | .boolean b loc => .located loc (.word (if b then "true" else "false"))
  | .enum text loc => .located loc (.word text)
  | .list vs loc => .located loc (.block .bracketOpen .bracketClose (Value.forms vs))
  | .object fs loc => .located loc (.block .braceOpen .braceClose (Value.fieldForms fs))

def Value.forms : List Value → List Form
  | [] => []
  | v :: vs => v.form :: Value.forms vs

def Value.fieldForms : List ObjectField → List Form
  | [] => []
  | ⟨n, v, loc⟩ :: fs =>
    .located loc (.all [n.form, .punctuator .colon, v.form]) :: Value.fieldForms fs

end

def ObjectFieldOf.form (f : ObjectField) : Form :=
  .located f.loc (.all [f.name.form, .punctuator .colon, f.value.form])

def ObjectValue.form (o : ObjectValue) : Form := o.toValue.form

def Argument.form (a : Argument) : Form :=
  .located a.loc (.all [a.name.form, .punctuator .colon, a.value.form])

def Directive.form (d : Directive) : Form :=
  .located d.loc (.all
    [.punctuator .atSign, d.name.form,
     .optionalBlock .parenOpen .parenClose (d.arguments.map (·.form))])

/-- Any number of directives. -/
def Directive.forms (ds : List Directive) : Form := .all (ds.map (·.form))

/-- The characters of an arrow in front of its label. -/
def arrowStartForm : Direction → Cardinality → Form
  | .outgoing, .singular => .all [.punctuator .dash]
  | .outgoing, .plural => .all [.punctuator .equals]
  | .incoming, .singular => .all [.punctuator .less, .punctuator .dash]
  | .incoming, .plural => .all [.punctuator .less, .punctuator .equals]

/-- The characters of an arrow behind its label. -/
def arrowEndForm : Direction → Cardinality → Form
  | .outgoing, .singular => .all [.punctuator .dash, .punctuator .greater]
  | .outgoing, .plural => .all [.punctuator .equals, .punctuator .greater]
  | .incoming, .singular => .all [.punctuator .dash]
  | .incoming, .plural => .all [.punctuator .equals]

def labelForm : Option NamedType → Form
  | none => .empty
  | some t => t.form

/-- An arrow with its label and the type it leads to. -/
def arrowForm (direction : Direction) (cardinality : Cardinality) (label : Option NamedType)
    (t : NamedType) : Form :=
  .all [arrowStartForm direction cardinality, labelForm label,
    arrowEndForm direction cardinality, t.form]

def ConnectionType.form (t : ConnectionType) : Form :=
  .located t.loc (arrowForm t.direction t.cardinality t.edgeLabel t.type)

def EdgeType.form (t : EdgeType) :
    Form := .located t.loc (arrowForm t.direction .plural t.edgeLabel t.type)

def TypeRef.form : TypeRef → Form
  | .named t => t.form
  | .list t loc => .located loc (.all [.punctuator .bracketOpen, t.form, .punctuator .bracketClose])
  | .nonNull t loc => .located loc (.all [t.form, .punctuator .bang])
  | .connection t => t.form
  | .connectionJoin t => .located t.loc (.all (t.connections.map (·.form)))
  | .edge t => t.form

/-- The default of an argument, with the sign in front of it. -/
def defaultForm : Option Value → Form
  | none => .empty
  | some v => .all [.punctuator .equals, v.form]

def InputValueDefinition.form (d : InputValueDefinition) : Form :=
  .located d.loc (.all
    [d.name.describedForm d.description, .punctuator .colon, d.type.form,
     defaultForm d.defaultValue, Directive.forms d.directives])

/-- The definitions of arguments in parentheses, or nothing. -/
def InputValueDefinition.argumentForms (ds : List InputValueDefinition) : Form :=
  .optionalBlock .parenOpen .parenClose (ds.map (·.form))

def FieldDefinition.form (d : FieldDefinition) : Form :=
  .located d.loc (.all
    [d.name.describedForm d.description, InputValueDefinition.argumentForms d.arguments,
     .punctuator .colon, d.type.form, Directive.forms d.directives])

def EnumValueDefinition.form (d : EnumValueDefinition) : Form :=
  .located d.loc (.all [d.name.describedForm d.description, Directive.forms d.directives])

def ScalarTypeDefinition.form (d : ScalarTypeDefinition) : Form :=
  .located d.loc (.all [.heading d.description "scalar", d.name.form, Directive.forms d.directives])

/-- The interfaces of an object, with the word in front of them. -/
def interfaceForms : List NamedType → Form
  | [] => .empty
  | t :: ts => .all [.word "implements", t.form, .all (ts.map (·.form))]

/-- The definition of an object whose first word is `first`. -/
def ObjectTypeDefinition.formFrom (first : Form) (d : ObjectTypeDefinition) : Form :=
  .located d.loc (.all
    [first, d.name.form, interfaceForms d.interfaces, Directive.forms d.directives,
     .block .braceOpen .braceClose (d.fields.map (·.form))])

def ObjectTypeDefinition.form (d : ObjectTypeDefinition) : Form :=
  d.formFrom (.heading d.description "type")

def InterfaceTypeDefinition.form (d : InterfaceTypeDefinition) : Form :=
  .located d.loc (.all
    [.heading d.description "interface", d.name.form, Directive.forms d.directives,
     .block .braceOpen .braceClose (d.fields.map (·.form))])

def UnionTypeDefinition.form (d : UnionTypeDefinition) : Form :=
  .located d.loc (.all
    [.heading d.description "union", d.name.form, Directive.forms d.directives, .punctuator .equals,
     .separated .pipe (d.types.map (·.form))])

def EnumTypeDefinition.form (d : EnumTypeDefinition) : Form :=
  .located d.loc (.all
    [.heading d.description "enum", d.name.form, Directive.forms d.directives,
     .block .braceOpen .braceClose (d.values.map (·.form))])

def InputObjectTypeDefinition.form (d : InputObjectTypeDefinition) : Form :=
  .located d.loc (.all
    [.heading d.description "input", d.name.form, Directive.forms d.directives,
     .block .braceOpen .braceClose (d.fields.map (·.form))])

def TypeExtensionDefinition.form (d : TypeExtensionDefinition) : Form :=
  .located d.loc (.all [.heading d.description "extend", d.definition.formFrom (.word "type")])

def DirectiveDefinition.form (d : DirectiveDefinition) : Form :=
  .located d.loc (.all
    [.heading d.description "directive", .punctuator .atSign, d.name.form,
     InputValueDefinition.argumentForms d.arguments, .word "on",
     .separated .pipe (d.locations.map (·.form))])

/-- The result of a mutation or a query together with its directives. -/
def OperationResult.form (directives : List Directive) : OperationResult → Form
  | .type t => .all [.punctuator .colon, t.form, Directive.forms directives]
  | .fields ds => .all [Directive.forms directives, .block .braceOpen .braceClose (ds.map (·.form))]

def OperationDefinition.form (keyword : String) (d : OperationDefinition) : Form :=
  .located d.loc (.all
    [.heading d.description keyword, d.name.form, InputValueDefinition.argumentForms d.arguments,
     d.result.form d.directives])

def FilterCondition.form (c : FilterCondition) : Form :=
  .located c.loc (.all
    [c.key.form, .punctuator .colon, InputValueDefinition.argumentForms c.arguments,
     c.condition.form])

def FilterDefinition.form (d : FilterDefinition) : Form :=
  .located d.loc (.all
    [.heading d.description "filter", .word "on", d.type.form,
     .block .braceOpen .braceClose (d.conditions.map (·.form))])

/-- The objects of an order's expression. One object needs no brackets. -/
def OrderExpression.objectsForm : List ObjectValue → Form
  | [o] => .bracketable o.form
  | os => .block .bracketOpen .bracketClose (os.map (·.form))

def OrderExpression.form (e : OrderExpression) : Form :=
  .located e.loc (.all [e.key.form, .punctuator .colon, OrderExpression.objectsForm e.expression])

def OrderDefinition.form (d : OrderDefinition) : Form :=
  .located d.loc (.all
    [.heading d.description "order", .word "on", d.type.form,
     .block .braceOpen .braceClose (d.expressions.map (·.form))])

def Definition.form : Definition → Form
  | .scalar d => d.form
  | .object d => d.form
  | .interface d => d.form
  | .union d => d.form
  | .enum d => d.form
  | .inputObject d => d.form
  | .typeExtension d => d.form
  | .directive d => d.form
  | .mutation d => d.form "mutation"
  | .query d => d.form "query"
  | .filter d => d.form
  | .order d => d.form

/-- The definitions, without the end of the input. -/
def Document.form (d : Document) : Form := .all (d.definitions.map (·.form))

theorem Value.forms_eq_map (vs : List Value) : Value.forms vs = vs.map Value.form := by
  induction vs with
  | nil => rfl
  | cons v vs ih => rw [Value.forms, ih, List.map_cons]

theorem Value.fieldForms_eq_map (fs : List ObjectField) :
    Value.fieldForms fs = fs.map ObjectFieldOf.form := by
  induction fs with
  | nil => rfl
  | cons f fs ih => rw [Value.fieldForms, ih, List.map_cons, ObjectFieldOf.form]

@[simp] theorem Name.tokens_form (n : Name) : n.form.tokens = [.name n.value] := rfl

@[simp] theorem Name.tokens_describedForm (d : Option String) (n : Name) :
    (n.describedForm d).tokens = descriptionTokens d ++ [.name n.value] := rfl

/-- The first token of a value is none that ends a list. -/
theorem Value.starts_form (v : Value) : v.form.Starts (· ≠ .punctuator .bracketClose) := by
  cases v <;> simp [Value.form, Form.Starts, Form.all, Form.block, Form.punctuator, Form.word]

end SchemaLang
