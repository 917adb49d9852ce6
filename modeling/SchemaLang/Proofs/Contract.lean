import SchemaLang.Ast.MapLoc
import SchemaLang.Proofs.Vocabulary

/-!
# The contract of document trees

The tree can hold any type reference and any value in every slot. `Document.Conforms depth` says
which trees are those of a document: names, numbers and descriptions are in the vocabulary,
every slot for a type holds one that may stand there, no default value contains a variable, what
must not be empty is not, and values and list types are nested at most `depth` deep. Locations
do not matter to it.
-/

namespace SchemaLang

/-- Its text is a name. -/
def Name.Conforms (n : Name) : Prop := IsName n.value

/-- Its text is a name. -/
def NamedType.Conforms (t : NamedType) : Prop := t.name.Conforms

mutual

/-- A value as it can be written; in a constant one no variable stands at any depth. -/
def Value.IsWritable (constant : Bool) : Value → Prop
  | .var n _ => constant = false ∧ n.Conforms
  | .int text _ => IsNumber text false
  | .float text _ => IsNumber text true
  | .string .. => True
  | .boolean .. => True
  | .enum text _ => IsName text ∧ text ≠ "true" ∧ text ≠ "false" ∧ text ≠ "null"
  | .list values _ => Value.AreWritable constant values
  | .object fields _ => Value.FieldsAreWritable constant fields

/-- Values as they can be written. -/
def Value.AreWritable (constant : Bool) : List Value → Prop
  | [] => True
  | v :: vs => v.IsWritable constant ∧ Value.AreWritable constant vs

/-- Members of an object as they can be written. -/
def Value.FieldsAreWritable (constant : Bool) : List ObjectField → Prop
  | [] => True
  | ⟨name, value, _⟩ :: fs =>
    (name.Conforms ∧ value.IsWritable constant) ∧ Value.FieldsAreWritable constant fs

end

/-- A value that can be written, with lists and objects nested at most `depth` deep. -/
def Value.Conforms (constant : Bool) (depth : Nat) (v : Value) : Prop :=
  v.IsWritable constant ∧ v.nesting ≤ depth

/-- The name and the value can be written. -/
def ObjectFieldOf.Conforms (constant : Bool) (depth : Nat) (f : ObjectField) : Prop :=
  f.name.Conforms ∧ f.value.Conforms constant depth

theorem Value.list_conforms {constant : Bool} {depth : Nat} {vs : List Value} {loc : Option Loc} :
    (Value.list vs loc).Conforms constant (depth + 1) ↔ ∀ v ∈ vs, v.Conforms constant depth := by
  simp only [Conforms, IsWritable, nesting, Nat.add_le_add_iff_right]
  induction vs with
  | nil => simp [AreWritable, nestingValues]
  | cons v vs ih =>
    simp only [AreWritable, nestingValues, Nat.max_le, List.forall_mem_cons, ← ih]
    exact and_and_and_comm

theorem Value.object_conforms {constant : Bool} {depth : Nat} {fs : List ObjectField}
    {loc : Option Loc} :
    (Value.object fs loc).Conforms constant (depth + 1) ↔ ∀ f ∈ fs, f.Conforms constant depth := by
  simp only [Conforms, IsWritable, nesting, Nat.add_le_add_iff_right]
  induction fs with
  | nil => simp [FieldsAreWritable, nestingFields]
  | cons f fs ih =>
    obtain ⟨n, v, l⟩ := f
    rw [List.forall_mem_cons, ← ih]
    simp only [FieldsAreWritable, nestingFields, Nat.max_le, ObjectFieldOf.Conforms,
      Conforms, and_assoc]
    constructor
    · rintro ⟨hn, hv, hfs, hd, hds⟩
      exact ⟨hn, hv, hd, hfs, hds⟩
    · rintro ⟨hn, hv, hd, hfs, hds⟩
      exact ⟨hn, hv, hfs, hd, hds⟩

/-- An object that can be written, itself a level of nesting. -/
def ObjectValue.Conforms (depth : Nat) (o : ObjectValue) : Prop := o.toValue.Conforms false depth

/-- The target and the label are names. -/
def ConnectionType.Conforms (t : ConnectionType) : Prop :=
  t.type.Conforms ∧ ∀ l ∈ t.edgeLabel, l.Conforms

/-- The target and the label are names. -/
def EdgeType.Conforms (t : EdgeType) : Prop := t.type.Conforms ∧ ∀ l ∈ t.edgeLabel, l.Conforms

namespace TypeRef

/-- A named type or a list of plain types, or one of them once marked as required. -/
def IsPlain : TypeRef → Prop
  | .named t => t.Conforms
  | .list t _ => t.IsPlain
  | .nonNull (.named t) _ => t.Conforms
  | .nonNull (.list t _) _ => t.IsPlain
  | _ => False

/-- A list of plain types. -/
def IsPlainList : TypeRef → Prop
  | .list t _ => t.IsPlain
  | _ => False

/-- A named type or a list of plain types. -/
def IsPlainBase : TypeRef → Prop
  | .named t => t.Conforms
  | .list t _ => t.IsPlain
  | _ => False

/-- What the mark that it is required may stand around in a field: a name, a list, or arrows. -/
def IsFieldBase : TypeRef → Prop
  | .named t => t.Conforms
  | .list t _ => t.IsPlain
  | .connection t => t.Conforms
  | .connectionJoin t => 2 ≤ t.connections.length ∧ ∀ c ∈ t.connections, c.Conforms
  | _ => False

/-- What it may stand around in the result of a mutation: a name, a list, or an edge. -/
def IsMutationFieldBase : TypeRef → Prop
  | .named t => t.Conforms
  | .list t _ => t.IsPlain
  | .edge t => t.Conforms
  | _ => False

/-- What a filter or an order is on: a name, a list, or one arrow, and never marked as required. -/
def IsTarget : TypeRef → Prop
  | .named t => t.Conforms
  | .list t _ => t.IsPlain
  | .connection t => t.Conforms
  | _ => False

/-- One of some types, or one of them once marked as required. -/
def IsOrNonNull (base : TypeRef → Prop) (t : TypeRef) : Prop :=
  base t ∨ ∃ u loc, t = .nonNull u loc ∧ base u

/-- A type of a certain form, with list types nested at most `depth` deep. -/
def Conforms (form : TypeRef → Prop) (depth : Nat) (t : TypeRef) : Prop :=
  form t ∧ t.nesting ≤ depth

theorem isPlain_iff_isOrNonNull {t : TypeRef} : t.IsPlain ↔ IsOrNonNull IsPlainBase t := by
  rcases t with t | ⟨t, l⟩ | ⟨t, l⟩ | t | t | t
  · simp [IsOrNonNull, IsPlain, IsPlainBase]
  · simp [IsOrNonNull, IsPlain, IsPlainBase]
  · cases t <;> simp [IsOrNonNull, IsPlain, IsPlainBase]
  · simp [IsOrNonNull, IsPlain, IsPlainBase]
  · simp [IsOrNonNull, IsPlain, IsPlainBase]
  · simp [IsOrNonNull, IsPlain, IsPlainBase]

/-- A list of plain types may stand wherever a type may. -/
theorem of_isPlainList {t : TypeRef} (h : t.IsPlainList) :
    t.IsPlainBase ∧ t.IsFieldBase ∧ t.IsMutationFieldBase ∧ t.IsTarget := by
  cases t with
  | list t loc => exact ⟨h, h, h, h⟩
  | _ => exact h.elim

end TypeRef

/-- The lines of a description are lines that can be written. -/
def ConformsDescription (description : Option String) : Prop :=
  ∀ text ∈ description, IsDescription text

/-- The name and the value can be written; variables may stand in the value. -/
def Argument.Conforms (depth : Nat) (a : Argument) : Prop :=
  a.name.Conforms ∧ a.value.Conforms false depth

/-- The name and the arguments can be written. -/
def Directive.Conforms (depth : Nat) (d : Directive) : Prop :=
  d.name.Conforms ∧ ∀ a ∈ d.arguments, a.Conforms depth

/-- The type is plain and the default value has no variables. -/
structure InputValueDefinition.Conforms (depth : Nat) (d : InputValueDefinition) : Prop where
  description : ConformsDescription d.description
  name : d.name.Conforms
  type : d.type.Conforms TypeRef.IsPlain depth
  defaultValue : ∀ v ∈ d.defaultValue, v.Conforms true depth
  directives : ∀ x ∈ d.directives, x.Conforms depth

/-- The type is one of `form`, which depends on what the field belongs to. -/
structure FieldDefinition.Conforms (form : TypeRef → Prop) (depth : Nat) (d : FieldDefinition) :
    Prop where
  description : ConformsDescription d.description
  name : d.name.Conforms
  arguments : ∀ a ∈ d.arguments, a.Conforms depth
  type : d.type.Conforms form depth
  directives : ∀ x ∈ d.directives, x.Conforms depth

structure EnumValueDefinition.Conforms (depth : Nat) (d : EnumValueDefinition) : Prop where
  description : ConformsDescription d.description
  name : d.name.Conforms
  directives : ∀ x ∈ d.directives, x.Conforms depth

structure ScalarTypeDefinition.Conforms (depth : Nat) (d : ScalarTypeDefinition) : Prop where
  description : ConformsDescription d.description
  name : d.name.Conforms
  directives : ∀ x ∈ d.directives, x.Conforms depth

structure ObjectTypeDefinition.Conforms (depth : Nat) (d : ObjectTypeDefinition) : Prop where
  description : ConformsDescription d.description
  name : d.name.Conforms
  interfaces : ∀ t ∈ d.interfaces, t.Conforms
  directives : ∀ x ∈ d.directives, x.Conforms depth
  fields : ∀ f ∈ d.fields, f.Conforms (TypeRef.IsOrNonNull TypeRef.IsFieldBase) depth

structure InterfaceTypeDefinition.Conforms (depth : Nat) (d : InterfaceTypeDefinition) : Prop where
  description : ConformsDescription d.description
  name : d.name.Conforms
  directives : ∀ x ∈ d.directives, x.Conforms depth
  fields : ∀ f ∈ d.fields, f.Conforms (TypeRef.IsOrNonNull TypeRef.IsFieldBase) depth

structure UnionTypeDefinition.Conforms (depth : Nat) (d : UnionTypeDefinition) : Prop where
  description : ConformsDescription d.description
  name : d.name.Conforms
  directives : ∀ x ∈ d.directives, x.Conforms depth
  types_ne_nil : d.types ≠ []
  types : ∀ t ∈ d.types, t.Conforms

structure EnumTypeDefinition.Conforms (depth : Nat) (d : EnumTypeDefinition) : Prop where
  description : ConformsDescription d.description
  name : d.name.Conforms
  directives : ∀ x ∈ d.directives, x.Conforms depth
  values_ne_nil : d.values ≠ []
  values : ∀ v ∈ d.values, v.Conforms depth

structure InputObjectTypeDefinition.Conforms (depth : Nat) (d : InputObjectTypeDefinition) :
    Prop where
  description : ConformsDescription d.description
  name : d.name.Conforms
  directives : ∀ x ∈ d.directives, x.Conforms depth
  fields : ∀ f ∈ d.fields, f.Conforms depth

/-- The object in an extension has no description of its own. -/
structure TypeExtensionDefinition.Conforms (depth : Nat) (d : TypeExtensionDefinition) : Prop where
  description : ConformsDescription d.description
  definition : d.definition.Conforms depth
  definition_description : d.definition.description = none

structure DirectiveDefinition.Conforms (depth : Nat) (d : DirectiveDefinition) : Prop where
  description : ConformsDescription d.description
  name : d.name.Conforms
  arguments : ∀ a ∈ d.arguments, a.Conforms depth
  locations_ne_nil : d.locations ≠ []
  locations : ∀ n ∈ d.locations, n.Conforms

/-- A result that is a type is a plain one; one of fields has those that `fields` admits. -/
def OperationResult.Conforms (fields : List FieldDefinition → Prop) (depth : Nat) :
    OperationResult → Prop
  | .type t => t.Conforms TypeRef.IsPlain depth
  | .fields ds => fields ds

structure OperationDefinition.Conforms (fields : List FieldDefinition → Prop) (depth : Nat)
    (d : OperationDefinition) : Prop where
  description : ConformsDescription d.description
  name : d.name.Conforms
  arguments : ∀ a ∈ d.arguments, a.Conforms depth
  directives : ∀ x ∈ d.directives, x.Conforms depth
  result : d.result.Conforms fields depth

/-- The fields of a mutation: any number of them. -/
def ConformMutationFields (depth : Nat) (ds : List FieldDefinition) : Prop :=
  ∀ f ∈ ds, f.Conforms (TypeRef.IsOrNonNull TypeRef.IsMutationFieldBase) depth

/-- The fields of a query: one or more. -/
def ConformQueryFields (depth : Nat) (ds : List FieldDefinition) : Prop :=
  ds ≠ [] ∧ ∀ f ∈ ds, f.Conforms TypeRef.IsPlain depth

structure FilterCondition.Conforms (depth : Nat) (c : FilterCondition) : Prop where
  key : c.key.Conforms depth
  arguments : ∀ a ∈ c.arguments, a.Conforms depth
  condition : c.condition.Conforms depth

structure FilterDefinition.Conforms (depth : Nat) (d : FilterDefinition) : Prop where
  description : ConformsDescription d.description
  type : d.type.Conforms TypeRef.IsTarget depth
  conditions : ∀ c ∈ d.conditions, c.Conforms depth

structure OrderExpression.Conforms (depth : Nat) (e : OrderExpression) : Prop where
  key : e.key.Conforms depth
  expression_ne_nil : e.expression ≠ []
  expression : ∀ o ∈ e.expression, o.Conforms depth

structure OrderDefinition.Conforms (depth : Nat) (d : OrderDefinition) : Prop where
  description : ConformsDescription d.description
  type : d.type.Conforms TypeRef.IsTarget depth
  expressions : ∀ e ∈ d.expressions, e.Conforms depth

def Definition.Conforms (depth : Nat) : Definition → Prop
  | .scalar d => d.Conforms depth
  | .object d => d.Conforms depth
  | .interface d => d.Conforms depth
  | .union d => d.Conforms depth
  | .enum d => d.Conforms depth
  | .inputObject d => d.Conforms depth
  | .typeExtension d => d.Conforms depth
  | .directive d => d.Conforms depth
  | .mutation d => d.Conforms (ConformMutationFields depth) depth
  | .query d => d.Conforms (ConformQueryFields depth) depth
  | .filter d => d.Conforms depth
  | .order d => d.Conforms depth

/-- The trees of documents, with values and list types nested at most `depth` deep. -/
structure Document.Conforms (depth : Nat) (d : Document) : Prop where
  definitions_ne_nil : d.definitions ≠ []
  definitions : ∀ x ∈ d.definitions, x.Conforms depth

/-- No node has a location. -/
def Document.IsLocationFree (d : Document) : Prop := d.mapLoc (fun _ => none) = d

end SchemaLang
