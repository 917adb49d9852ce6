import SchemaLang.Proofs.Locations.Form
import SchemaLang.Proofs.Printing.Refinement

/-!
# Canonical texts do not show locations

However the locations of a node change, its canonical text stays the same.
-/

namespace SchemaLang

variable (f : Loc → Option Loc)

@[simp] theorem Name.render_mapLoc (n : Name) : (n.mapLoc f).render = n.render := rfl

@[simp] theorem NamedType.render_mapLoc (t : NamedType) : (t.mapLoc f).render = t.render := rfl

@[simp] theorem NamedType.renderLabel_mapLoc (t : Option NamedType) :
    NamedType.renderLabel (t.map (·.mapLoc f)) = NamedType.renderLabel t := by
  cases t <;> rfl

@[simp] theorem ConnectionType.render_mapLoc (t : ConnectionType) :
    (t.mapLoc f).render = t.render := by
  simp [ConnectionType.render, ConnectionType.mapLoc]

@[simp] theorem EdgeType.render_mapLoc (t : EdgeType) : (t.mapLoc f).render = t.render := by
  simp [EdgeType.render, EdgeType.mapLoc]

@[simp] theorem TypeRef.render_mapLoc (t : TypeRef) : (t.mapLoc f).render = t.render := by
  induction t with
  | named t => exact t.render_mapLoc f
  | list t loc ih => exact congrArg Layout.listType ih
  | nonNull t loc ih => exact congrArg Layout.nonNullType ih
  | connection t => exact t.render_mapLoc f
  | connectionJoin t =>
    simp [TypeRef.render, TypeRef.mapLoc, ConnectionJoinType.render, ConnectionJoinType.mapLoc,
      Function.comp_def]
  | edge t => exact t.render_mapLoc f

mutual

theorem Value.render_mapLoc : ∀ v : Value, (v.mapLoc f).render = v.render
  | .var .. => rfl
  | .int .. => rfl
  | .float .. => rfl
  | .string .. => rfl
  | .boolean .. => rfl
  | .enum .. => rfl
  | .list vs _ => congrArg Layout.listOf (renderValues_mapLoc vs)
  | .object fs _ => congrArg Layout.objectOf (renderFields_mapLoc fs)

theorem renderValues_mapLoc :
    ∀ vs : List Value, renderValues (Value.mapLocValues f vs) = renderValues vs
  | [] => rfl
  | v :: vs => by
    rw [Value.mapLocValues, renderValues, renderValues, Value.render_mapLoc v,
      renderValues_mapLoc vs]

theorem renderFields_mapLoc :
    ∀ fs : List ObjectField, renderFields (Value.mapLocFields f fs) = renderFields fs
  | [] => rfl
  | ⟨n, v, _⟩ :: fs => by
    rw [Value.mapLocFields, renderFields, renderFields, Value.render_mapLoc v,
      renderFields_mapLoc fs, Name.render_mapLoc]

end

attribute [simp] Value.render_mapLoc

@[simp] theorem ObjectValue.render_mapLoc (o : ObjectValue) : (o.mapLoc f).render = o.render := by
  rw [ObjectValue.render, ObjectValue.toValue_mapLoc, Value.render_mapLoc, ObjectValue.render]

@[simp] theorem Argument.render_mapLoc (a : Argument) : (a.mapLoc f).render = a.render := by
  simp [Argument.render, Argument.mapLoc]

@[simp] theorem Directive.render_mapLoc (d : Directive) : (d.mapLoc f).render = d.render := by
  simp [Directive.render, Directive.mapLoc, Function.comp_def]

@[simp] theorem InputValueDefinition.render_mapLoc (d : InputValueDefinition) :
    (d.mapLoc f).render = d.render := by
  simp [InputValueDefinition.render, InputValueDefinition.mapLoc, Function.comp_def]

@[simp] theorem FieldDefinition.render_mapLoc (d : FieldDefinition) :
    (d.mapLoc f).render = d.render := by
  simp [FieldDefinition.render, FieldDefinition.mapLoc, Function.comp_def]

@[simp] theorem EnumValueDefinition.render_mapLoc (d : EnumValueDefinition) :
    (d.mapLoc f).render = d.render := by
  simp [EnumValueDefinition.render, EnumValueDefinition.mapLoc, Function.comp_def]

@[simp] theorem ScalarTypeDefinition.render_mapLoc (d : ScalarTypeDefinition) :
    (d.mapLoc f).render = d.render := by
  simp [ScalarTypeDefinition.render, ScalarTypeDefinition.mapLoc, Function.comp_def]

@[simp] theorem ObjectTypeDefinition.renderBare_mapLoc (d : ObjectTypeDefinition) :
    (d.mapLoc f).renderBare = d.renderBare := by
  simp [ObjectTypeDefinition.renderBare, ObjectTypeDefinition.mapLoc, Function.comp_def]

@[simp] theorem ObjectTypeDefinition.render_mapLoc (d : ObjectTypeDefinition) :
    (d.mapLoc f).render = d.render := by
  rw [ObjectTypeDefinition.render, d.renderBare_mapLoc]
  rfl

@[simp] theorem InterfaceTypeDefinition.render_mapLoc (d : InterfaceTypeDefinition) :
    (d.mapLoc f).render = d.render := by
  simp [InterfaceTypeDefinition.render, InterfaceTypeDefinition.mapLoc, Function.comp_def]

@[simp] theorem UnionTypeDefinition.render_mapLoc (d : UnionTypeDefinition) :
    (d.mapLoc f).render = d.render := by
  simp [UnionTypeDefinition.render, UnionTypeDefinition.mapLoc, Function.comp_def]

@[simp] theorem EnumTypeDefinition.render_mapLoc (d : EnumTypeDefinition) :
    (d.mapLoc f).render = d.render := by
  simp [EnumTypeDefinition.render, EnumTypeDefinition.mapLoc, Function.comp_def]

@[simp] theorem InputObjectTypeDefinition.render_mapLoc (d : InputObjectTypeDefinition) :
    (d.mapLoc f).render = d.render := by
  simp [InputObjectTypeDefinition.render, InputObjectTypeDefinition.mapLoc, Function.comp_def]

@[simp] theorem TypeExtensionDefinition.render_mapLoc (d : TypeExtensionDefinition) :
    (d.mapLoc f).render = d.render := by
  simp [TypeExtensionDefinition.render, TypeExtensionDefinition.mapLoc]

@[simp] theorem DirectiveDefinition.render_mapLoc (d : DirectiveDefinition) :
    (d.mapLoc f).render = d.render := by
  simp [DirectiveDefinition.render, DirectiveDefinition.mapLoc, Function.comp_def]

@[simp] theorem OperationDefinition.render_mapLoc (keyword : String) (d : OperationDefinition) :
    (d.mapLoc f).render keyword = d.render keyword := by
  obtain ⟨_, _, _, _, result, _⟩ := d
  cases result <;>
    simp [OperationDefinition.render, OperationDefinition.mapLoc, OperationResult.mapLoc,
      Function.comp_def]

@[simp] theorem FilterCondition.render_mapLoc (c : FilterCondition) :
    (c.mapLoc f).render = c.render := by
  simp [FilterCondition.render, FilterCondition.mapLoc, Function.comp_def]

@[simp] theorem FilterDefinition.render_mapLoc (d : FilterDefinition) :
    (d.mapLoc f).render = d.render := by
  simp [FilterDefinition.render, FilterDefinition.mapLoc, Function.comp_def]

@[simp] theorem OrderExpression.render_mapLoc (e : OrderExpression) :
    (e.mapLoc f).render = e.render := by
  simp [OrderExpression.render, OrderExpression.mapLoc, Function.comp_def]

@[simp] theorem OrderDefinition.render_mapLoc (d : OrderDefinition) :
    (d.mapLoc f).render = d.render := by
  simp [OrderDefinition.render, OrderDefinition.mapLoc, Function.comp_def]

@[simp] theorem Definition.render_mapLoc (d : Definition) : (d.mapLoc f).render = d.render := by
  cases d <;> simp [Definition.render, Definition.mapLoc]

@[simp] theorem Document.render_mapLoc (d : Document) : (d.mapLoc f).render = d.render := by
  simp [Document.render, Document.mapLoc, Function.comp_def]

end SchemaLang
