import SchemaLang.Proofs.Syntax

/-!
# Forms with one way to be written

Only the list of an order's expression can be written in two ways, with or without brackets around a
single object. Every other form has one sequence of tokens, descriptions aside.
-/

namespace SchemaLang

namespace Form

/-- Nothing in the form may stand in brackets or not. -/
def IsRigid : Form → Prop
  | token .. => True
  | described .. => True
  | empty => True
  | seq a b => a.IsRigid ∧ b.IsRigid
  | located _ a => a.IsRigid
  | bracketable _ => False

@[simp] theorem isRigid_empty : empty.IsRigid := trivial

@[simp] theorem isRigid_seq {a b : Form} : (seq a b).IsRigid ↔ a.IsRigid ∧ b.IsRigid := Iff.rfl

@[simp] theorem isRigid_located {loc : Option Loc} {a : Form} :
    (located loc a).IsRigid ↔ a.IsRigid := Iff.rfl

@[simp] theorem isRigid_punctuator (p : Punctuator) : (punctuator p).IsRigid := trivial

@[simp] theorem isRigid_word (text : String) : (word text).IsRigid := trivial

@[simp] theorem isRigid_heading (d : Option String) (text : String) :
    (heading d text).IsRigid := trivial

@[simp] theorem isRigid_all {as : List Form} : (all as).IsRigid ↔ ∀ a ∈ as, a.IsRigid := by
  induction as with
  | nil => simp [all]
  | cons a as ih => simp [all, ih]

@[simp] theorem isRigid_block {p q : Punctuator} {as : List Form} :
    (block p q as).IsRigid ↔ ∀ a ∈ as, a.IsRigid := by
  simp [block]

@[simp] theorem isRigid_optionalBlock {p q : Punctuator} {as : List Form} :
    (optionalBlock p q as).IsRigid ↔ ∀ a ∈ as, a.IsRigid := by
  cases as with
  | nil => simp [optionalBlock]
  | cons a as => exact isRigid_block

@[simp] theorem isRigid_separated {p : Punctuator} {as : List Form} :
    (separated p as).IsRigid ↔ ∀ a ∈ as, a.IsRigid := by
  cases as with
  | nil => simp [separated]
  | cons a as => simp [separated]

end Form

@[simp] theorem Name.isRigid_form (n : Name) : n.form.IsRigid := trivial

@[simp] theorem Name.isRigid_describedForm (d : Option String) (n : Name) :
    (n.describedForm d).IsRigid := trivial

@[simp] theorem NamedType.isRigid_form (t : NamedType) : t.form.IsRigid := trivial

mutual

theorem Value.isRigid_form : ∀ v : Value, v.form.IsRigid
  | .var .. => by simp [Value.form]
  | .int .. => trivial
  | .float .. => trivial
  | .string .. => trivial
  | .boolean .. => trivial
  | .enum .. => trivial
  | .list vs _ => by simpa [Value.form] using Value.isRigid_forms vs
  | .object fs _ => by simpa [Value.form] using Value.isRigid_fieldForms fs

theorem Value.isRigid_forms : ∀ vs : List Value, ∀ a ∈ Value.forms vs, a.IsRigid
  | [] => by simp [Value.forms]
  | v :: vs => by simpa [Value.forms] using ⟨Value.isRigid_form v, Value.isRigid_forms vs⟩

theorem Value.isRigid_fieldForms : ∀ fs : List ObjectField, ∀ a ∈ Value.fieldForms fs, a.IsRigid
  | [] => by simp [Value.fieldForms]
  | ⟨n, v, _⟩ :: fs => by
    simpa [Value.fieldForms] using ⟨Value.isRigid_form v, Value.isRigid_fieldForms fs⟩

end

attribute [simp] Value.isRigid_form

@[simp] theorem ObjectValue.isRigid_form (o : ObjectValue) : o.form.IsRigid :=
  o.toValue.isRigid_form

@[simp] theorem Argument.isRigid_form (a : Argument) : a.form.IsRigid := by simp [Argument.form]

@[simp] theorem Directive.isRigid_form (d : Directive) : d.form.IsRigid := by simp [Directive.form]

@[simp] theorem Directive.isRigid_forms (ds : List Directive) : (Directive.forms ds).IsRigid := by
  simp [Directive.forms]

@[simp] theorem isRigid_arrowForm (a : Direction) (b : Cardinality) (label : Option NamedType)
    (t : NamedType) : (arrowForm a b label t).IsRigid := by
  cases a <;> cases b <;> cases label <;> simp [arrowForm, arrowStartForm, arrowEndForm, labelForm]

@[simp] theorem ConnectionType.isRigid_form (t : ConnectionType) : t.form.IsRigid := by
  simp [ConnectionType.form]

@[simp] theorem EdgeType.isRigid_form (t : EdgeType) : t.form.IsRigid := by simp [EdgeType.form]

@[simp] theorem TypeRef.isRigid_form (t : TypeRef) : t.form.IsRigid := by
  induction t with
  | named t => exact t.isRigid_form
  | list t loc ih => simp [TypeRef.form, ih]
  | nonNull t loc ih => simp [TypeRef.form, ih]
  | connection t => exact t.isRigid_form
  | connectionJoin t => simp [TypeRef.form]
  | edge t => exact t.isRigid_form

@[simp] theorem isRigid_defaultForm (v : Option Value) : (defaultForm v).IsRigid := by
  cases v <;> simp [defaultForm]

@[simp] theorem InputValueDefinition.isRigid_form (d : InputValueDefinition) : d.form.IsRigid := by
  simp [InputValueDefinition.form]

@[simp] theorem InputValueDefinition.isRigid_argumentForms (ds : List InputValueDefinition) :
    (InputValueDefinition.argumentForms ds).IsRigid := by
  simp [InputValueDefinition.argumentForms]

@[simp] theorem FieldDefinition.isRigid_form (d : FieldDefinition) : d.form.IsRigid := by
  simp [FieldDefinition.form]

@[simp] theorem EnumValueDefinition.isRigid_form (d : EnumValueDefinition) : d.form.IsRigid := by
  simp [EnumValueDefinition.form]

@[simp] theorem isRigid_interfaceForms (ts : List NamedType) : (interfaceForms ts).IsRigid := by
  cases ts <;> simp [interfaceForms]

private theorem ObjectTypeDefinition.isRigid_formFrom {first : Form} (h : first.IsRigid)
    (d : ObjectTypeDefinition) : (d.formFrom first).IsRigid := by
  simp [ObjectTypeDefinition.formFrom, h]

@[simp] theorem OperationResult.isRigid_form (ds : List Directive) (r : OperationResult) :
    (r.form ds).IsRigid := by
  cases r <;> simp [OperationResult.form]

@[simp] theorem OperationDefinition.isRigid_form (keyword : String) (d : OperationDefinition) :
    (d.form keyword).IsRigid := by
  simp [OperationDefinition.form]

@[simp] theorem FilterCondition.isRigid_form (c : FilterCondition) : c.form.IsRigid := by
  simp [FilterCondition.form]

/-- A definition is rigid unless it is one of an order. -/
theorem Definition.isRigid_form {d : Definition} (h : ∀ o, d ≠ .order o) : d.form.IsRigid := by
  cases d with
  | scalar d => simp [Definition.form, ScalarTypeDefinition.form]
  | object d => exact d.isRigid_formFrom (Form.isRigid_heading _ _)
  | interface d => simp [Definition.form, InterfaceTypeDefinition.form]
  | union d => simp [Definition.form, UnionTypeDefinition.form]
  | enum d => simp [Definition.form, EnumTypeDefinition.form]
  | inputObject d => simp [Definition.form, InputObjectTypeDefinition.form]
  | typeExtension d =>
    simp [Definition.form, TypeExtensionDefinition.form,
      ObjectTypeDefinition.isRigid_formFrom (Form.isRigid_word "type") d.definition]
  | directive d => simp [Definition.form, DirectiveDefinition.form]
  | mutation d => exact d.isRigid_form "mutation"
  | query d => exact d.isRigid_form "query"
  | filter d => simp [Definition.form, FilterDefinition.form]
  | order d => exact absurd rfl (h d)

/-- Several objects stand in brackets, or none does. -/
theorem OrderExpression.isRigid_objectsForm {os : List ObjectValue} (h : ∀ o, os ≠ [o]) :
    (OrderExpression.objectsForm os).IsRigid := by
  rcases os with _ | ⟨o, _ | ⟨p, os⟩⟩
  · simp [OrderExpression.objectsForm]
  · exact absurd rfl (h o)
  · simp [OrderExpression.objectsForm]

end SchemaLang
