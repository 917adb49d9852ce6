import SchemaLang.Ast.MapLoc
import SchemaLang.Proofs.Syntax

/-!
# The forms of nodes whose locations change

Where nodes were parsed from has no part in how they are written. Changing every location of a node
changes those of its form, and nothing else about the form.
-/

namespace SchemaLang

namespace Form

/-- Changes or drops the location of every node in the form. -/
def mapLoc (f : Loc → Option Loc) : Form → Form
  | located loc a => located (loc.bind f) (a.mapLoc f)
  | seq a b => seq (a.mapLoc f) (b.mapLoc f)
  | bracketable a => bracketable (a.mapLoc f)
  | token t h => token t h
  | described d t h => described d t h
  | empty => empty

variable {f : Loc → Option Loc}

@[simp] theorem mapLoc_empty : empty.mapLoc f = empty := rfl

@[simp] theorem mapLoc_punctuator (p : Punctuator) : (punctuator p).mapLoc f = punctuator p := rfl

@[simp] theorem mapLoc_word (text : String) : (word text).mapLoc f = word text := rfl

@[simp] theorem mapLoc_heading (d : Option String) (text : String) :
    (heading d text).mapLoc f = heading d text := rfl

@[simp] theorem mapLoc_located (loc : Option Loc) (a : Form) :
    (located loc a).mapLoc f = located (loc.bind f) (a.mapLoc f) := rfl

@[simp] theorem mapLoc_bracketable (a : Form) :
    (bracketable a).mapLoc f = bracketable (a.mapLoc f) := rfl

@[simp] theorem mapLoc_all (as : List Form) : (all as).mapLoc f = all (as.map (mapLoc f)) := by
  induction as with
  | nil => rfl
  | cons a as ih => exact congrArg (seq (a.mapLoc f)) ih

@[simp] theorem mapLoc_block (p q : Punctuator) (as : List Form) :
    (block p q as).mapLoc f = block p q (as.map (mapLoc f)) := by
  simp [block]

@[simp] theorem mapLoc_optionalBlock (p q : Punctuator) (as : List Form) :
    (optionalBlock p q as).mapLoc f = optionalBlock p q (as.map (mapLoc f)) := by
  cases as with
  | nil => rfl
  | cons a as => exact mapLoc_block p q (a :: as)

@[simp] theorem mapLoc_separated (p : Punctuator) (as : List Form) :
    (separated p as).mapLoc f = separated p (as.map (mapLoc f)) := by
  cases as with
  | nil => rfl
  | cons a as =>
    have rest : (as.map (seq (punctuator p))).map (mapLoc f) =
        (as.map (mapLoc f)).map (seq (punctuator p)) := by
      rw [List.map_map, List.map_map]
      rfl
    exact congrArg (seq (a.mapLoc f)) ((mapLoc_all _).trans (congrArg all rest))

@[simp] theorem tokens_mapLoc (F : Form) : (F.mapLoc f).tokens = F.tokens := by
  induction F with
  | seq a b iha ihb =>
    change (a.mapLoc f).tokens ++ (b.mapLoc f).tokens = _
    rw [iha, ihb]
    rfl
  | located loc a ih => exact ih
  | bracketable a ih => exact ih
  | token | described | empty => rfl

/-- The form of nodes without locations. -/
def IsUnlocated (F : Form) : Prop := F.mapLoc (fun _ => none) = F

theorem isUnlocated_mapLoc (F : Form) : (F.mapLoc fun _ => none).IsUnlocated := by
  rw [IsUnlocated]
  induction F with
  | seq a b iha ihb => rw [mapLoc, mapLoc, iha, ihb]
  | located loc a ih => rw [mapLoc, mapLoc, ih, Option.bind_fun_none, Option.bind_fun_none]
  | bracketable a ih => rw [mapLoc, mapLoc, ih]
  | token | described | empty => rfl

end Form

variable (f : Loc → Option Loc)

@[simp] theorem Name.form_mapLoc (n : Name) : (n.mapLoc f).form = n.form.mapLoc f := rfl

@[simp] theorem Name.describedForm_mapLoc (d : Option String) (n : Name) :
    (n.mapLoc f).describedForm d = (n.describedForm d).mapLoc f := rfl

@[simp] theorem NamedType.form_mapLoc (t : NamedType) : (t.mapLoc f).form = t.form.mapLoc f := rfl

mutual

theorem Value.form_mapLoc : ∀ v : Value, (v.mapLoc f).form = v.form.mapLoc f
  | .var .. => rfl
  | .int .. => rfl
  | .float .. => rfl
  | .string .. => rfl
  | .boolean .. => rfl
  | .enum .. => rfl
  | .list vs loc => by
    simp only [Value.mapLoc, Value.form, Form.mapLoc_located, Form.mapLoc_block,
      Value.forms_mapLoc vs]
  | .object fs loc => by
    simp only [Value.mapLoc, Value.form, Form.mapLoc_located, Form.mapLoc_block,
      Value.fieldForms_mapLoc fs]

theorem Value.forms_mapLoc : ∀ vs : List Value,
    Value.forms (Value.mapLocValues f vs) = (Value.forms vs).map (Form.mapLoc f)
  | [] => rfl
  | v :: vs => by
    rw [Value.mapLocValues, Value.forms, Value.forms, Value.form_mapLoc v,
      Value.forms_mapLoc vs, List.map_cons]

theorem Value.fieldForms_mapLoc : ∀ fs : List ObjectField,
    Value.fieldForms (Value.mapLocFields f fs) = (Value.fieldForms fs).map (Form.mapLoc f)
  | [] => rfl
  | ⟨n, v, loc⟩ :: fs => by
    rw [Value.mapLocFields, Value.fieldForms, Value.fieldForms, Value.form_mapLoc v,
      Value.fieldForms_mapLoc fs, List.map_cons]
    rfl

end

attribute [simp] Value.form_mapLoc

theorem Value.mapLocFields_eq_map (fs : List ObjectField) :
    Value.mapLocFields f fs = fs.map (ObjectFieldOf.mapLoc f) := by
  induction fs with
  | nil => rfl
  | cons m fs ih =>
    rw [Value.mapLocFields, ih]
    rfl

theorem Value.mapLocValues_eq_map (vs : List Value) :
    Value.mapLocValues f vs = vs.map (Value.mapLoc f) := by
  induction vs with
  | nil => rfl
  | cons v vs ih => rw [Value.mapLocValues, ih, List.map_cons]

theorem ObjectValue.toValue_mapLoc (o : ObjectValue) :
    (o.mapLoc f).toValue = o.toValue.mapLoc f := by
  simp [ObjectValue.toValue, ObjectValue.mapLoc, Value.mapLoc, Value.mapLocFields_eq_map]

@[simp] theorem ObjectValue.form_mapLoc (o : ObjectValue) :
    (o.mapLoc f).form = o.form.mapLoc f := by
  rw [ObjectValue.form, ObjectValue.toValue_mapLoc, Value.form_mapLoc, ObjectValue.form]

@[simp] theorem Argument.form_mapLoc (a : Argument) : (a.mapLoc f).form = a.form.mapLoc f := by
  simp [Argument.form, Argument.mapLoc]

@[simp] theorem Directive.form_mapLoc (d : Directive) : (d.mapLoc f).form = d.form.mapLoc f := by
  simp [Directive.form, Directive.mapLoc, Function.comp_def]

@[simp] theorem Directive.forms_mapLoc (ds : List Directive) :
    Directive.forms (ds.map (·.mapLoc f)) = (Directive.forms ds).mapLoc f := by
  simp [Directive.forms, Function.comp_def]

@[simp] theorem mapLoc_arrowStartForm (a : Direction) (b : Cardinality) :
    (arrowStartForm a b).mapLoc f = arrowStartForm a b := by
  cases a <;> cases b <;> rfl

@[simp] theorem mapLoc_arrowEndForm (a : Direction) (b : Cardinality) :
    (arrowEndForm a b).mapLoc f = arrowEndForm a b := by
  cases a <;> cases b <;> rfl

@[simp] theorem labelForm_mapLoc (t : Option NamedType) :
    labelForm (t.map (·.mapLoc f)) = (labelForm t).mapLoc f := by
  cases t <;> rfl

private theorem arrowForm_mapLoc (a : Direction) (b : Cardinality) (label : Option NamedType)
    (t : NamedType) :
    arrowForm a b (label.map (·.mapLoc f)) (t.mapLoc f) = (arrowForm a b label t).mapLoc f := by
  simp [arrowForm]

@[simp] theorem ConnectionType.form_mapLoc (t : ConnectionType) :
    (t.mapLoc f).form = t.form.mapLoc f := by
  simp [ConnectionType.form, ConnectionType.mapLoc, arrowForm_mapLoc]

@[simp] theorem EdgeType.form_mapLoc (t : EdgeType) : (t.mapLoc f).form = t.form.mapLoc f := by
  simp [EdgeType.form, EdgeType.mapLoc, arrowForm_mapLoc]

@[simp] theorem TypeRef.form_mapLoc (t : TypeRef) : (t.mapLoc f).form = t.form.mapLoc f := by
  induction t with
  | named t => exact t.form_mapLoc f
  | list t loc ih => simp [TypeRef.form, TypeRef.mapLoc, ih]
  | nonNull t loc ih => simp [TypeRef.form, TypeRef.mapLoc, ih]
  | connection t => exact t.form_mapLoc f
  | connectionJoin t =>
    simp [TypeRef.form, TypeRef.mapLoc, ConnectionJoinType.mapLoc, Function.comp_def]
  | edge t => exact t.form_mapLoc f

@[simp] theorem defaultForm_mapLoc (v : Option Value) :
    defaultForm (v.map (·.mapLoc f)) = (defaultForm v).mapLoc f := by
  cases v <;> simp [defaultForm]

@[simp] theorem InputValueDefinition.form_mapLoc (d : InputValueDefinition) :
    (d.mapLoc f).form = d.form.mapLoc f := by
  simp [InputValueDefinition.form, InputValueDefinition.mapLoc]

@[simp] theorem InputValueDefinition.argumentForms_mapLoc (ds : List InputValueDefinition) :
    InputValueDefinition.argumentForms (ds.map (·.mapLoc f)) =
      (InputValueDefinition.argumentForms ds).mapLoc f := by
  simp [InputValueDefinition.argumentForms, Function.comp_def]

@[simp] theorem FieldDefinition.form_mapLoc (d : FieldDefinition) :
    (d.mapLoc f).form = d.form.mapLoc f := by
  simp [FieldDefinition.form, FieldDefinition.mapLoc]

@[simp] theorem EnumValueDefinition.form_mapLoc (d : EnumValueDefinition) :
    (d.mapLoc f).form = d.form.mapLoc f := by
  simp [EnumValueDefinition.form, EnumValueDefinition.mapLoc]

@[simp] theorem ScalarTypeDefinition.form_mapLoc (d : ScalarTypeDefinition) :
    (d.mapLoc f).form = d.form.mapLoc f := by
  simp [ScalarTypeDefinition.form, ScalarTypeDefinition.mapLoc]

@[simp] theorem interfaceForms_mapLoc (ts : List NamedType) :
    interfaceForms (ts.map (·.mapLoc f)) = (interfaceForms ts).mapLoc f := by
  cases ts <;> simp [interfaceForms, Function.comp_def]

private theorem ObjectTypeDefinition.formFrom_mapLoc (first : Form) (d : ObjectTypeDefinition) :
    (d.mapLoc f).formFrom (first.mapLoc f) = (d.formFrom first).mapLoc f := by
  simp [ObjectTypeDefinition.formFrom, ObjectTypeDefinition.mapLoc, Function.comp_def]

@[simp] theorem ObjectTypeDefinition.form_mapLoc (d : ObjectTypeDefinition) :
    (d.mapLoc f).form = d.form.mapLoc f :=
  d.formFrom_mapLoc f (.heading d.description "type")

@[simp] theorem InterfaceTypeDefinition.form_mapLoc (d : InterfaceTypeDefinition) :
    (d.mapLoc f).form = d.form.mapLoc f := by
  simp [InterfaceTypeDefinition.form, InterfaceTypeDefinition.mapLoc, Function.comp_def]

@[simp] theorem UnionTypeDefinition.form_mapLoc (d : UnionTypeDefinition) :
    (d.mapLoc f).form = d.form.mapLoc f := by
  simp [UnionTypeDefinition.form, UnionTypeDefinition.mapLoc, Function.comp_def]

@[simp] theorem EnumTypeDefinition.form_mapLoc (d : EnumTypeDefinition) :
    (d.mapLoc f).form = d.form.mapLoc f := by
  simp [EnumTypeDefinition.form, EnumTypeDefinition.mapLoc, Function.comp_def]

@[simp] theorem InputObjectTypeDefinition.form_mapLoc (d : InputObjectTypeDefinition) :
    (d.mapLoc f).form = d.form.mapLoc f := by
  simp [InputObjectTypeDefinition.form, InputObjectTypeDefinition.mapLoc, Function.comp_def]

@[simp] theorem TypeExtensionDefinition.form_mapLoc (d : TypeExtensionDefinition) :
    (d.mapLoc f).form = d.form.mapLoc f := by
  have inner := d.definition.formFrom_mapLoc f (.word "type")
  simp only [Form.mapLoc_word] at inner
  simp [TypeExtensionDefinition.form, TypeExtensionDefinition.mapLoc, inner]

@[simp] theorem DirectiveDefinition.form_mapLoc (d : DirectiveDefinition) :
    (d.mapLoc f).form = d.form.mapLoc f := by
  simp [DirectiveDefinition.form, DirectiveDefinition.mapLoc, Function.comp_def]

@[simp] theorem OperationResult.form_mapLoc (ds : List Directive) (r : OperationResult) :
    (r.mapLoc f).form (ds.map (·.mapLoc f)) = (r.form ds).mapLoc f := by
  cases r <;> simp [OperationResult.form, OperationResult.mapLoc, Function.comp_def]

@[simp] theorem OperationDefinition.form_mapLoc (keyword : String) (d : OperationDefinition) :
    (d.mapLoc f).form keyword = (d.form keyword).mapLoc f := by
  simp [OperationDefinition.form, OperationDefinition.mapLoc]

@[simp] theorem FilterCondition.form_mapLoc (c : FilterCondition) :
    (c.mapLoc f).form = c.form.mapLoc f := by
  simp [FilterCondition.form, FilterCondition.mapLoc]

@[simp] theorem FilterDefinition.form_mapLoc (d : FilterDefinition) :
    (d.mapLoc f).form = d.form.mapLoc f := by
  simp [FilterDefinition.form, FilterDefinition.mapLoc, Function.comp_def]

@[simp] theorem OrderExpression.objectsForm_mapLoc (os : List ObjectValue) :
    OrderExpression.objectsForm (os.map (·.mapLoc f)) =
      (OrderExpression.objectsForm os).mapLoc f := by
  rcases os with _ | ⟨o, _ | ⟨p, os⟩⟩ <;> simp [OrderExpression.objectsForm, Function.comp_def]

@[simp] theorem OrderExpression.form_mapLoc (e : OrderExpression) :
    (e.mapLoc f).form = e.form.mapLoc f := by
  simp [OrderExpression.form, OrderExpression.mapLoc]

@[simp] theorem OrderDefinition.form_mapLoc (d : OrderDefinition) :
    (d.mapLoc f).form = d.form.mapLoc f := by
  simp [OrderDefinition.form, OrderDefinition.mapLoc, Function.comp_def]

@[simp] theorem Definition.form_mapLoc (d : Definition) : (d.mapLoc f).form = d.form.mapLoc f := by
  cases d <;> simp [Definition.form, Definition.mapLoc]

@[simp] theorem Document.form_mapLoc (d : Document) : (d.mapLoc f).form = d.form.mapLoc f := by
  simp [Document.form, Document.mapLoc, Function.comp_def]

end SchemaLang
