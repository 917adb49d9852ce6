import SchemaLang.Proofs.Contract
import SchemaLang.Proofs.Slices.Form
import SchemaLang.Proofs.Slices.Parts

/-!
# Every node takes a token

No node of a document that conforms stands at a place without taking a token there. Only a join of
nothing would, and there is none where the contract admits a type.
-/

namespace SchemaLang

namespace Form

variable {Q : Token → Prop}

@[simp] theorem starts_punctuator {p : Punctuator} :
    (punctuator p).Starts Q ↔ Q (.punctuator p) := Iff.rfl

@[simp] theorem starts_heading {d : Option String} {text : String} :
    (heading d text).Starts Q ↔ Q (.name text) := Iff.rfl

@[simp] theorem starts_located {loc : Option Loc} {a : Form} :
    (located loc a).Starts Q ↔ a.Starts Q := Iff.rfl

@[simp] theorem starts_all_cons {a : Form} {as : List Form} :
    (all (a :: as)).Starts Q ↔ a.Starts Q := Iff.rfl

@[simp] theorem starts_block {p q : Punctuator} {as : List Form} :
    (block p q as).Starts Q ↔ Q (.punctuator p) := Iff.rfl

@[simp] theorem isAnchored_empty : empty.IsAnchored := trivial

@[simp] theorem isAnchored_punctuator {p : Punctuator} : (punctuator p).IsAnchored := trivial

@[simp] theorem isAnchored_word {text : String} : (word text).IsAnchored := trivial

@[simp] theorem isAnchored_heading {d : Option String} {text : String} :
    (heading d text).IsAnchored := trivial

@[simp] theorem isAnchored_seq {a b : Form} :
    (seq a b).IsAnchored ↔ a.IsAnchored ∧ b.IsAnchored := Iff.rfl

@[simp] theorem isAnchored_bracketable {a : Form} :
    (bracketable a).IsAnchored ↔ a.IsAnchored := Iff.rfl

@[simp] theorem isAnchored_located {loc : Option Loc} {a : Form} :
    (located loc a).IsAnchored ↔ a.Starts (fun _ => True) ∧ a.IsAnchored := Iff.rfl

@[simp] theorem isAnchored_all {as : List Form} : (all as).IsAnchored ↔ ∀ a ∈ as, a.IsAnchored := by
  induction as with
  | nil => simp [all]
  | cons a as ih => simp [all, ih]

@[simp] theorem isAnchored_block {p q : Punctuator} {as : List Form} :
    (block p q as).IsAnchored ↔ ∀ a ∈ as, a.IsAnchored := by
  simp [block]

@[simp] theorem isAnchored_optionalBlock {p q : Punctuator} {as : List Form} :
    (optionalBlock p q as).IsAnchored ↔ ∀ a ∈ as, a.IsAnchored := by
  cases as with
  | nil => simp [optionalBlock]
  | cons a as => exact isAnchored_block

@[simp] theorem isAnchored_separated {p : Punctuator} {as : List Form} :
    (separated p as).IsAnchored ↔ ∀ a ∈ as, a.IsAnchored := by
  cases as with
  | nil => simp [separated]
  | cons a as => simp [separated]

/-- The form of a node has a token to start with, and so has that of every node in it. -/
theorem IsAnchored.of_hasPart {F G : Form} (hF : F.IsAnchored) (hG : F.HasPart G) :
    G.Starts (fun _ => True) ∧ G.IsAnchored := by
  induction F with
  | token | described | empty => exact hG.elim
  | seq a b iha ihb => exact hG.elim (iha hF.1) (ihb hF.2)
  | located loc a ih =>
    rcases hG with rfl | hG
    · exact ⟨hF.1, hF⟩
    · exact ih hF.2 hG
  | bracketable a ih => exact ih hF hG

end Form

@[simp] theorem Name.isAnchored_form (n : Name) : n.form.IsAnchored := ⟨trivial, trivial⟩

@[simp] theorem Name.starts_form (n : Name) : n.form.Starts fun _ => True := trivial

@[simp] theorem Name.isAnchored_describedForm (d : Option String) (n : Name) :
    (n.describedForm d).IsAnchored :=
  ⟨trivial, trivial⟩

@[simp] theorem Name.starts_describedForm (d : Option String) (n : Name) :
    (n.describedForm d).Starts fun _ => True := trivial

@[simp] theorem NamedType.isAnchored_form (t : NamedType) : t.form.IsAnchored :=
  ⟨trivial, t.name.isAnchored_form⟩

mutual

theorem Value.isAnchored_form : ∀ v : Value, v.form.IsAnchored
  | .var .. => by simp [Value.form]
  | .int .. => ⟨trivial, trivial⟩
  | .float .. => ⟨trivial, trivial⟩
  | .string .. => ⟨trivial, trivial⟩
  | .boolean .. => ⟨trivial, trivial⟩
  | .enum .. => ⟨trivial, trivial⟩
  | .list vs _ => by simpa [Value.form] using Value.isAnchored_forms vs
  | .object fs _ => by simpa [Value.form] using Value.isAnchored_fieldForms fs

theorem Value.isAnchored_forms : ∀ vs : List Value, ∀ a ∈ Value.forms vs, a.IsAnchored
  | [] => by simp [Value.forms]
  | v :: vs => by simpa [Value.forms] using ⟨Value.isAnchored_form v, Value.isAnchored_forms vs⟩

theorem Value.isAnchored_fieldForms :
    ∀ fs : List ObjectField, ∀ a ∈ Value.fieldForms fs, a.IsAnchored
  | [] => by simp [Value.fieldForms]
  | ⟨n, v, _⟩ :: fs => by
    simpa [Value.fieldForms] using ⟨Value.isAnchored_form v, Value.isAnchored_fieldForms fs⟩

end

attribute [simp] Value.isAnchored_form

@[simp] theorem ObjectValue.isAnchored_form (o : ObjectValue) : o.form.IsAnchored :=
  o.toValue.isAnchored_form

@[simp] theorem Argument.isAnchored_form (a : Argument) :
    a.form.IsAnchored := by simp [Argument.form]

@[simp] theorem Directive.isAnchored_form (d : Directive) :
    d.form.IsAnchored := by simp [Directive.form]

@[simp] theorem Directive.isAnchored_forms (ds : List Directive) :
    (Directive.forms ds).IsAnchored := by
  simp [Directive.forms]

@[simp] theorem isAnchored_arrowForm (a : Direction) (b : Cardinality) (label : Option NamedType)
    (t : NamedType) : (arrowForm a b label t).IsAnchored := by
  cases a <;> cases b <;> cases label <;> simp [arrowForm, arrowStartForm, arrowEndForm, labelForm]

@[simp] theorem starts_arrowForm (a : Direction) (b : Cardinality) (label : Option NamedType)
    (t : NamedType) : (arrowForm a b label t).Starts fun _ => True := by
  cases a <;> cases b <;> trivial

@[simp] theorem ConnectionType.isAnchored_form (t : ConnectionType) : t.form.IsAnchored := by
  simp [ConnectionType.form]

@[simp] theorem EdgeType.isAnchored_form (t : EdgeType) :
    t.form.IsAnchored := by simp [EdgeType.form]

namespace TypeRef

/-- Every join in the type is one of something. -/
def HasNoEmptyJoin : TypeRef → Prop
  | .named _ => True
  | .list t _ => t.HasNoEmptyJoin
  | .nonNull t _ => t.HasNoEmptyJoin
  | .connection _ => True
  | .connectionJoin t => t.connections ≠ []
  | .edge _ => True

variable {t : TypeRef}

theorem starts_form (h : t.HasNoEmptyJoin) : t.form.Starts fun _ => True := by
  induction t with
  | nonNull t loc ih => exact ih h
  | connectionJoin t =>
    obtain ⟨ts, loc⟩ := t
    obtain ⟨t, ts, rfl⟩ := List.exists_cons_of_ne_nil h
    exact starts_arrowForm t.direction t.cardinality t.edgeLabel t.type
  | connection t => exact starts_arrowForm t.direction t.cardinality t.edgeLabel t.type
  | edge t => exact starts_arrowForm t.direction .plural t.edgeLabel t.type
  | _ => trivial

theorem isAnchored_form (h : t.HasNoEmptyJoin) : t.form.IsAnchored := by
  induction t with
  | named t => exact t.isAnchored_form
  | list t loc ih => simp [form, ih h]
  | nonNull t loc ih =>
    have hstarts := starts_form (t := t) h
    simp [form, ih h, hstarts]
  | connection t => exact t.isAnchored_form
  | connectionJoin t => exact ⟨starts_form (t := .connectionJoin t) h, by simp⟩
  | edge t => exact t.isAnchored_form

private theorem hasNoEmptyJoin_of_isPlain (h : t.IsPlain) : t.HasNoEmptyJoin := by
  fun_induction IsPlain t with
  | case1 t => trivial
  | case2 t loc ih => exact ih h
  | case3 t loc => trivial
  | case4 t loc _ ih => exact ih h
  | case5 t => exact h.elim

private theorem hasNoEmptyJoin_of_isOrNonNull {base : TypeRef → Prop}
    (hbase : ∀ u, base u → u.HasNoEmptyJoin) (h : IsOrNonNull base t) : t.HasNoEmptyJoin := by
  rcases h with h | ⟨u, loc, rfl, h⟩
  · exact hbase t h
  · exact hbase u h

private theorem hasNoEmptyJoin_of_isFieldBase (h : t.IsFieldBase) : t.HasNoEmptyJoin := by
  cases t with
  | list t loc => exact hasNoEmptyJoin_of_isPlain (t := t) h
  | connectionJoin t => exact List.ne_nil_of_length_pos (Nat.lt_of_lt_of_le Nat.two_pos h.1)
  | nonNull => exact h.elim
  | _ => trivial

private theorem hasNoEmptyJoin_of_isMutationFieldBase (h : t.IsMutationFieldBase) :
    t.HasNoEmptyJoin := by
  cases t with
  | list t loc => exact hasNoEmptyJoin_of_isPlain (t := t) h
  | connectionJoin => exact h.elim
  | nonNull => exact h.elim
  | _ => trivial

private theorem hasNoEmptyJoin_of_isTarget (h : t.IsTarget) : t.HasNoEmptyJoin := by
  cases t with
  | list t loc => exact hasNoEmptyJoin_of_isPlain (t := t) h
  | connectionJoin => exact h.elim
  | nonNull => exact h.elim
  | _ => trivial

end TypeRef

variable {depth : Nat}

@[simp] theorem isAnchored_defaultForm (v : Option Value) : (defaultForm v).IsAnchored := by
  cases v <;> simp [defaultForm]

theorem InputValueDefinition.isAnchored_form {d : InputValueDefinition} (h : d.Conforms depth) :
    d.form.IsAnchored := by
  simp [form, TypeRef.isAnchored_form (TypeRef.hasNoEmptyJoin_of_isPlain h.type.1)]

private theorem InputValueDefinition.isAnchored_argumentForms {ds : List InputValueDefinition}
    (h : ∀ d ∈ ds, d.Conforms depth) : (argumentForms ds).IsAnchored := by
  simpa [argumentForms] using fun d hd => isAnchored_form (h d hd)

theorem FieldDefinition.isAnchored_form {admits : TypeRef → Prop} {d : FieldDefinition}
    (h : d.Conforms admits depth) (hadmits : ∀ t, admits t → t.HasNoEmptyJoin) :
    d.form.IsAnchored := by
  simp [form, InputValueDefinition.isAnchored_argumentForms h.arguments,
    TypeRef.isAnchored_form (hadmits _ h.type.1)]

private theorem FieldDefinition.isAnchored_of_mem_forms {admits : TypeRef → Prop}
    {ds : List FieldDefinition} (h : ∀ d ∈ ds, d.Conforms admits depth)
    (hadmits : ∀ t, admits t → t.HasNoEmptyJoin) :
    ∀ a ∈ ds.map FieldDefinition.form, a.IsAnchored := by
  simpa using fun d hd => isAnchored_form (h d hd) hadmits

@[simp] theorem EnumValueDefinition.isAnchored_form (d : EnumValueDefinition) :
    d.form.IsAnchored := by
  simp [EnumValueDefinition.form]

@[simp] theorem isAnchored_interfaceForms (ts : List NamedType) :
    (interfaceForms ts).IsAnchored := by
  cases ts <;> simp [interfaceForms]

private theorem hasNoEmptyJoin_of_field {t : TypeRef}
    (h : TypeRef.IsOrNonNull TypeRef.IsFieldBase t) : t.HasNoEmptyJoin :=
  TypeRef.hasNoEmptyJoin_of_isOrNonNull (fun _ => TypeRef.hasNoEmptyJoin_of_isFieldBase) h

private theorem ObjectTypeDefinition.isAnchored_formFrom {o : ObjectTypeDefinition}
    (h : o.Conforms depth) {first : Form} (hstarts : first.Starts fun _ => True)
    (hfirst : first.IsAnchored) : (o.formFrom first).IsAnchored := by
  have hfields := FieldDefinition.isAnchored_of_mem_forms h.fields fun _ => hasNoEmptyJoin_of_field
  simpa [formFrom, hstarts, hfirst] using hfields

theorem OperationDefinition.isAnchored_form {fields : List FieldDefinition → Prop}
    {keyword : String} {d : OperationDefinition} (h : d.Conforms fields depth)
    (hfields : ∀ ds, fields ds → ∀ a ∈ ds.map FieldDefinition.form, a.IsAnchored) :
    (d.form keyword).IsAnchored := by
  have hresult : (d.result.form d.directives).IsAnchored := by
    have hr := h.result
    cases hd : d.result with
    | type t =>
      rw [hd] at hr
      simp [OperationResult.form, TypeRef.isAnchored_form (TypeRef.hasNoEmptyJoin_of_isPlain hr.1)]
    | fields ds =>
      rw [hd] at hr
      simpa [OperationResult.form] using hfields ds hr
  simp [form, InputValueDefinition.isAnchored_argumentForms h.arguments, hresult]

theorem FilterCondition.isAnchored_form {c : FilterCondition} (h : c.Conforms depth) :
    c.form.IsAnchored := by
  simp [form, InputValueDefinition.isAnchored_argumentForms h.arguments, EnumValueDefinition.form]

@[simp] theorem OrderExpression.isAnchored_form (e : OrderExpression) : e.form.IsAnchored := by
  have hobjects : (objectsForm e.expression).IsAnchored := by
    rcases e.expression with _ | ⟨o, _ | ⟨p, os⟩⟩ <;> simp [objectsForm]
  simp [form, hobjects, EnumValueDefinition.form]

theorem Definition.isAnchored_form {d : Definition} (h : d.Conforms depth) : d.form.IsAnchored := by
  cases d with
  | scalar d => simp [form, ScalarTypeDefinition.form]
  | object d => exact d.isAnchored_formFrom h trivial trivial
  | interface d =>
    have hfields := FieldDefinition.isAnchored_of_mem_forms h.fields fun _ =>
      hasNoEmptyJoin_of_field
    simpa [form, InterfaceTypeDefinition.form] using hfields
  | union d => simp [form, UnionTypeDefinition.form]
  | enum d => simp [form, EnumTypeDefinition.form]
  | inputObject d =>
    simpa [form, InputObjectTypeDefinition.form] using fun f hf =>
      InputValueDefinition.isAnchored_form (h.fields f hf)
  | typeExtension d =>
    have hobject : (d.definition.formFrom (.word "type")).IsAnchored :=
      d.definition.isAnchored_formFrom h.definition trivial trivial
    simp [form, TypeExtensionDefinition.form, hobject]
  | directive d =>
    simp [form, DirectiveDefinition.form, InputValueDefinition.isAnchored_argumentForms h.arguments]
  | mutation d =>
    refine d.isAnchored_form h fun ds hds => FieldDefinition.isAnchored_of_mem_forms hds fun t => ?_
    exact TypeRef.hasNoEmptyJoin_of_isOrNonNull fun _ =>
      TypeRef.hasNoEmptyJoin_of_isMutationFieldBase
  | query d =>
    refine d.isAnchored_form h fun ds hds =>
      FieldDefinition.isAnchored_of_mem_forms hds.2 fun t => ?_
    exact TypeRef.hasNoEmptyJoin_of_isPlain
  | filter d =>
    have htype := TypeRef.isAnchored_form (TypeRef.hasNoEmptyJoin_of_isTarget h.type.1)
    simpa [form, FilterDefinition.form, htype] using fun c hc =>
      FilterCondition.isAnchored_form (h.conditions c hc)
  | order d =>
    have htype := TypeRef.isAnchored_form (TypeRef.hasNoEmptyJoin_of_isTarget h.type.1)
    simp [form, OrderDefinition.form, htype]

theorem Document.isAnchored_form {d : Document} (h : d.Conforms depth) : d.form.IsAnchored := by
  simpa [form] using fun x hx => Definition.isAnchored_form (h.definitions x hx)

end SchemaLang
