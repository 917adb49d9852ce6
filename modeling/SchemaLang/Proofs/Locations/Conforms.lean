import SchemaLang.Proofs.Contract
import SchemaLang.Proofs.Locations.Form

/-!
# Locations do not matter to the contract

A node that conforms does so wherever it stands: names, values, types and definitions stay in the
contract when their locations are changed or dropped.
-/

namespace SchemaLang

variable {f : Loc → Option Loc}

theorem NamedType.conforms_mapLoc {t : NamedType} (h : t.Conforms) : (t.mapLoc f).Conforms := h

mutual

theorem Value.isWritable_mapLoc {constant : Bool} : ∀ {v : Value}, v.IsWritable constant →
    (v.mapLoc f).IsWritable constant
  | .var .., h => h
  | .int .., h => h
  | .float .., h => h
  | .string .., h => h
  | .boolean .., h => h
  | .enum .., h => h
  | .list _ _, h => Value.areWritable_mapLoc h
  | .object _ _, h => Value.fieldsAreWritable_mapLoc h

theorem Value.areWritable_mapLoc {constant : Bool} :
    ∀ {vs : List Value}, Value.AreWritable constant vs →
    Value.AreWritable constant (Value.mapLocValues f vs)
  | [], h => h
  | _ :: _, h => ⟨Value.isWritable_mapLoc h.1, Value.areWritable_mapLoc h.2⟩

theorem Value.fieldsAreWritable_mapLoc {constant : Bool} : ∀ {fs : List ObjectField},
    Value.FieldsAreWritable constant fs → Value.FieldsAreWritable constant (Value.mapLocFields f fs)
  | [], h => h
  | ⟨_, _, _⟩ :: _, h =>
    ⟨⟨h.1.1, Value.isWritable_mapLoc h.1.2⟩, Value.fieldsAreWritable_mapLoc h.2⟩

end

mutual

theorem Value.nesting_mapLoc : ∀ v : Value, (v.mapLoc f).nesting = v.nesting
  | .var .. => rfl
  | .int .. => rfl
  | .float .. => rfl
  | .string .. => rfl
  | .boolean .. => rfl
  | .enum .. => rfl
  | .list vs _ => congrArg (· + 1) (Value.nestingValues_mapLoc vs)
  | .object fs _ => congrArg (· + 1) (Value.nestingFields_mapLoc fs)

theorem Value.nestingValues_mapLoc : ∀ vs : List Value,
    Value.nestingValues (Value.mapLocValues f vs) = Value.nestingValues vs
  | [] => rfl
  | v :: vs => congrArg₂ max (Value.nesting_mapLoc v) (Value.nestingValues_mapLoc vs)

theorem Value.nestingFields_mapLoc : ∀ fs : List ObjectField,
    Value.nestingFields (Value.mapLocFields f fs) = Value.nestingFields fs
  | [] => rfl
  | ⟨_, v, _⟩ :: fs => congrArg₂ max (Value.nesting_mapLoc v) (Value.nestingFields_mapLoc fs)

end

variable {depth : Nat}

theorem Value.conforms_mapLoc {constant : Bool} {v : Value} (h : v.Conforms constant depth) :
    (v.mapLoc f).Conforms constant depth :=
  ⟨Value.isWritable_mapLoc h.1, by rw [Value.nesting_mapLoc]; exact h.2⟩

theorem ObjectValue.conforms_mapLoc {o : ObjectValue} (h : o.Conforms depth) :
    (o.mapLoc f).Conforms depth := by
  rw [ObjectValue.Conforms, ObjectValue.toValue_mapLoc]
  exact Value.conforms_mapLoc h

/-- A label stays a name. -/
theorem conforms_label {label : Option NamedType} (h : ∀ l ∈ label, l.Conforms) :
    ∀ l ∈ label.map (·.mapLoc f), l.Conforms := by
  intro l hl
  obtain ⟨m, hm, rfl⟩ := Option.map_eq_some_iff.1 hl
  exact NamedType.conforms_mapLoc (h m hm)

theorem ConnectionType.conforms_mapLoc {t : ConnectionType} (h : t.Conforms) :
    (t.mapLoc f).Conforms :=
  ⟨h.1, conforms_label h.2⟩

theorem EdgeType.conforms_mapLoc {t : EdgeType} (h : t.Conforms) : (t.mapLoc f).Conforms :=
  ⟨h.1, conforms_label h.2⟩

namespace TypeRef

/-- Types of the form stay so wherever they stand. -/
def IsKept (f : Loc → Option Loc) (form : TypeRef → Prop) : Prop := ∀ t, form t → form (t.mapLoc f)

private theorem isKept_isPlain : IsKept f IsPlain := by
  intro t h
  induction t with
  | named t => exact h
  | list t loc ih => exact ih h
  | nonNull t loc ih =>
    cases t with
    | named t => exact h
    | list t loc => exact ih h
    | _ => exact h.elim
  | _ => exact h.elim

private theorem isKept_isFieldBase : IsKept f IsFieldBase := by
  intro t h
  cases t with
  | named t => exact h
  | list t loc => exact isKept_isPlain t h
  | connection t => exact ConnectionType.conforms_mapLoc h
  | connectionJoin t =>
    refine ⟨by simpa [ConnectionJoinType.mapLoc] using h.1, List.forall_mem_map.2 fun c hc => ?_⟩
    exact ConnectionType.conforms_mapLoc (h.2 c hc)
  | _ => exact h.elim

private theorem isKept_isMutationFieldBase : IsKept f IsMutationFieldBase := by
  intro t h
  cases t with
  | named t => exact h
  | list t loc => exact isKept_isPlain t h
  | edge t => exact EdgeType.conforms_mapLoc h
  | _ => exact h.elim

private theorem isKept_isTarget : IsKept f IsTarget := by
  intro t h
  cases t with
  | named t => exact h
  | list t loc => exact isKept_isPlain t h
  | connection t => exact ConnectionType.conforms_mapLoc h
  | _ => exact h.elim

private theorem IsKept.isOrNonNull {base : TypeRef → Prop} (hbase : IsKept f base) :
    IsKept f (IsOrNonNull base) := by
  rintro t (h | ⟨u, loc, rfl, h⟩)
  · exact .inl (hbase t h)
  · exact .inr ⟨u.mapLoc f, loc.bind f, rfl, hbase u h⟩

private theorem nesting_mapLoc (t : TypeRef) : (t.mapLoc f).nesting = t.nesting := by
  induction t with
  | list t loc ih => exact congrArg (· + 1) ih
  | nonNull t loc ih => exact ih
  | _ => rfl

theorem IsKept.conforms {form : TypeRef → Prop} (hform : IsKept f form) {t : TypeRef}
    (h : t.Conforms form depth) : (t.mapLoc f).Conforms form depth :=
  ⟨hform t h.1, by rw [nesting_mapLoc]; exact h.2⟩

end TypeRef

/-- Every part conforms wherever it stands. -/
theorem forall_mem_mapLoc {α : Type} {P Q : α → Prop} {part : α → α} {parts : List α}
    (hpart : ∀ {a}, P a → Q (part a)) (h : ∀ a ∈ parts, P a) : ∀ a ∈ parts.map part, Q a :=
  List.forall_mem_map.2 fun a ha => hpart (h a ha)

theorem Argument.conforms_mapLoc {a : Argument} (h : a.Conforms depth) :
    (a.mapLoc f).Conforms depth :=
  ⟨h.1, Value.conforms_mapLoc h.2⟩

theorem Directive.conforms_mapLoc {d : Directive} (h : d.Conforms depth) :
    (d.mapLoc f).Conforms depth :=
  ⟨h.1, forall_mem_mapLoc Argument.conforms_mapLoc h.2⟩

theorem InputValueDefinition.conforms_mapLoc {d : InputValueDefinition} (h : d.Conforms depth) :
    (d.mapLoc f).Conforms depth where
  description := h.description
  name := h.name
  type := TypeRef.isKept_isPlain.conforms h.type
  defaultValue := by
    intro v hv
    obtain ⟨w, hw, rfl⟩ := Option.map_eq_some_iff.1 hv
    exact Value.conforms_mapLoc (h.defaultValue w hw)
  directives := forall_mem_mapLoc Directive.conforms_mapLoc h.directives

theorem FieldDefinition.conforms_mapLoc {form : TypeRef → Prop}
    (hform : TypeRef.IsKept f form) {d : FieldDefinition} (h : d.Conforms form depth) :
    (d.mapLoc f).Conforms form depth where
  description := h.description
  name := h.name
  arguments := forall_mem_mapLoc InputValueDefinition.conforms_mapLoc h.arguments
  type := hform.conforms h.type
  directives := forall_mem_mapLoc Directive.conforms_mapLoc h.directives

theorem EnumValueDefinition.conforms_mapLoc {d : EnumValueDefinition} (h : d.Conforms depth) :
    (d.mapLoc f).Conforms depth :=
  { h with directives := forall_mem_mapLoc Directive.conforms_mapLoc h.directives }

theorem ObjectTypeDefinition.conforms_mapLoc {d : ObjectTypeDefinition} (h : d.Conforms depth) :
    (d.mapLoc f).Conforms depth where
  description := h.description
  name := h.name
  interfaces := forall_mem_mapLoc NamedType.conforms_mapLoc h.interfaces
  directives := forall_mem_mapLoc Directive.conforms_mapLoc h.directives
  fields :=
    forall_mem_mapLoc
      (FieldDefinition.conforms_mapLoc TypeRef.isKept_isFieldBase.isOrNonNull) h.fields

theorem OperationDefinition.conforms_mapLoc {P : List FieldDefinition → Prop}
    (hP : ∀ ds, P ds → P (ds.map (·.mapLoc f))) {d : OperationDefinition}
    (h : d.Conforms P depth) : (d.mapLoc f).Conforms P depth where
  description := h.description
  name := h.name
  arguments := forall_mem_mapLoc InputValueDefinition.conforms_mapLoc h.arguments
  directives := forall_mem_mapLoc Directive.conforms_mapLoc h.directives
  result := by
    obtain ⟨text, n, as, ds, r, loc⟩ := d
    cases r with
    | type t => exact TypeRef.isKept_isPlain.conforms h.result
    | fields fs => exact hP fs h.result

theorem FilterCondition.conforms_mapLoc {c : FilterCondition} (h : c.Conforms depth) :
    (c.mapLoc f).Conforms depth where
  key := EnumValueDefinition.conforms_mapLoc h.key
  arguments := forall_mem_mapLoc InputValueDefinition.conforms_mapLoc h.arguments
  condition := ObjectValue.conforms_mapLoc h.condition

theorem OrderExpression.conforms_mapLoc {e : OrderExpression} (h : e.Conforms depth) :
    (e.mapLoc f).Conforms depth where
  key := EnumValueDefinition.conforms_mapLoc h.key
  expression_ne_nil := by simpa [OrderExpression.mapLoc] using h.expression_ne_nil
  expression := forall_mem_mapLoc ObjectValue.conforms_mapLoc h.expression

theorem Definition.conforms_mapLoc {d : Definition} (h : d.Conforms depth) :
    (d.mapLoc f).Conforms depth := by
  cases d with
  | scalar d =>
    have h : d.Conforms depth := h
    exact { h with directives := forall_mem_mapLoc Directive.conforms_mapLoc h.directives }
  | object d => exact ObjectTypeDefinition.conforms_mapLoc h
  | interface d =>
    have h : d.Conforms depth := h
    exact { h with
      directives := forall_mem_mapLoc Directive.conforms_mapLoc h.directives
      fields := forall_mem_mapLoc
        (FieldDefinition.conforms_mapLoc TypeRef.isKept_isFieldBase.isOrNonNull) h.fields }
  | union d =>
    have h : d.Conforms depth := h
    exact { h with
      directives := forall_mem_mapLoc Directive.conforms_mapLoc h.directives
      types_ne_nil := by simpa [UnionTypeDefinition.mapLoc] using h.types_ne_nil
      types := forall_mem_mapLoc NamedType.conforms_mapLoc h.types }
  | enum d =>
    have h : d.Conforms depth := h
    exact { h with
      directives := forall_mem_mapLoc Directive.conforms_mapLoc h.directives
      values_ne_nil := by simpa [EnumTypeDefinition.mapLoc] using h.values_ne_nil
      values := forall_mem_mapLoc EnumValueDefinition.conforms_mapLoc h.values }
  | inputObject d =>
    have h : d.Conforms depth := h
    exact { h with
      directives := forall_mem_mapLoc Directive.conforms_mapLoc h.directives
      fields := forall_mem_mapLoc InputValueDefinition.conforms_mapLoc h.fields }
  | typeExtension d =>
    have h : d.Conforms depth := h
    exact { h with definition := ObjectTypeDefinition.conforms_mapLoc h.definition }
  | directive d =>
    have h : d.Conforms depth := h
    exact { h with
      arguments := forall_mem_mapLoc InputValueDefinition.conforms_mapLoc h.arguments
      locations_ne_nil := by simpa [DirectiveDefinition.mapLoc] using h.locations_ne_nil
      locations := forall_mem_mapLoc (P := Name.Conforms) id h.locations }
  | mutation d =>
    exact OperationDefinition.conforms_mapLoc (P := ConformMutationFields depth) (fun _ =>
      forall_mem_mapLoc
        (FieldDefinition.conforms_mapLoc TypeRef.isKept_isMutationFieldBase.isOrNonNull)) h
  | query d =>
    refine OperationDefinition.conforms_mapLoc (P := ConformQueryFields depth)
      (fun _ hfields => ⟨?_, ?_⟩) h
    · simpa using hfields.1
    · exact forall_mem_mapLoc (FieldDefinition.conforms_mapLoc TypeRef.isKept_isPlain) hfields.2
  | filter d =>
    have h : d.Conforms depth := h
    exact { h with
      type := TypeRef.isKept_isTarget.conforms h.type
      conditions := forall_mem_mapLoc FilterCondition.conforms_mapLoc h.conditions }
  | order d =>
    have h : d.Conforms depth := h
    exact { h with
      type := TypeRef.isKept_isTarget.conforms h.type
      expressions := forall_mem_mapLoc OrderExpression.conforms_mapLoc h.expressions }

/-- A document conforms whatever the locations of its nodes are. -/
theorem Document.conforms_mapLoc {d : Document} (h : d.Conforms depth) :
    (d.mapLoc f).Conforms depth where
  definitions_ne_nil := by simpa [Document.mapLoc] using h.definitions_ne_nil
  definitions := forall_mem_mapLoc Definition.conforms_mapLoc h.definitions

end SchemaLang
