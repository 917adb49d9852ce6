import SchemaLang.Proofs.Contract

/-!
# How deep a document is nested

The nesting of a node is that of the deepest value or type in it: the levels of lists, objects and
list types around one another. The brackets around the objects of an order's expression are no
level. A tree that conforms within some limit conforms within just the limits that its nesting
does not exceed.
-/

namespace SchemaLang

/-- The greatest of the nestings of some things, or 0 of none. -/
def deepest {α : Type} (nesting : α → Nat) : List α → Nat
  | [] => 0
  | x :: xs => max (nesting x) (deepest nesting xs)

private theorem deepest_le_iff {α : Type} {nesting : α → Nat} {xs : List α} {n : Nat} :
    deepest nesting xs ≤ n ↔ ∀ x ∈ xs, nesting x ≤ n := by
  induction xs with
  | nil => simp [deepest]
  | cons x xs ih => rw [deepest, Nat.max_le, ih, List.forall_mem_cons]

def ObjectValue.nesting (o : ObjectValue) : Nat := o.toValue.nesting

def Argument.nesting (a : Argument) : Nat := a.value.nesting

def Directive.nesting (d : Directive) : Nat := deepest Argument.nesting d.arguments

def InputValueDefinition.nesting (d : InputValueDefinition) : Nat :=
  max d.type.nesting
    (max (deepest Value.nesting d.defaultValue.toList) (deepest Directive.nesting d.directives))

def FieldDefinition.nesting (d : FieldDefinition) : Nat :=
  max (deepest InputValueDefinition.nesting d.arguments)
    (max d.type.nesting (deepest Directive.nesting d.directives))

def EnumValueDefinition.nesting (d : EnumValueDefinition) : Nat :=
  deepest Directive.nesting d.directives

def ScalarTypeDefinition.nesting (d : ScalarTypeDefinition) : Nat :=
  deepest Directive.nesting d.directives

def ObjectTypeDefinition.nesting (d : ObjectTypeDefinition) : Nat :=
  max (deepest Directive.nesting d.directives) (deepest FieldDefinition.nesting d.fields)

def InterfaceTypeDefinition.nesting (d : InterfaceTypeDefinition) : Nat :=
  max (deepest Directive.nesting d.directives) (deepest FieldDefinition.nesting d.fields)

def UnionTypeDefinition.nesting (d : UnionTypeDefinition) : Nat :=
  deepest Directive.nesting d.directives

def EnumTypeDefinition.nesting (d : EnumTypeDefinition) : Nat :=
  max (deepest Directive.nesting d.directives) (deepest EnumValueDefinition.nesting d.values)

def InputObjectTypeDefinition.nesting (d : InputObjectTypeDefinition) : Nat :=
  max (deepest Directive.nesting d.directives) (deepest InputValueDefinition.nesting d.fields)

def TypeExtensionDefinition.nesting (d : TypeExtensionDefinition) : Nat := d.definition.nesting

def DirectiveDefinition.nesting (d : DirectiveDefinition) : Nat :=
  deepest InputValueDefinition.nesting d.arguments

def OperationResult.nesting : OperationResult → Nat
  | .type t => t.nesting
  | .fields ds => deepest FieldDefinition.nesting ds

def OperationDefinition.nesting (d : OperationDefinition) : Nat :=
  max (deepest InputValueDefinition.nesting d.arguments)
    (max (deepest Directive.nesting d.directives) d.result.nesting)

def FilterCondition.nesting (c : FilterCondition) : Nat :=
  max c.key.nesting (max (deepest InputValueDefinition.nesting c.arguments) c.condition.nesting)

def FilterDefinition.nesting (d : FilterDefinition) : Nat :=
  max d.type.nesting (deepest FilterCondition.nesting d.conditions)

def OrderExpression.nesting (e : OrderExpression) : Nat :=
  max e.key.nesting (deepest ObjectValue.nesting e.expression)

def OrderDefinition.nesting (d : OrderDefinition) : Nat :=
  max d.type.nesting (deepest OrderExpression.nesting d.expressions)

def Definition.nesting : Definition → Nat
  | .scalar d => d.nesting
  | .object d => d.nesting
  | .interface d => d.nesting
  | .union d => d.nesting
  | .enum d => d.nesting
  | .inputObject d => d.nesting
  | .typeExtension d => d.nesting
  | .directive d => d.nesting
  | .mutation d => d.nesting
  | .query d => d.nesting
  | .filter d => d.nesting
  | .order d => d.nesting

def Document.nesting (d : Document) : Nat := deepest Definition.nesting d.definitions

section

variable {m n : Nat}

/-- What holds of each of some things within a limit holds of all of them within the limit
of the deepest. -/
theorem forall_conforms_iff {α : Type} {conforms : Nat → α → Prop} {nesting : α → Nat} {xs : List α}
    (h : ∀ {x}, conforms m x → (conforms n x ↔ nesting x ≤ n)) (hxs : ∀ x ∈ xs, conforms m x) :
    (∀ x ∈ xs, conforms n x) ↔ deepest nesting xs ≤ n := by
  rw [deepest_le_iff]
  exact forall₂_congr fun x hx => h (hxs x hx)

theorem Value.conforms_iff {constant : Bool} {v : Value} (h : v.Conforms constant m) :
    v.Conforms constant n ↔ v.nesting ≤ n := by
  rw [Conforms, and_iff_right h.1]

theorem TypeRef.conforms_iff {form : TypeRef → Prop} {t : TypeRef} (h : t.Conforms form m) :
    t.Conforms form n ↔ t.nesting ≤ n := by
  rw [Conforms, and_iff_right h.1]

theorem ObjectValue.conforms_iff {o : ObjectValue} (h : o.Conforms m) :
    o.Conforms n ↔ o.nesting ≤ n :=
  Value.conforms_iff h

theorem Argument.conforms_iff {a : Argument} (h : a.Conforms m) : a.Conforms n ↔ a.nesting ≤ n := by
  rw [Conforms, and_iff_right h.1, Value.conforms_iff h.2, nesting]

theorem Directive.conforms_iff {d : Directive} (h : d.Conforms m) :
    d.Conforms n ↔ d.nesting ≤ n := by
  rw [Conforms, and_iff_right h.1, forall_conforms_iff Argument.conforms_iff h.2, nesting]

private theorem Directive.forall_conforms_iff {ds : List Directive} (h : ∀ d ∈ ds, d.Conforms m) :
    (∀ d ∈ ds, d.Conforms n) ↔ deepest Directive.nesting ds ≤ n :=
  SchemaLang.forall_conforms_iff Directive.conforms_iff h

theorem InputValueDefinition.conforms_iff {d : InputValueDefinition} (h : d.Conforms m) :
    d.Conforms n ↔ d.nesting ≤ n := by
  have values : (∀ v ∈ d.defaultValue, v.Conforms true n) ↔
      deepest Value.nesting d.defaultValue.toList ≤ n := by
    have hvs : ∀ v ∈ d.defaultValue.toList, v.Conforms true m := by simpa using h.defaultValue
    rw [← forall_conforms_iff Value.conforms_iff hvs]
    simp
  rw [nesting, Nat.max_le, Nat.max_le, ← TypeRef.conforms_iff h.type, ← values,
    ← Directive.forall_conforms_iff h.directives]
  constructor
  · intro c
    exact ⟨c.type, c.defaultValue, c.directives⟩
  · rintro ⟨ht, hv, hds⟩
    exact ⟨h.description, h.name, ht, hv, hds⟩

private theorem InputValueDefinition.forall_conforms_iff {ds : List InputValueDefinition}
    (h : ∀ d ∈ ds, d.Conforms m) :
    (∀ d ∈ ds, d.Conforms n) ↔ deepest InputValueDefinition.nesting ds ≤ n :=
  SchemaLang.forall_conforms_iff InputValueDefinition.conforms_iff h

theorem FieldDefinition.conforms_iff {form : TypeRef → Prop} {d : FieldDefinition}
    (h : d.Conforms form m) : d.Conforms form n ↔ d.nesting ≤ n := by
  rw [nesting, Nat.max_le, Nat.max_le, ← InputValueDefinition.forall_conforms_iff h.arguments,
    ← TypeRef.conforms_iff h.type, ← Directive.forall_conforms_iff h.directives]
  constructor
  · intro c
    exact ⟨c.arguments, c.type, c.directives⟩
  · rintro ⟨has, ht, hds⟩
    exact ⟨h.description, h.name, has, ht, hds⟩

private theorem FieldDefinition.forall_conforms_iff {form : TypeRef → Prop}
    {ds : List FieldDefinition} (h : ∀ d ∈ ds, d.Conforms form m) :
    (∀ d ∈ ds, d.Conforms form n) ↔ deepest FieldDefinition.nesting ds ≤ n :=
  SchemaLang.forall_conforms_iff FieldDefinition.conforms_iff h

theorem EnumValueDefinition.conforms_iff {d : EnumValueDefinition} (h : d.Conforms m) :
    d.Conforms n ↔ d.nesting ≤ n := by
  rw [nesting, ← Directive.forall_conforms_iff h.directives]
  exact ⟨fun c => c.directives, fun hds => ⟨h.description, h.name, hds⟩⟩

theorem ScalarTypeDefinition.conforms_iff {d : ScalarTypeDefinition} (h : d.Conforms m) :
    d.Conforms n ↔ d.nesting ≤ n := by
  rw [nesting, ← Directive.forall_conforms_iff h.directives]
  exact ⟨fun c => c.directives, fun hds => ⟨h.description, h.name, hds⟩⟩

theorem ObjectTypeDefinition.conforms_iff {d : ObjectTypeDefinition} (h : d.Conforms m) :
    d.Conforms n ↔ d.nesting ≤ n := by
  rw [nesting, Nat.max_le, ← Directive.forall_conforms_iff h.directives,
    ← FieldDefinition.forall_conforms_iff h.fields]
  exact ⟨fun c => ⟨c.directives, c.fields⟩, fun ⟨hds, hfs⟩ =>
    ⟨h.description, h.name, h.interfaces, hds, hfs⟩⟩

theorem InterfaceTypeDefinition.conforms_iff {d : InterfaceTypeDefinition} (h : d.Conforms m) :
    d.Conforms n ↔ d.nesting ≤ n := by
  rw [nesting, Nat.max_le, ← Directive.forall_conforms_iff h.directives,
    ← FieldDefinition.forall_conforms_iff h.fields]
  exact ⟨fun c => ⟨c.directives, c.fields⟩, fun ⟨hds, hfs⟩ => ⟨h.description, h.name, hds, hfs⟩⟩

theorem UnionTypeDefinition.conforms_iff {d : UnionTypeDefinition} (h : d.Conforms m) :
    d.Conforms n ↔ d.nesting ≤ n := by
  rw [nesting, ← Directive.forall_conforms_iff h.directives]
  exact ⟨fun c => c.directives, fun hds => ⟨h.description, h.name, hds, h.types_ne_nil, h.types⟩⟩

theorem EnumTypeDefinition.conforms_iff {d : EnumTypeDefinition} (h : d.Conforms m) :
    d.Conforms n ↔ d.nesting ≤ n := by
  rw [nesting, Nat.max_le, ← Directive.forall_conforms_iff h.directives,
    ← forall_conforms_iff EnumValueDefinition.conforms_iff h.values]
  exact ⟨fun c => ⟨c.directives, c.values⟩, fun ⟨hds, hvs⟩ =>
    ⟨h.description, h.name, hds, h.values_ne_nil, hvs⟩⟩

theorem InputObjectTypeDefinition.conforms_iff {d : InputObjectTypeDefinition} (h : d.Conforms m) :
    d.Conforms n ↔ d.nesting ≤ n := by
  rw [nesting, Nat.max_le, ← Directive.forall_conforms_iff h.directives,
    ← InputValueDefinition.forall_conforms_iff h.fields]
  exact ⟨fun c => ⟨c.directives, c.fields⟩, fun ⟨hds, hfs⟩ => ⟨h.description, h.name, hds, hfs⟩⟩

theorem TypeExtensionDefinition.conforms_iff {d : TypeExtensionDefinition} (h : d.Conforms m) :
    d.Conforms n ↔ d.nesting ≤ n := by
  rw [nesting, ← ObjectTypeDefinition.conforms_iff h.definition]
  exact ⟨fun c => c.definition, fun hd => ⟨h.description, hd, h.definition_description⟩⟩

theorem DirectiveDefinition.conforms_iff {d : DirectiveDefinition} (h : d.Conforms m) :
    d.Conforms n ↔ d.nesting ≤ n := by
  rw [nesting, ← InputValueDefinition.forall_conforms_iff h.arguments]
  exact ⟨fun c => c.arguments,
    fun has => ⟨h.description, h.name, has, h.locations_ne_nil, h.locations⟩⟩

theorem OperationDefinition.conforms_iff {fields : Nat → List FieldDefinition → Prop}
    {d : OperationDefinition}
    (hfields : ∀ {ds}, fields m ds → (fields n ds ↔ deepest FieldDefinition.nesting ds ≤ n))
    (h : d.Conforms (fields m) m) : d.Conforms (fields n) n ↔ d.nesting ≤ n := by
  have result : d.result.Conforms (fields n) n ↔ d.result.nesting ≤ n := by
    have hresult := h.result
    cases hr : d.result with
    | type t =>
      rw [hr] at hresult
      exact TypeRef.conforms_iff hresult
    | fields ds =>
      rw [hr] at hresult
      exact hfields hresult
  rw [nesting, Nat.max_le, Nat.max_le, ← InputValueDefinition.forall_conforms_iff h.arguments,
    ← Directive.forall_conforms_iff h.directives, ← result]
  constructor
  · intro c
    exact ⟨c.arguments, c.directives, c.result⟩
  · rintro ⟨has, hds, hr⟩
    exact ⟨h.description, h.name, has, hds, hr⟩

theorem FilterCondition.conforms_iff {c : FilterCondition} (h : c.Conforms m) :
    c.Conforms n ↔ c.nesting ≤ n := by
  rw [nesting, Nat.max_le, Nat.max_le, ← EnumValueDefinition.conforms_iff h.key,
    ← InputValueDefinition.forall_conforms_iff h.arguments, ← ObjectValue.conforms_iff h.condition]
  exact ⟨fun c => ⟨c.key, c.arguments, c.condition⟩, fun ⟨hk, has, ho⟩ => ⟨hk, has, ho⟩⟩

theorem FilterDefinition.conforms_iff {d : FilterDefinition} (h : d.Conforms m) :
    d.Conforms n ↔ d.nesting ≤ n := by
  rw [nesting, Nat.max_le, ← TypeRef.conforms_iff h.type,
    ← forall_conforms_iff FilterCondition.conforms_iff h.conditions]
  exact ⟨fun c => ⟨c.type, c.conditions⟩, fun ⟨ht, hcs⟩ => ⟨h.description, ht, hcs⟩⟩

theorem OrderExpression.conforms_iff {e : OrderExpression} (h : e.Conforms m) :
    e.Conforms n ↔ e.nesting ≤ n := by
  rw [nesting, Nat.max_le, ← EnumValueDefinition.conforms_iff h.key,
    ← forall_conforms_iff ObjectValue.conforms_iff h.expression]
  exact ⟨fun c => ⟨c.key, c.expression⟩, fun ⟨hk, hos⟩ => ⟨hk, h.expression_ne_nil, hos⟩⟩

theorem OrderDefinition.conforms_iff {d : OrderDefinition} (h : d.Conforms m) :
    d.Conforms n ↔ d.nesting ≤ n := by
  rw [nesting, Nat.max_le, ← TypeRef.conforms_iff h.type,
    ← forall_conforms_iff OrderExpression.conforms_iff h.expressions]
  exact ⟨fun c => ⟨c.type, c.expressions⟩, fun ⟨ht, hes⟩ => ⟨h.description, ht, hes⟩⟩

private theorem conformMutationFields_iff {ds : List FieldDefinition}
    (h : ConformMutationFields m ds) :
    ConformMutationFields n ds ↔ deepest FieldDefinition.nesting ds ≤ n :=
  FieldDefinition.forall_conforms_iff h

private theorem conformQueryFields_iff {ds : List FieldDefinition} (h : ConformQueryFields m ds) :
    ConformQueryFields n ds ↔ deepest FieldDefinition.nesting ds ≤ n := by
  rw [ConformQueryFields, and_iff_right h.1]
  exact FieldDefinition.forall_conforms_iff h.2

theorem Definition.conforms_iff {d : Definition} (h : d.Conforms m) :
    d.Conforms n ↔ d.nesting ≤ n := by
  cases d with
  | scalar d => exact ScalarTypeDefinition.conforms_iff h
  | object d => exact ObjectTypeDefinition.conforms_iff h
  | interface d => exact InterfaceTypeDefinition.conforms_iff h
  | union d => exact UnionTypeDefinition.conforms_iff h
  | enum d => exact EnumTypeDefinition.conforms_iff h
  | inputObject d => exact InputObjectTypeDefinition.conforms_iff h
  | typeExtension d => exact TypeExtensionDefinition.conforms_iff h
  | directive d => exact DirectiveDefinition.conforms_iff h
  | mutation d => exact OperationDefinition.conforms_iff conformMutationFields_iff h
  | query d => exact OperationDefinition.conforms_iff conformQueryFields_iff h
  | filter d => exact FilterDefinition.conforms_iff h
  | order d => exact OrderDefinition.conforms_iff h

/-- A document within some limit is within just the limits that its nesting does not exceed. -/
theorem Document.conforms_iff {d : Document} (h : d.Conforms m) : d.Conforms n ↔ d.nesting ≤ n := by
  rw [nesting, ← forall_conforms_iff Definition.conforms_iff h.definitions]
  exact ⟨fun c => c.definitions, fun hds => ⟨h.definitions_ne_nil, hds⟩⟩

end

end SchemaLang
