import SchemaLang.Proofs.Traversal.Within

/-!
# Joins within a node

A join is of two connections or more. Joins stand in types only, so that a node has good joins if
the types in it do.
-/

namespace SchemaLang

namespace Node

/-- Every join within the node is one of two or more connections. -/
def JoinsConnect (n : Node) : Prop :=
  ∀ t : ConnectionJoinType, n.Within (.type (.connectionJoin t)) → 2 ≤ t.connections.length

/-- A node has good joins if it is no bad one and its parts have good joins. -/
theorem joinsConnect_iff {n : Node} :
    n.JoinsConnect ↔ (∀ t, n = .type (.connectionJoin t) → 2 ≤ t.connections.length) ∧
      ∀ s ∈ n.slots, s.2.Forall JoinsConnect := by
  constructor
  · intro h
    refine ⟨fun t ht => h t (ht ▸ .refl), ?_⟩
    exact forall_mem_children.1 fun c hc t ht => h t (.of_mem_children hc ht)
  · rintro ⟨hself, hslots⟩ t ht
    rcases ht.eq_or_exists with heq | ⟨c, hc, ht⟩
    · exact hself t heq.symm
    · exact forall_mem_children.2 hslots c hc t ht

@[simp] theorem joinsConnect_name (n : Name) : (name n).JoinsConnect := by
  rw [joinsConnect_iff]
  simp [slots]

mutual

theorem joinsConnect_value : ∀ v : Value, (value v).JoinsConnect
  | .var .. => by rw [joinsConnect_iff]; simp [slots, Value.slots, PartSort.name]
  | .int .. => by rw [joinsConnect_iff]; simp [slots, Value.slots]
  | .float .. => by rw [joinsConnect_iff]; simp [slots, Value.slots]
  | .string .. => by rw [joinsConnect_iff]; simp [slots, Value.slots]
  | .boolean .. => by rw [joinsConnect_iff]; simp [slots, Value.slots]
  | .enum .. => by rw [joinsConnect_iff]; simp [slots, Value.slots]
  | .list vs _ => by
    rw [joinsConnect_iff]
    simpa [slots, Value.slots, PartSort.value] using joinsConnect_values vs
  | .object fs _ => by
    rw [joinsConnect_iff]
    simpa [slots, Value.slots, PartSort.objectField] using joinsConnect_fields fs

theorem joinsConnect_values : ∀ vs : List Value, ∀ v ∈ vs, (value v).JoinsConnect
  | [] => by simp
  | v :: vs => List.forall_mem_cons.2 ⟨joinsConnect_value v, joinsConnect_values vs⟩

theorem joinsConnect_fields : ∀ fs : List ObjectField, ∀ f ∈ fs, (objectField f).JoinsConnect
  | [] => by simp
  | ⟨n, v, loc⟩ :: fs => by
    refine List.forall_mem_cons.2 ⟨?_, joinsConnect_fields fs⟩
    rw [joinsConnect_iff]
    simpa [slots, PartSort.name, PartSort.value] using joinsConnect_value v

end

attribute [simp] joinsConnect_value

@[simp] theorem joinsConnect_objectField (f : ObjectField) : (objectField f).JoinsConnect := by
  rw [joinsConnect_iff]
  simp [slots, PartSort.name, PartSort.value]

@[simp] theorem joinsConnect_argument (a : Argument) : (argument a).JoinsConnect := by
  rw [joinsConnect_iff]
  simp [slots, PartSort.name, PartSort.value]

@[simp] theorem joinsConnect_directive (d : Directive) : (directive d).JoinsConnect := by
  rw [joinsConnect_iff]
  simp [slots, PartSort.name, PartSort.argument]

@[simp] theorem joinsConnect_enumValue (d : EnumValueDefinition) : (enumValue d).JoinsConnect := by
  rw [joinsConnect_iff]
  simp [slots, PartSort.name, PartSort.directive]

@[simp] theorem joinsConnect_ordering (e : OrderExpression) : (ordering e).JoinsConnect := by
  rw [joinsConnect_iff]
  simp [slots, PartSort.enumValue, PartSort.object]

@[simp] theorem joinsConnect_named (t : NamedType) : (type (.named t)).JoinsConnect := by
  rw [joinsConnect_iff]
  simp [slots, TypeRef.slots, PartSort.name]

@[simp] theorem joinsConnect_list {t : TypeRef} {loc : Option Loc} :
    (type (.list t loc)).JoinsConnect ↔ (type t).JoinsConnect := by
  rw [joinsConnect_iff]
  simp [slots, TypeRef.slots, PartSort.type]

@[simp] theorem joinsConnect_nonNull {t : TypeRef} {loc : Option Loc} :
    (type (.nonNull t loc)).JoinsConnect ↔ (type t).JoinsConnect := by
  rw [joinsConnect_iff]
  simp [slots, TypeRef.slots, PartSort.type]

@[simp] theorem joinsConnect_connection (t : ConnectionType) :
    (type (.connection t)).JoinsConnect := by
  rw [joinsConnect_iff]
  simp [slots, TypeRef.slots, PartSort.namedType]

@[simp] theorem joinsConnect_connectionJoin {t : ConnectionJoinType} :
    (type (.connectionJoin t)).JoinsConnect ↔ 2 ≤ t.connections.length := by
  rw [joinsConnect_iff]
  simp [slots, TypeRef.slots, PartSort.connection]

@[simp] theorem joinsConnect_edge (t : EdgeType) : (type (.edge t)).JoinsConnect := by
  rw [joinsConnect_iff]
  simp [slots, TypeRef.slots, PartSort.namedType]

@[simp] theorem joinsConnect_inputValue {d : InputValueDefinition} :
    (inputValue d).JoinsConnect ↔ (type d.type).JoinsConnect := by
  rw [joinsConnect_iff]
  simp [slots, PartSort.name, PartSort.type, PartSort.value, PartSort.directive]

@[simp] theorem joinsConnect_field {owner : FieldOwner} {d : FieldDefinition} :
    (field owner d).JoinsConnect ↔ (∀ a ∈ d.arguments, (type a.type).JoinsConnect) ∧
    (type d.type).JoinsConnect := by
  rw [joinsConnect_iff]
  simp [slots, PartSort.name, PartSort.type, PartSort.inputValue, PartSort.directive]

@[simp] theorem joinsConnect_condition {c : FilterCondition} :
    (condition c).JoinsConnect ↔ ∀ a ∈ c.arguments, (type a.type).JoinsConnect := by
  rw [joinsConnect_iff]
  simp [slots, PartSort.enumValue, PartSort.inputValue, PartSort.object]

@[simp] theorem joinsConnect_document {d : Document} :
    (document d).JoinsConnect ↔ ∀ x ∈ d.definitions, (definition x).JoinsConnect := by
  rw [joinsConnect_iff]
  simp [slots, PartSort.definition]

@[simp] theorem joinsConnect_scalar (d : ScalarTypeDefinition) :
    (definition (.scalar d)).JoinsConnect := by
  rw [joinsConnect_iff]
  simp [slots, Definition.slots, PartSort.name, PartSort.directive]

@[simp] theorem joinsConnect_object {d : ObjectTypeDefinition} :
    (definition (.object d)).JoinsConnect ↔ ∀ f ∈ d.fields, (field .type f).JoinsConnect := by
  rw [joinsConnect_iff]
  simp [slots, Definition.slots, PartSort.name, PartSort.namedType,
    PartSort.directive, PartSort.field]

@[simp] theorem joinsConnect_interface {d : InterfaceTypeDefinition} :
    (definition (.interface d)).JoinsConnect ↔ ∀ f ∈ d.fields, (field .type f).JoinsConnect := by
  rw [joinsConnect_iff]
  simp [slots, Definition.slots, PartSort.name, PartSort.directive, PartSort.field]

@[simp] theorem joinsConnect_union (d : UnionTypeDefinition) :
    (definition (.union d)).JoinsConnect := by
  rw [joinsConnect_iff]
  simp [slots, Definition.slots, PartSort.name, PartSort.directive, PartSort.namedType]

@[simp] theorem joinsConnect_enum (d : EnumTypeDefinition) :
    (definition (.enum d)).JoinsConnect := by
  rw [joinsConnect_iff]
  simp [slots, Definition.slots, PartSort.name, PartSort.directive, PartSort.enumValue]

@[simp] theorem joinsConnect_inputObject {d : InputObjectTypeDefinition} :
    (definition (.inputObject d)).JoinsConnect ↔ ∀ f ∈ d.fields, (type f.type).JoinsConnect := by
  rw [joinsConnect_iff]
  simp [slots, Definition.slots, PartSort.name, PartSort.directive, PartSort.inputValue]

@[simp] theorem joinsConnect_typeExtension {d : TypeExtensionDefinition} :
    (definition (.typeExtension d)).JoinsConnect ↔
      ∀ f ∈ d.definition.fields, (field .type f).JoinsConnect := by
  rw [joinsConnect_iff]
  simp [slots, Definition.slots, PartSort.objectType]

@[simp] theorem joinsConnect_directiveDefinition {d : DirectiveDefinition} :
    (definition (.directive d)).JoinsConnect ↔ ∀ a ∈ d.arguments, (type a.type).JoinsConnect := by
  rw [joinsConnect_iff]
  simp [slots, Definition.slots, PartSort.name, PartSort.inputValue]

@[simp] theorem joinsConnect_filter {d : FilterDefinition} : (definition (.filter d)).JoinsConnect ↔
    (type d.type).JoinsConnect ∧ ∀ c ∈ d.conditions, (condition c).JoinsConnect := by
  rw [joinsConnect_iff]
  simp [slots, Definition.slots, PartSort.type, PartSort.condition]

@[simp] theorem joinsConnect_order {d : OrderDefinition} :
    (definition (.order d)).JoinsConnect ↔ (type d.type).JoinsConnect := by
  rw [joinsConnect_iff]
  simp [slots, Definition.slots, PartSort.type, PartSort.ordering]

end Node

/-- Every join in the result of a mutation or a query is one of two or more connections. -/
def OperationResult.JoinsConnect (owner : FieldOwner) : OperationResult → Prop
  | .type t => (Node.type t).JoinsConnect
  | .fields ds => ∀ f ∈ ds, (Node.field owner f).JoinsConnect

namespace Node

private theorem joinsConnect_slots_operation (owner : FieldOwner) (put : OperationDefinition → Node)
    (d : OperationDefinition) : (∀ s ∈ d.slots owner put, s.2.Forall JoinsConnect) ↔
      (∀ a ∈ d.arguments, (type a.type).JoinsConnect) ∧ d.result.JoinsConnect owner := by
  obtain ⟨text, n, as, ds, result, loc⟩ := d
  cases result <;>
    simp [OperationDefinition.slots, OperationResult.slot, PartSort.name, PartSort.inputValue,
      PartSort.directive, PartSort.type, PartSort.field, OperationResult.JoinsConnect]

@[simp] theorem joinsConnect_mutation {d : OperationDefinition} :
    (definition (.mutation d)).JoinsConnect ↔ (∀ a ∈ d.arguments, (type a.type).JoinsConnect) ∧
    d.result.JoinsConnect .mutation := by
  rw [joinsConnect_iff, ← joinsConnect_slots_operation .mutation fun d => .definition (.mutation d)]
  simp [slots, Definition.slots]

@[simp] theorem joinsConnect_query {d : OperationDefinition} :
    (definition (.query d)).JoinsConnect ↔ (∀ a ∈ d.arguments, (type a.type).JoinsConnect) ∧
    d.result.JoinsConnect .query := by
  rw [joinsConnect_iff, ← joinsConnect_slots_operation .query fun d => .definition (.query d)]
  simp [slots, Definition.slots]

end Node

end SchemaLang
