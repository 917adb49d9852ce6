import SchemaLang.Proofs.Contract
import SchemaLang.Proofs.Traversal.Within

/-!
# The contract for every node

What the contract of documents says of a document it says of every node within. Every value in
particular can be written and is nested no deeper than the limit, whether or not a variable may
stand where it does.
-/

namespace SchemaLang

variable {depth : Nat}

mutual

/-- What can be written where no variable may stand can be written anywhere. -/
theorem Value.IsWritable.anywhere :
    ∀ {v : Value} {constant : Bool}, v.IsWritable constant → v.IsWritable false
  | .var .., _, h => ⟨rfl, h.2⟩
  | .int .., _, h => h
  | .float .., _, h => h
  | .string .., _, h => h
  | .boolean .., _, h => h
  | .enum .., _, h => h
  | .list _ _, _, h => Value.areWritable_anywhere h
  | .object _ _, _, h => Value.fieldsAreWritable_anywhere h

theorem Value.areWritable_anywhere :
    ∀ {vs : List Value} {constant : Bool}, Value.AreWritable constant vs →
    Value.AreWritable false vs
  | [], _, _ => trivial
  | _ :: _, _, h => ⟨h.1.anywhere, Value.areWritable_anywhere h.2⟩

theorem Value.fieldsAreWritable_anywhere :
    ∀ {fs : List ObjectField} {constant : Bool}, Value.FieldsAreWritable constant fs →
    Value.FieldsAreWritable false fs
  | [], _, _ => trivial
  | ⟨_, _, _⟩ :: _, _, h => ⟨⟨h.1.1, h.1.2.anywhere⟩, Value.fieldsAreWritable_anywhere h.2⟩

end

private theorem Value.Conforms.anywhere {v : Value} {constant : Bool}
    (h : v.Conforms constant depth) : v.Conforms false depth :=
  ⟨h.1.anywhere, h.2⟩

theorem Value.Conforms.mono {v : Value} {constant : Bool} {deeper : Nat}
    (h : v.Conforms constant depth) (hle : depth ≤ deeper) : v.Conforms constant deeper :=
  ⟨h.1, h.2.trans hle⟩

namespace Node

/-- What the contract says of a node. Of names and types it says more where they stand. -/
def Conforms (depth : Nat) : Node → Prop
  | .name _ => True
  | .document d => d.Conforms depth
  | .value v => v.Conforms false depth
  | .objectField f => f.Conforms false depth
  | .argument a => a.Conforms depth
  | .directive d => d.Conforms depth
  | .type _ => True
  | .inputValue d => d.Conforms depth
  | .field _ d => ∃ admits, d.Conforms admits depth
  | .enumValue d => d.Conforms depth
  | .definition d => d.Conforms depth
  | .condition c => c.Conforms depth
  | .ordering e => e.Conforms depth

/-- The parts of a list or an object conform with it. -/
theorem conforms_of_mem_value_slots {v : Value} (h : v.Conforms false depth) :
    ∀ s ∈ v.slots, s.2.Forall (Conforms depth) := by
  cases v with
  | list vs loc =>
    obtain ⟨k, rfl⟩ : ∃ k, depth = k + 1 :=
      Nat.exists_eq_add_of_le' (Nat.le_trans (Nat.le_add_left 1 _) h.2)
    simpa [Value.slots, PartSort.value, Conforms] using fun v hv =>
      (Value.list_conforms.1 h v hv).mono (Nat.le_succ k)
  | object fs loc =>
    obtain ⟨k, rfl⟩ : ∃ k, depth = k + 1 :=
      Nat.exists_eq_add_of_le' (Nat.le_trans (Nat.le_add_left 1 _) h.2)
    simpa [Value.slots, PartSort.objectField] using fun f hf =>
      ⟨(Value.object_conforms.1 h f hf).1, (Value.object_conforms.1 h f hf).2.mono (Nat.le_succ k)⟩
  | _ => simp [Value.slots, PartSort.name, Conforms]

private theorem conforms_of_mem_operation_slots {fields : List FieldDefinition → Prop}
    (owner : FieldOwner) (put : OperationDefinition → Node) {d : OperationDefinition}
    (h : d.Conforms fields depth)
    (hfields : ∀ ds, fields ds → ∀ f ∈ ds, ∃ admits, f.Conforms admits depth) :
    ∀ s ∈ d.slots owner put, s.2.Forall (Conforms depth) := by
  obtain ⟨text, n, as, ds, result, loc⟩ := d
  have harguments := h.arguments
  have hdirectives := h.directives
  have hresult := h.result
  cases result with
  | type t =>
    simpa [OperationDefinition.slots, OperationResult.slot, PartSort.name, PartSort.inputValue,
      PartSort.directive, PartSort.type, Conforms] using ⟨harguments, hdirectives⟩
  | fields fs =>
    simpa [OperationDefinition.slots, OperationResult.slot, PartSort.name, PartSort.inputValue,
      PartSort.directive, PartSort.field, Conforms]
      using ⟨harguments, hdirectives, hfields fs hresult⟩

private theorem conforms_of_mem_definition_slots {d : Definition} (h : d.Conforms depth) :
    ∀ s ∈ d.slots, s.2.Forall (Conforms depth) := by
  cases d with
  | scalar d =>
    simpa [Definition.slots, PartSort.name, PartSort.directive, Conforms] using h.directives
  | object d =>
    simpa [Definition.slots, PartSort.name, PartSort.namedType, PartSort.directive,
      PartSort.field, Conforms]
      using ⟨h.directives, fun f hf => ⟨_, h.fields f hf⟩⟩
  | interface d =>
    simpa [Definition.slots, PartSort.name, PartSort.directive, PartSort.field, Conforms]
      using ⟨h.directives, fun f hf => ⟨_, h.fields f hf⟩⟩
  | union d =>
    simpa [Definition.slots, PartSort.name, PartSort.directive, PartSort.namedType, Conforms] using
      h.directives
  | enum d =>
    simpa [Definition.slots, PartSort.name, PartSort.directive, PartSort.enumValue, Conforms]
      using ⟨h.directives, h.values⟩
  | inputObject d =>
    simpa [Definition.slots, PartSort.name, PartSort.directive, PartSort.inputValue, Conforms]
      using ⟨h.directives, h.fields⟩
  | typeExtension d =>
    have hobject : (Definition.object d.definition).Conforms depth := h.definition
    simpa [Definition.slots, PartSort.objectType, Conforms] using hobject
  | directive d =>
    simpa [Definition.slots, PartSort.name, PartSort.inputValue, Conforms] using h.arguments
  | mutation d =>
    exact conforms_of_mem_operation_slots .mutation (fun d => .definition (.mutation d)) h
      fun ds hds f hf => ⟨_, hds f hf⟩
  | query d =>
    exact conforms_of_mem_operation_slots .query (fun d => .definition (.query d)) h
      fun ds hds f hf => ⟨_, hds.2 f hf⟩
  | filter d =>
    simpa [Definition.slots, PartSort.type, PartSort.condition, Conforms] using h.conditions
  | order d =>
    simpa [Definition.slots, PartSort.type, PartSort.ordering, Conforms] using h.expressions

/-- The parts of what conforms conform. -/
theorem conforms_of_mem_slots {n : Node} (h : n.Conforms depth) :
    ∀ s ∈ n.slots, s.2.Forall (Conforms depth) := by
  cases n with
  | name n => simp [slots]
  | document d => simpa [slots, PartSort.definition, Conforms] using h.definitions
  | value v => exact conforms_of_mem_value_slots h
  | objectField f => simpa [slots, PartSort.name, PartSort.value, Conforms] using h.2
  | argument a => simpa [slots, PartSort.name, PartSort.value, Conforms] using h.2
  | directive d => simpa [slots, PartSort.name, PartSort.argument, Conforms] using h.2
  | type t =>
    cases t <;>
      simp [slots, TypeRef.slots, PartSort.name, PartSort.type, PartSort.namedType,
        PartSort.connection, Conforms]
  | inputValue d =>
    simpa [slots, PartSort.name, PartSort.type, PartSort.value, PartSort.directive, Conforms]
      using ⟨fun v hv => (h.defaultValue v hv).anywhere, h.directives⟩
  | field owner d =>
    obtain ⟨admits, h⟩ := h
    simpa [slots, PartSort.name, PartSort.type, PartSort.inputValue, PartSort.directive, Conforms]
      using ⟨h.arguments, h.directives⟩
  | enumValue d => simpa [slots, PartSort.name, PartSort.directive, Conforms] using h.directives
  | definition d => exact conforms_of_mem_definition_slots h
  | condition c =>
    simpa [slots, PartSort.enumValue, PartSort.inputValue, PartSort.object, Conforms]
      using ⟨h.key, h.arguments, h.condition⟩
  | ordering e =>
    simpa [slots, PartSort.enumValue, PartSort.object, Conforms] using ⟨h.key, h.expression⟩

/-- Every node within a node that conforms does. -/
theorem Conforms.within {root n : Node} (hroot : root.Conforms depth) (h : root.Within n) :
    n.Conforms depth :=
  h.induct hroot fun _ => conforms_of_mem_slots

end Node

end SchemaLang
