import SchemaLang.Proofs.Arrows.Places
import SchemaLang.Proofs.Slices.Parts

/-!
# Types with arrows in documents

A document has types in the places that admit arrows as the types of its fields and as what
its filters and orders are on. In a document that conforms, all of them are types that
their place admits.
-/

namespace SchemaLang

/-- The type that a node has in a place where types may have arrows. -/
def Node.typeAt? : Node → ArrowPlace → Option TypeRef
  | .field .type f, .field => some f.type
  | .field .mutation f, .mutationField => some f.type
  | .definition (.filter d), .target => some d.type
  | .definition (.order d), .target => some d.type
  | _, _ => none

/-- The document has the type in the place, at any depth. -/
def Document.HasTypeAt (d : Document) (place : ArrowPlace) (t : TypeRef) : Prop :=
  ∃ n, (Node.document d).Within n ∧ n.typeAt? place = some t

namespace Node

variable {depth : Nat} {n : Node} {place : ArrowPlace} {t : TypeRef} {d : Document}

/-- The type in a place is a part of the node. -/
theorem mem_children_of_typeAt? (h : n.typeAt? place = some t) : .type t ∈ n.children := by
  unfold typeAt? at h
  split at h
  case h_5 => exact nomatch h
  all_goals
    obtain rfl := Option.some.inj h
    simp [children, slots, Definition.slots, Slot.required, PartSort.type]

/-- What the contract says of a field, which depends on what it belongs to, and of
what has fields. -/
def ConformsToOwner (depth : Nat) : Node → Prop
  | .document d => d.Conforms depth
  | .definition d => d.Conforms depth
  | .field .type f => f.Conforms (TypeRef.IsOrNonNull TypeRef.IsFieldBase) depth
  | .field .mutation f => f.Conforms (TypeRef.IsOrNonNull TypeRef.IsMutationFieldBase) depth
  | _ => True

private theorem conformsToOwner_of_mem_slots (h : n.ConformsToOwner depth) :
    ∀ s ∈ n.slots, s.2.Forall (ConformsToOwner depth) := by
  cases n with
  | document d => simpa [slots, PartSort.definition, ConformsToOwner] using h.definitions
  | definition d =>
    cases d with
    | object d =>
      simpa [slots, Definition.slots, PartSort.name, PartSort.namedType,
        PartSort.directive, PartSort.field, ConformsToOwner] using h.fields
    | interface d =>
      simpa [slots, Definition.slots, PartSort.name, PartSort.directive, PartSort.field,
        ConformsToOwner] using h.fields
    | typeExtension d =>
      have hobject : (Definition.object d.definition).Conforms depth := h.definition
      simpa [slots, Definition.slots, PartSort.objectType, ConformsToOwner] using hobject
    | mutation d =>
      have hresult := h.result
      obtain ⟨text, n, as, ds, result, loc⟩ := d
      cases result with
      | type t =>
        simp [slots, Definition.slots, OperationDefinition.slots,
          OperationResult.slot, PartSort.name, PartSort.inputValue, PartSort.directive,
          PartSort.type, ConformsToOwner]
      | fields fs =>
        have fields : ∀ f ∈
          fs, f.Conforms (TypeRef.IsOrNonNull TypeRef.IsMutationFieldBase) depth := hresult
        simpa [slots, Definition.slots, OperationDefinition.slots,
          OperationResult.slot, PartSort.name, PartSort.inputValue, PartSort.directive,
          PartSort.field, ConformsToOwner] using fields
    | query d =>
      obtain ⟨text, n, as, ds, result, loc⟩ := d
      cases result <;>
        simp [slots, Definition.slots, OperationDefinition.slots,
          OperationResult.slot, PartSort.name, PartSort.inputValue, PartSort.directive,
          PartSort.type, PartSort.field, ConformsToOwner]
    | _ d =>
      simp [slots, Definition.slots, PartSort.name, PartSort.namedType, PartSort.directive,
        PartSort.enumValue, PartSort.inputValue, PartSort.type, PartSort.condition,
        PartSort.ordering, ConformsToOwner]
  | value v =>
    cases v <;> simp [slots, Value.slots, PartSort.name, PartSort.value, PartSort.objectField,
      ConformsToOwner]
  | type t =>
    cases t <;>
      simp [slots, TypeRef.slots, PartSort.name, PartSort.type, PartSort.namedType,
        PartSort.connection, ConformsToOwner]
  | _ x =>
    simp [slots, PartSort.name, PartSort.value, PartSort.argument,
      PartSort.directive, PartSort.type, PartSort.inputValue, PartSort.enumValue, PartSort.object,
      ConformsToOwner]

theorem ConformsToOwner.admits (h : n.ConformsToOwner depth) (ht : n.typeAt? place = some t) :
    place.admits t := by
  unfold typeAt? at ht
  split at ht
  case h_5 => exact nomatch ht
  all_goals
    obtain rfl := Option.some.inj ht
    exact h.type.1

end Node

namespace Document.HasTypeAt

variable {depth : Nat} {d : Document} {place : ArrowPlace} {t : TypeRef}

theorem within (h : d.HasTypeAt place t) : (Node.document d).Within (.type t) := by
  obtain ⟨n, hn, ht⟩ := h
  exact hn.child (Node.mem_children_of_typeAt? ht)

/-- In a document that conforms, a place has the types that it admits. -/
theorem admits (h : d.HasTypeAt place t) (conforms : d.Conforms depth) : place.admits t := by
  obtain ⟨n, hn, ht⟩ := h
  exact (hn.induct (P := Node.ConformsToOwner depth) conforms fun _ =>
    Node.conformsToOwner_of_mem_slots).admits ht

/-- The form of the document holds the form of the type. -/
theorem hasPart (h : d.HasTypeAt place t) : d.form.HasPart t.form := by
  obtain ⟨_, rfl, part⟩ :=
    h.within.hasNode (rfl : (Node.document d).IsWrittenAs d.form) (fun heq => nomatch heq)
  exact part

end Document.HasTypeAt

end SchemaLang
