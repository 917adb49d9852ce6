import SchemaLang.Proofs.Traversal.Steps

/-!
# What the slots of a kind admit

Which nodes a slot admits, and whether it can be left empty, hangs on nothing but the kind of the
node it belongs to, its key, and the kind of the node that is to stand in it. `Kind.admission?` is
the table of that, with one row for each key of each kind; the slots of every node keep to it.
-/

namespace SchemaLang

/-- How many parts a slot is for, and of which kinds. -/
structure Admission where
  arity : Arity
  kinds : List Kind

namespace Kind

/-- The kinds of values. -/
def values : List Kind :=
  [.var, .intValue, .floatValue, .stringValue, .booleanValue, .enumValue, .listValue, .objectValue]

/-- The kinds of type references. -/
def types : List Kind :=
  [.namedType, .listType, .nonNullType, .connectionType, .connectionJoinType, .edgeType]

/-- The kinds of definitions. -/
def definitions : List Kind :=
  [.scalarTypeDefinition, .objectTypeDefinition, .interfaceTypeDefinition, .unionTypeDefinition,
    .enumTypeDefinition,
   .inputObjectTypeDefinition, .typeExtensionDefinition, .directiveDefinition, .mutationDefinition,
   .queryDefinition, .filterDefinition, .orderDefinition]

/-- What may stand at a key in nodes of a kind, if anything may. -/
def admission? : Kind → Key → Option Admission
  | .document, .definitions => some ⟨.list, definitions⟩
  | .var, .name => some ⟨.required, [.name]⟩
  | .argument, .name => some ⟨.required, [.name]⟩
  | .argument, .value => some ⟨.required, values⟩
  | .listValue, .values => some ⟨.list, values⟩
  | .objectValue, .fields => some ⟨.list, [.objectField]⟩
  | .objectField, .name => some ⟨.required, [.name]⟩
  | .objectField, .value => some ⟨.required, values⟩
  | .directive, .name => some ⟨.required, [.name]⟩
  | .directive, .arguments => some ⟨.list, [.argument]⟩
  | .namedType, .name => some ⟨.required, [.name]⟩
  | .listType, .type => some ⟨.required, types⟩
  | .nonNullType, .type => some ⟨.required, types⟩
  | .connectionType, .edgeLabel => some ⟨.optional, [.namedType]⟩
  | .connectionType, .type => some ⟨.required, [.namedType]⟩
  | .connectionJoinType, .connections => some ⟨.list, [.connectionType]⟩
  | .edgeType, .edgeLabel => some ⟨.optional, [.namedType]⟩
  | .edgeType, .type => some ⟨.required, [.namedType]⟩
  | .scalarTypeDefinition, .name => some ⟨.required, [.name]⟩
  | .scalarTypeDefinition, .directives => some ⟨.list, [.directive]⟩
  | .objectTypeDefinition, .name => some ⟨.required, [.name]⟩
  | .objectTypeDefinition, .interfaces => some ⟨.list, [.namedType]⟩
  | .objectTypeDefinition, .directives => some ⟨.list, [.directive]⟩
  | .objectTypeDefinition, .fields => some ⟨.list, [.fieldDefinition]⟩
  | .fieldDefinition, .name => some ⟨.required, [.name]⟩
  | .fieldDefinition, .arguments => some ⟨.list, [.inputValueDefinition]⟩
  | .fieldDefinition, .type => some ⟨.required, types⟩
  | .fieldDefinition, .directives => some ⟨.list, [.directive]⟩
  | .inputValueDefinition, .name => some ⟨.required, [.name]⟩
  | .inputValueDefinition, .type => some ⟨.required, types⟩
  | .inputValueDefinition, .defaultValue => some ⟨.optional, values⟩
  | .inputValueDefinition, .directives => some ⟨.list, [.directive]⟩
  | .interfaceTypeDefinition, .name => some ⟨.required, [.name]⟩
  | .interfaceTypeDefinition, .directives => some ⟨.list, [.directive]⟩
  | .interfaceTypeDefinition, .fields => some ⟨.list, [.fieldDefinition]⟩
  | .unionTypeDefinition, .name => some ⟨.required, [.name]⟩
  | .unionTypeDefinition, .directives => some ⟨.list, [.directive]⟩
  | .unionTypeDefinition, .types => some ⟨.list, [.namedType]⟩
  | .enumTypeDefinition, .name => some ⟨.required, [.name]⟩
  | .enumTypeDefinition, .directives => some ⟨.list, [.directive]⟩
  | .enumTypeDefinition, .values => some ⟨.list, [.enumValueDefinition]⟩
  | .enumValueDefinition, .name => some ⟨.required, [.name]⟩
  | .enumValueDefinition, .directives => some ⟨.list, [.directive]⟩
  | .inputObjectTypeDefinition, .name => some ⟨.required, [.name]⟩
  | .inputObjectTypeDefinition, .directives => some ⟨.list, [.directive]⟩
  | .inputObjectTypeDefinition, .fields => some ⟨.list, [.inputValueDefinition]⟩
  | .typeExtensionDefinition, .definition => some ⟨.required, [.objectTypeDefinition]⟩
  | .directiveDefinition, .name => some ⟨.required, [.name]⟩
  | .directiveDefinition, .arguments => some ⟨.list, [.inputValueDefinition]⟩
  | .directiveDefinition, .locations => some ⟨.list, [.name]⟩
  | .mutationDefinition, .name => some ⟨.required, [.name]⟩
  | .mutationDefinition, .arguments => some ⟨.list, [.inputValueDefinition]⟩
  | .mutationDefinition, .directives => some ⟨.list, [.directive]⟩
  | .mutationDefinition, .type => some ⟨.required, types⟩
  | .mutationDefinition, .fields => some ⟨.list, [.mutationFieldDefinition]⟩
  | .mutationFieldDefinition, .name => some ⟨.required, [.name]⟩
  | .mutationFieldDefinition, .arguments => some ⟨.list, [.inputValueDefinition]⟩
  | .mutationFieldDefinition, .type => some ⟨.required, types⟩
  | .mutationFieldDefinition, .directives => some ⟨.list, [.directive]⟩
  | .queryDefinition, .name => some ⟨.required, [.name]⟩
  | .queryDefinition, .arguments => some ⟨.list, [.inputValueDefinition]⟩
  | .queryDefinition, .directives => some ⟨.list, [.directive]⟩
  | .queryDefinition, .type => some ⟨.required, types⟩
  | .queryDefinition, .fields => some ⟨.list, [.queryFieldDefinition]⟩
  | .queryFieldDefinition, .name => some ⟨.required, [.name]⟩
  | .queryFieldDefinition, .arguments => some ⟨.list, [.inputValueDefinition]⟩
  | .queryFieldDefinition, .type => some ⟨.required, types⟩
  | .queryFieldDefinition, .directives => some ⟨.list, [.directive]⟩
  | .filterDefinition, .type => some ⟨.required, types⟩
  | .filterDefinition, .conditions => some ⟨.list, [.filterCondition]⟩
  | .filterCondition, .key => some ⟨.required, [.enumValueDefinition]⟩
  | .filterCondition, .arguments => some ⟨.list, [.inputValueDefinition]⟩
  | .filterCondition, .condition => some ⟨.required, [.objectValue]⟩
  | .orderDefinition, .type => some ⟨.required, types⟩
  | .orderDefinition, .expressions => some ⟨.list, [.orderExpression]⟩
  | .orderExpression, .key => some ⟨.required, [.enumValueDefinition]⟩
  | .orderExpression, .expression => some ⟨.list, [.objectValue]⟩
  | _, _ => none

end Kind

/-- The parts of this sort are the nodes of these kinds. -/
inductive PartSort.OfKinds : {α : Type} → PartSort α → List Kind → Prop
  | name : OfKinds .name [.name]
  | value : OfKinds .value Kind.values
  | object : OfKinds .object [.objectValue]
  | objectField : OfKinds .objectField [.objectField]
  | argument : OfKinds .argument [.argument]
  | directive : OfKinds .directive [.directive]
  | type : OfKinds .type Kind.types
  | namedType : OfKinds .namedType [.namedType]
  | connection : OfKinds .connection [.connectionType]
  | inputValue : OfKinds .inputValue [.inputValueDefinition]
  | field (owner : FieldOwner) : OfKinds (.field owner) [owner.kind]
  | enumValue : OfKinds .enumValue [.enumValueDefinition]
  | definition : OfKinds .definition Kind.definitions
  | objectType : OfKinds .objectType [.objectTypeDefinition]
  | condition : OfKinds .condition [.filterCondition]
  | ordering : OfKinds .ordering [.orderExpression]

private theorem PartSort.OfKinds.isSome_part? {α : Type} {s : PartSort α} {kinds : List Kind}
    (h : s.OfKinds kinds) (n : Node) : (s.part? n).isSome = decide (n.kind ∈ kinds) := by
  cases h with
  | field owner =>
    cases n with
    | value v => cases owner <;> cases v <;> rfl
    | type t => cases owner <;> cases t <;> rfl
    | field owner' d => cases owner <;> cases owner' <;> rfl
    | definition d => cases owner <;> cases d <;> rfl
    | _ x => cases owner <;> rfl
  | _ =>
    cases n with
    | value v => cases v <;> rfl
    | type t => cases t <;> rfl
    | field owner d => cases owner <;> rfl
    | definition d => cases d <;> rfl
    | _ x => rfl

/-- The slot is for as many parts as the table says, and for those of the same kinds. -/
def Kind.Governs (kind : Kind) (k : Key) (slot : Slot) : Prop :=
  ∃ kinds, kind.admission? k = some ⟨slot.arity, kinds⟩ ∧
    ∀ n, slot.admits n = decide (n.kind ∈ kinds)

namespace Kind

variable {α : Type} {sort : PartSort α} {kinds : List Kind} {kind : Kind} {k : Key}
  (h : sort.OfKinds kinds)

include h

private theorem governs_required (row : kind.admission? k = some ⟨.required, kinds⟩) (a : α)
    (put : α → Node) : kind.Governs k (.required sort a put) := ⟨kinds, row, h.isSome_part?⟩

private theorem governs_optional (row : kind.admission? k = some ⟨.optional, kinds⟩) (a? : Option α)
    (put : Option α → Node) : kind.Governs k (.optional sort a? put) := ⟨kinds, row, h.isSome_part?⟩

private theorem governs_list (row : kind.admission? k = some ⟨.list, kinds⟩) (as : List α)
    (put : List α → Node) : kind.Governs k (.list sort as put) := ⟨kinds, row, h.isSome_part?⟩

end Kind

namespace Node

/-- The slots of a node keep to the table. -/
theorem governs_of_mem_slots {n : Node} {s : Key × Slot} (h : s ∈ n.slots) :
    n.kind.Governs s.1 s.2 := by
  cases n with
  | name => nomatch h
  | value v =>
    cases v <;> simp only [slots, Value.slots, List.mem_cons, List.not_mem_nil, or_false] at h <;>
      subst h <;>
      first
        | exact Kind.governs_required (by constructor) rfl _ _
        | exact Kind.governs_list (by constructor) rfl _ _
  | type t =>
    cases t <;> simp only [slots, TypeRef.slots, List.mem_cons, List.not_mem_nil, or_false] at h <;>
      rcases h with rfl | rfl <;>
      first
        | exact Kind.governs_required (by constructor) rfl _ _
        | exact Kind.governs_optional (by constructor) rfl _ _
        | exact Kind.governs_list (by constructor) rfl _ _
  | field owner d =>
    simp only [slots, List.mem_cons, List.not_mem_nil, or_false] at h
    cases owner <;> rcases h with rfl | rfl | rfl | rfl <;>
      first
        | exact Kind.governs_required (by constructor) rfl _ _
        | exact Kind.governs_list (by constructor) rfl _ _
  | definition d =>
    cases d using Definition.byResult <;>
      simp only [slots, Definition.slots, OperationDefinition.slots,
        OperationResult.slot, List.mem_cons, List.not_mem_nil, or_false] at h <;>
      rcases h with rfl | rfl | rfl | rfl <;>
      first
        | exact Kind.governs_required (by constructor) rfl _ _
        | exact Kind.governs_list (by constructor) rfl _ _
  | _ x =>
    simp only [slots, List.mem_cons, List.not_mem_nil, or_false] at h
    rcases h with rfl | rfl | rfl | rfl <;>
      first
        | exact Kind.governs_required (by constructor) rfl _ _
        | exact Kind.governs_optional (by constructor) rfl _ _
        | exact Kind.governs_list (by constructor) rfl _ _

private theorem governs_of_slot? {n : Node} {k : Key} {slot : Slot} (h : n.slot? k = some slot) :
    n.kind.Governs k slot :=
  governs_of_mem_slots (mem_slots_of_slot? h)

end Node

namespace Kind

/-- Nodes of the kind have to have a part at the key. -/
def requires (parent : Kind) (k : Key) :
    Bool := (parent.admission? k).any fun a => a.arity = .required

/-- Nodes of the kind may have a part of kind `found` at the key. -/
def admits (parent : Kind) (k : Key) (found : Kind) : Bool :=
  (parent.admission? k).any fun a => found ∈ a.kinds

/-- The error of a walk in which this is left of a part: nothing, or a node of some kind. -/
def objection? (parent : Kind) (k : Key) : Option Kind → Option VisitError
  | none => if parent.requires k then some (.requiredChildRemoved parent k) else none
  | some found =>
    if parent.admits k found then none else some (.mismatchedReplacement parent k found)

variable {n : Node} {k : Key} {slot : Slot}

private theorem requires_of_slot? (h : n.slot? k = some slot) :
    n.kind.requires k = decide (slot.arity = .required) := by
  obtain ⟨kinds, row, -⟩ := Node.governs_of_slot? h
  simp [requires, row]

private theorem admits_of_slot? (h : n.slot? k = some slot) (m : Node) :
    n.kind.admits k m.kind = slot.admits m := by
  obtain ⟨kinds, row, admits⟩ := Node.governs_of_slot? h
  simp [Kind.admits, row, admits]

end Kind

namespace Walk

variable {σ : Type} {n : Node} {k : Key} {slot : Slot}

/-- The walk goes on with what is left of a part unless the table objects to it. -/
theorem settle_eq (h : n.slot? k = some slot) (n? : Option Node) (p : Progress σ) :
    settle n.kind k slot n? p =
      match n.kind.objection? k (n?.map Node.kind) with
      | none => (.ok n?, p)
      | some e => (.error e, p) := by
  cases n? with
  | some m =>
    simp only [settle, Option.map_some, Kind.objection?, Kind.admits_of_slot? h]
    cases slot.admits m <;> rfl
  | none =>
    simp only [settle, Option.map_none, Kind.objection?, Kind.requires_of_slot? h]
    cases slot.arity <;> rfl

theorem settle_eq_error (h : n.slot? k = some slot) {n? : Option Node} {p p' : Progress σ}
    {e : VisitError} (hsettle : settle n.kind k slot n? p = (.error e, p')) :
    n.kind.objection? k (n?.map Node.kind) = some e ∧ p' = p := by
  rw [settle_eq h] at hsettle
  cases ho : n.kind.objection? k (n?.map Node.kind) with
  | none => rw [ho] at hsettle; cases hsettle
  | some f => rw [ho] at hsettle; cases hsettle; exact ⟨rfl, rfl⟩

theorem objection?_eq_none_iff (h : n.slot? k = some slot) (n? : Option Node) :
    n.kind.objection? k (n?.map Node.kind) = none ↔ slot.Takes n? := by
  cases n? with
  | some m => simp [Kind.objection?, Kind.admits_of_slot? h, Slot.Takes]
  | none => simp [Kind.objection?, Kind.requires_of_slot? h, Slot.Takes]

end Walk

end SchemaLang
