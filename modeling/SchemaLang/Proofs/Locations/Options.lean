import SchemaLang.Proofs.Locations.Parse
import SchemaLang.Proofs.Traversal.Within

/-!
# What is wanted of a parse

Locations, and sources in them, can be wanted or not. Either way a source is parsed the same: the
answer is that of the parse that keeps everything, with what is not wanted taken off every node, and
a fault is the same fault.
-/

namespace SchemaLang

namespace Node

variable (f : Loc → Option Loc)

private theorem loc_mapLoc (n : Node) : (n.mapLoc f).loc = n.loc.bind f := by
  cases n with
  | value v => cases v <;> rfl
  | type t => cases t <;> rfl
  | definition d => cases d <;> rfl
  | _ x => rfl

private theorem children_definition_mapLoc (d : Definition) :
    (Node.definition (d.mapLoc f)).children = (Node.definition d).children.map (·.mapLoc f) := by
  cases d using Definition.byResult <;>
    simp [children, slots, Definition.slots, OperationDefinition.slots, OperationResult.slot,
      Slot.required, Slot.list, PartSort.name, PartSort.type, PartSort.namedType,
      PartSort.directive, PartSort.inputValue, PartSort.field, PartSort.enumValue,
      PartSort.objectType, PartSort.condition, PartSort.ordering, mapLoc, Definition.mapLoc,
      TypeRef.mapLoc, ScalarTypeDefinition.mapLoc, ObjectTypeDefinition.mapLoc,
      InterfaceTypeDefinition.mapLoc, UnionTypeDefinition.mapLoc, EnumTypeDefinition.mapLoc,
      InputObjectTypeDefinition.mapLoc, TypeExtensionDefinition.mapLoc, DirectiveDefinition.mapLoc,
      OperationDefinition.mapLoc, OperationResult.mapLoc, FilterDefinition.mapLoc,
      OrderDefinition.mapLoc, Function.comp_def]

/-- Changing locations changes those of the parts as well, and neither what the parts are
nor their order. -/
theorem children_mapLoc (n : Node) : (n.mapLoc f).children = n.children.map (·.mapLoc f) := by
  cases n with
  | value v =>
    cases v <;>
      simp [children, slots, Value.slots, Slot.required, Slot.list, PartSort.name, PartSort.value,
        PartSort.objectField, mapLoc, Value.mapLoc, Value.mapLocValues_eq_map,
        Value.mapLocFields_eq_map, Function.comp_def]
  | type t =>
    cases t <;>
      simp [children, slots, TypeRef.slots, Slot.required, Slot.optional, Slot.list,
        PartSort.name, PartSort.type, PartSort.namedType, PartSort.connection, mapLoc,
        TypeRef.mapLoc, NamedType.mapLoc, ConnectionType.mapLoc, ConnectionJoinType.mapLoc,
        EdgeType.mapLoc, Function.comp_def, Option.toList_map]
  | definition d => exact children_definition_mapLoc f d
  | _ x =>
    simp [children, slots, Slot.required, Slot.optional, Slot.list, PartSort.name, PartSort.value,
      PartSort.argument, PartSort.directive, PartSort.type, PartSort.inputValue, PartSort.enumValue,
      PartSort.definition, PartSort.object, mapLoc, Document.mapLoc, ObjectFieldOf.mapLoc,
      Argument.mapLoc, Directive.mapLoc, InputValueDefinition.mapLoc, FieldDefinition.mapLoc,
      EnumValueDefinition.mapLoc, FilterCondition.mapLoc, OrderExpression.mapLoc,
      ObjectValue.toValue_mapLoc, Function.comp_def, Option.toList_map]

/-- Every node within a tree whose locations were changed is a node of the tree before, with its
locations changed. -/
theorem Within.exists_of_mapLoc {f : Loc → Option Loc} {root n : Node}
    (h : (root.mapLoc f).Within n) : ∃ m, root.Within m ∧ n = m.mapLoc f := by
  induction h with
  | refl => exact ⟨root, .refl, rfl⟩
  | @child _ c _ hc ih =>
    obtain ⟨m, hm, rfl⟩ := ih
    rw [children_mapLoc] at hc
    obtain ⟨p, hp, rfl⟩ := List.mem_map.1 hc
    exact ⟨p, hm.child hp, rfl⟩

end Node

/-- What is kept of a location that holds its source. -/
def ParseOptions.keep (o : ParseOptions) (l : Loc) : Option Loc :=
  if o.noLocation then none else some (if o.noSource then l.withoutSource else l)

/-- A location is made by taking what is not wanted off the location that holds everything. -/
theorem ParseOptions.locate_eq (o : ParseOptions) (s : Source) (start stop : Nat) :
    o.locate s start stop =
      (ParseOptions.locate ⟨false, false, o.maxDepth⟩ s start stop).bind o.keep := by
  cases hl : o.noLocation <;> cases hs : o.noSource <;>
    simp [locate, keep, hl, hs, Loc.withoutSource]

/-- What is wanted of a parse has no part in it but for the locations of its answer, whose nodes are
reached by `node` and moved by `mapLoc`: without locations it is the answer of the parse that keeps
everything with every location taken off, without sources the same answer with every source taken
off, and all parses fail alike or none does. -/
structure Orthogonal {α : Type} (parse : ParseOptions → Except SyntaxError α)
    (mapLoc : (Loc → Option Loc) → α → α) (node : α → Node) (depth : Nat) : Prop where
  withoutLocations : ∀ noSource,
    parse ⟨true, noSource, depth⟩ = (parse ⟨false, false, depth⟩).map (mapLoc fun _ => none)
  withoutSources : parse ⟨false, true, depth⟩ =
    (parse ⟨false, false, depth⟩).map (mapLoc fun l => some l.withoutSource)
  unlocated : ∀ noSource a, parse ⟨true, noSource, depth⟩ = .ok a →
    ∀ n, (node a).Within n → n.loc = none
  unsourced : ∀ a, parse ⟨false, true, depth⟩ = .ok a → ∀ n, (node a).Within n →
    ∀ l ∈ n.loc, l.source = none
  fault : ∀ o o' : ParseOptions, o.maxDepth = depth → o'.maxDepth = depth →
    ∀ e, parse o = .error e ↔ parse o' = .error e

/-- An answer that had its locations changed has nodes that had theirs changed. -/
theorem exists_of_map_eq_ok {α : Type} {r : Except SyntaxError α}
    {mapLoc : (Loc → Option Loc) → α → α} {node : α → Node}
    (hnode : ∀ f a, node (mapLoc f a) = (node a).mapLoc f) {f : Loc → Option Loc} {a : α} {n : Node}
    (h : r.map (mapLoc f) = .ok a) (hn : (node a).Within n) : ∃ m : Node, n.loc = m.loc.bind f := by
  cases r with
  | error e => cases h
  | ok b =>
    obtain rfl : mapLoc f b = a := Except.ok.inj h
    rw [hnode] at hn
    obtain ⟨m, -, rfl⟩ := hn.exists_of_mapLoc
    exact ⟨m, m.loc_mapLoc f⟩

/-- A parse that follows the locations it is given is orthogonal to what is wanted of it. -/
theorem orthogonal_of_relocate {α : Type} {parse : ParseOptions → Except SyntaxError α}
    {mapLoc : (Loc → Option Loc) → α → α} {node : α → Node} (depth : Nat)
    (hparse : ∀ o : ParseOptions, parse o = (parse ⟨false, false, o.maxDepth⟩).map (mapLoc o.keep))
    (hnode : ∀ f a, node (mapLoc f a) = (node a).mapLoc f) :
    Orthogonal parse mapLoc node depth where
  withoutLocations noSource := hparse ⟨true, noSource, depth⟩
  withoutSources := hparse ⟨false, true, depth⟩
  unlocated noSource a ha n hn := by
    rw [hparse] at ha
    obtain ⟨m, hm⟩ := exists_of_map_eq_ok hnode ha hn
    exact hm.trans (Option.bind_fun_none _)
  unsourced a ha n hn l hl := by
    rw [hparse] at ha
    obtain ⟨m, hm⟩ := exists_of_map_eq_ok hnode ha hn
    rw [hm] at hl
    obtain ⟨k, -, hk⟩ := Option.bind_eq_some_iff.1 hl
    obtain rfl : k.withoutSource = l := Option.some.inj hk
    rfl
  fault o o' ho ho' e := by
    rw [hparse o, hparse o', ho, ho']
    cases parse ⟨false, false, depth⟩ with
    | error e' => rfl
    | ok a => exact ⟨nofun, nofun⟩

/-- Whether locations and sources are wanted has no part in how a source is parsed, be it a
document or a value. -/
theorem parse_orthogonal (s : Source) (depth : Nat) :
    Orthogonal (parseDocument s) (fun f d => d.mapLoc f) .document depth ∧
      Orthogonal (parseValue s) (fun f v => v.mapLoc f) .value depth := by
  constructor
  · exact orthogonal_of_relocate depth (fun o => parseDocument_relocate rfl rfl (o.locate_eq s))
      fun _ _ => rfl
  · exact orthogonal_of_relocate depth (fun o => parseValue_relocate rfl rfl (o.locate_eq s))
      fun _ _ => rfl

end SchemaLang
