import SchemaLang.Traversal.Slot

/-!
# Height

The parts of a node are smaller than the node, so that what holds of a node if it holds of
its parts holds of every node. The height of a node is the most nodes that can be open at
once in a walk of it.
-/

namespace SchemaLang

private theorem ObjectValue.sizeOf_toValue (o : ObjectValue) : sizeOf o.toValue = sizeOf o := by
  cases o
  simp [ObjectValue.toValue]

namespace Node

/-- Every part of a node is smaller than the node. -/
theorem sizeOf_lt_of_mem_children {n c : Node} (h : c ∈ n.children) : sizeOf c < sizeOf n := by
  have mem {α : Type} [SizeOf α] {a : α} {as : List α} (h : a ∈ as) := List.sizeOf_lt_of_mem h
  cases n with
  | value v =>
    cases v <;>
      simp [children, slots, Value.slots, Slot.required, Slot.list, PartSort.name, PartSort.value,
        PartSort.objectField] at h <;>
      grind
  | type t =>
    rcases t with t | t | t | t | t | t <;> cases t <;>
      simp [children, slots, TypeRef.slots, Slot.required, Slot.optional, Slot.list,
        PartSort.name, PartSort.type, PartSort.namedType, PartSort.connection] at h <;>
      grind
  | definition d =>
    rcases d with d | d | d | d | d | d | d | d | ⟨_, _, _, _, r, _⟩ | ⟨_, _, _, _,
      r, _⟩ | d | d <;>
      (first | cases d | cases r) <;>
      simp [children, slots, Definition.slots, OperationDefinition.slots,
        OperationResult.slot, Slot.required, Slot.list, PartSort.name, PartSort.type,
        PartSort.namedType, PartSort.directive, PartSort.inputValue, PartSort.field,
        PartSort.enumValue, PartSort.objectType, PartSort.condition, PartSort.ordering] at h <;>
      grind
  | field owner d =>
    cases d
    simp [children, slots, Slot.required, Slot.list, PartSort.name,
      PartSort.directive, PartSort.type, PartSort.inputValue] at h
    grind
  | _ x =>
    cases x
    simp [children, slots, Slot.required, Slot.optional, Slot.list, PartSort.name, PartSort.value,
      PartSort.argument, PartSort.directive, PartSort.type, PartSort.inputValue, PartSort.enumValue,
      PartSort.definition, PartSort.object] at h <;>
    grind [ObjectValue.sizeOf_toValue]

/-- What holds of a node if it holds of its parts holds of every node. -/
theorem inductParts {P : Node → Prop} (step : ∀ n, (∀ c ∈ n.children, P c) → P n)
    (n : Node) : P n :=
  step n fun c _ => inductParts step c
termination_by sizeOf n
decreasing_by exact sizeOf_lt_of_mem_children ‹_›

/-- One more than the greatest height among the parts. -/
def height (n : Node) : Nat :=
  (n.children.attach.map fun c => height c.1).foldr max 0 + 1
termination_by sizeOf n
decreasing_by exact sizeOf_lt_of_mem_children c.2

theorem height_eq (n : Node) : n.height = (n.children.map height).foldr max 0 + 1 := by
  rw [height, List.attach_map_val]

theorem height_pos (n : Node) : 0 < n.height := by
  rw [height_eq]
  omega

/-- Every part of a node is less high than the node. -/
theorem height_lt_of_mem_children {n c : Node} (h : c ∈ n.children) : c.height < n.height := by
  have le_foldr : ∀ {ns : List Node}, c ∈ ns → c.height ≤ (ns.map height).foldr max 0 := by
    intro ns hc
    induction ns with
    | nil => simp at hc
    | cons m ms ih =>
      simp only [List.map_cons, List.foldr_cons]
      rcases List.mem_cons.1 hc with rfl | hc
      · exact Nat.le_max_left ..
      · exact Nat.le_trans (ih hc) (Nat.le_max_right ..)
  rw [height_eq n]
  exact Nat.lt_succ_of_le (le_foldr h)

end Node

end SchemaLang
