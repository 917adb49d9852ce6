import Mathlib.Data.Set.List
import SchemaLang.Proofs.Traversal.Kept

/-!
# Filling a slot

A slot can be filled with nodes that it admits: with one if its part must be there, with at most one
if its part may be there, with any number if it is for a list. What comes of it is a node of the
same kind that has these nodes in the slot and what it had before in every other.
-/

namespace SchemaLang

/-- The sorts of the parts that nodes have. -/
inductive PartSort.Proper : {α : Type} → PartSort α → Prop
  | name : Proper .name
  | value : Proper .value
  | object : Proper .object
  | objectField : Proper .objectField
  | argument : Proper .argument
  | directive : Proper .directive
  | type : Proper .type
  | namedType : Proper .namedType
  | connection : Proper .connection
  | inputValue : Proper .inputValue
  | field (owner : FieldOwner) : Proper (.field owner)
  | enumValue : Proper .enumValue
  | definition : Proper .definition
  | objectType : Proper .objectType
  | condition : Proper .condition
  | ordering : Proper .ordering

attribute [simp] PartSort.Proper.name PartSort.Proper.value PartSort.Proper.object
  PartSort.Proper.objectField
  PartSort.Proper.argument PartSort.Proper.directive PartSort.Proper.type PartSort.Proper.namedType
  PartSort.Proper.connection PartSort.Proper.inputValue PartSort.Proper.field
    PartSort.Proper.enumValue
  PartSort.Proper.definition PartSort.Proper.objectType PartSort.Proper.condition
    PartSort.Proper.ordering

namespace Slot

/-- The forms that the slots of nodes have. -/
inductive Proper : Slot → Prop
  | required {α : Type} {s : PartSort α} (h : s.Proper) (a : α) (put : α → Node) :
    Proper (.required s a put)
  | optional {α : Type} {s : PartSort α} (h : s.Proper) (a? : Option α) (put : Option α → Node) :
    Proper (.optional s a? put)
  | list {α : Type} {s : PartSort α} (h : s.Proper) (as : List α) (put : List α → Node) :
    Proper (.list s as put)

attribute [simp] Proper.required Proper.optional Proper.list

/-- Nodes that a slot can be filled with. -/
structure Accepts (slot : Slot) (ns : List Node) : Prop where
  admits : ∀ n ∈ ns, slot.admits n = true
  required : slot.arity = .required → ∃ n, ns = [n]
  optional : slot.arity = .optional → ns.length ≤ 1

variable {α : Type} {s : PartSort α} {ns : List Node}

private theorem accepts_required (a b : α) (put : α → Node) :
    (Slot.required s a put).Accepts [s.node b] :=
  ⟨admitsChildren_required s b put, fun _ => ⟨s.node b, rfl⟩, nofun⟩

private theorem accepts_optional (a? b? : Option α) (put : Option α → Node) :
    (Slot.optional s a? put).Accepts (b?.toList.map s.node) :=
  ⟨admitsChildren_optional s b? put, nofun, fun _ => by cases b? <;> simp⟩

private theorem accepts_list (as bs : List α) (put : List α → Node) :
    (Slot.list s as put).Accepts (bs.map s.node) :=
  ⟨admitsChildren_list s bs put, nofun, nofun⟩

/-- A slot can be filled with what is in it. -/
theorem Proper.accepts_children {slot : Slot} (h : slot.Proper) : slot.Accepts slot.children := by
  cases h with
  | required _ a put => exact accepts_required a a put
  | optional _ a? put => exact accepts_optional a? a? put
  | list _ as put => exact accepts_list as as put

/-- Whatever a slot is filled with, it is as if it was filled with nodes that it accepts: it passes
over all others. -/
theorem Proper.exists_accepts {slot : Slot} (h : slot.Proper) (ns : List Node) :
    ∃ ns', slot.Accepts ns' ∧ slot.fill ns = slot.fill ns' := by
  cases h with
  | @required _ s _ a put =>
    exact ⟨_, accepts_required a ((ns.head?.bind s.part?).getD a) put, by simp [Slot.required]⟩
  | @optional _ s _ a? put =>
    exact ⟨_, accepts_optional a? (ns.head?.bind s.part?) put,
      (fill_children_optional s _ put).symm⟩
  | @list _ s _ as put =>
    exact ⟨_, accepts_list as (ns.filterMap s.part?) put, (fill_children_list s _ put).symm⟩

theorem exists_node_of_admits {n : Node} (h : (s.part? n).isSome = true) : ∃ a, n = s.node a := by
  obtain ⟨a, ha⟩ := Option.isSome_iff_exists.1 h
  exact ⟨a, (s.part?_eq_some_iff n a).1 ha⟩

/-- What a slot is apart from the node around it. -/
structure Content where
  arity : Arity
  admits : Node → Bool
  children : List Node

def content (slot : Slot) : Content := ⟨slot.arity, slot.admits, slot.children⟩

end Slot

namespace Node

/-- The keys of the slots of a node with what is in them. -/
def contents (n : Node) : List (Key × Slot.Content) := n.slots.map fun s => (s.1, s.2.content)

/-- A node `m` of the kind of `n` that has `ns` in the slot `k` and in every other slot what
`n` has there. -/
structure Refills (n : Node) (k : Key) (ns : List Node) (m : Node) : Prop where
  kind : m.kind = n.kind
  contents : m.contents = n.contents.map fun s =>
    if s.1 = k then (s.1, { s.2 with children := ns }) else s

section

variable {α : Type} {sort : PartSort α} {n : Node} {k : Key} {s : Key × Slot} {ns : List Node}

private theorem refills_required {a : α} {put : α → Node} (h : s = (k, Slot.required sort a put))
    (hput : ∀ b, n.Refills k [sort.node b] (put b)) (hns : s.2.Accepts ns) :
    n.Refills s.1 ns (s.2.fill ns) := by
  subst h
  obtain ⟨m, rfl⟩ := hns.required rfl
  obtain ⟨b, rfl⟩ := Slot.exists_node_of_admits (hns.admits m List.mem_cons_self)
  simpa [Slot.required] using hput b

private theorem refills_optional {a? : Option α} {put : Option α → Node}
    (h : s = (k, Slot.optional sort a? put))
    (hput : ∀ b? : Option α, n.Refills k (b?.toList.map sort.node) (put b?))
    (hns : s.2.Accepts ns) : n.Refills s.1 ns (s.2.fill ns) := by
  subst h
  have short := hns.optional rfl
  rcases ns with _ | ⟨m, _ | ⟨_, _⟩⟩
  · exact hput none
  · obtain ⟨b, rfl⟩ := Slot.exists_node_of_admits (hns.admits m List.mem_cons_self)
    simpa [Slot.optional] using hput (some b)
  · simp at short

private theorem refills_list {as : List α} {put : List α → Node}
    (h : s = (k, Slot.list sort as put))
    (hput : ∀ bs : List α, n.Refills k (bs.map sort.node) (put bs)) (hns : s.2.Accepts ns) :
    n.Refills s.1 ns (s.2.fill ns) := by
  subst h
  have members : ∀ m ∈ ns, m ∈ Set.range sort.node := fun m hm => by
    obtain ⟨b, rfl⟩ := Slot.exists_node_of_admits (hns.admits m hm)
    exact ⟨b, rfl⟩
  obtain ⟨bs, rfl⟩ : ns ∈ Set.range (List.map sort.node) :=
    (Set.range_list_map sort.node).symm ▸ members
  have filled : (Slot.list sort as put).fill (bs.map sort.node) = put bs :=
    Slot.fill_children_list sort bs put
  change n.Refills k (bs.map sort.node) ((Slot.list sort as put).fill (bs.map sort.node))
  rw [filled]
  exact hput bs

end

private theorem refills_operation {owner : FieldOwner} {put : OperationDefinition → Node}
    {d : OperationDefinition} {s : Key × Slot} {ns : List Node}
    (hkind : ∀ d', (put d').kind = (put d).kind)
    (hslots : ∀ d', (put d').slots = d'.slots owner put) (h : s ∈ d.slots owner put)
    (hns : s.2.Accepts ns) : (put d).Refills s.1 ns (s.2.fill ns) := by
  obtain ⟨text, name, arguments, directives, result, loc⟩ := d
  -- One alternative for each slot, and one for the empty rest of the list, which holds nothing.
  cases result <;>
    simp only [OperationDefinition.slots, OperationResult.slot, List.mem_cons,
      List.not_mem_nil] at h <;>
    rcases h with h | h | h | h | h | h <;>
    first
      | refine refills_required h (fun b => ⟨hkind _, ?_⟩) hns
      | refine refills_list h (fun bs => ⟨hkind _, ?_⟩) hns
  all_goals
    rw [contents, contents, hslots, hslots]
    rfl

private theorem refills_definition {d : Definition} {s : Key × Slot} {ns : List Node}
    (h : s ∈ d.slots) (hns : s.2.Accepts ns) :
    (Node.definition d).Refills s.1 ns (s.2.fill ns) := by
  cases d with
  | mutation d =>
    have hput : ∀ d', (Node.definition (.mutation d')).slots = d'.slots .mutation fun d =>
        .definition (.mutation d) :=
      fun _ => rfl
    exact refills_operation (fun _ => rfl) hput h hns
  | query d =>
    have hput : ∀ d', (Node.definition (.query d')).slots = d'.slots .query fun d =>
        .definition (.query d) :=
      fun _ => rfl
    exact refills_operation (fun _ => rfl) hput h hns
  | _ d =>
    -- Not all definitions have as many slots: the alternatives after the last one are empty.
    simp only [Definition.slots, List.mem_cons, List.not_mem_nil] at h
    rcases h with h | h | h | h | h | h <;>
      first
        | exact refills_required h (fun b => ⟨rfl, rfl⟩) hns
        | exact refills_list h (fun bs => ⟨rfl, rfl⟩) hns

theorem proper_of_mem_slots {n : Node} : ∀ s ∈ n.slots, s.2.Proper := by
  cases n with
  | value v => cases v <;> simp [slots, Value.slots]
  | type t => cases t <;> simp [slots, TypeRef.slots]
  | definition d =>
    cases d using Definition.byResult <;>
      simp [slots, Definition.slots, OperationDefinition.slots, OperationResult.slot]
  | _ x => simp [slots]

theorem proper_of_slot? {n : Node} {k : Key} {slot : Slot} (h : n.slot? k = some slot) :
    slot.Proper :=
  proper_of_mem_slots _ (mem_slots_of_slot? h)

/-- A slot that is filled leaves the kind of its node and the other slots as they were. -/
theorem refills_of_mem_slots {n : Node} {s : Key × Slot} {ns : List Node} (h : s ∈ n.slots)
    (hns : s.2.Accepts ns) : n.Refills s.1 ns (s.2.fill ns) := by
  cases n with
  | name => nomatch h
  | definition d => exact refills_definition h hns
  | value v =>
    cases v <;> simp only [slots, Value.slots, List.mem_cons, List.not_mem_nil] at h <;>
      rcases h with h | h | h <;>
      first
        | exact refills_required h (fun b => ⟨rfl, rfl⟩) hns
        | exact refills_list h (fun bs => ⟨rfl, rfl⟩) hns
  | type t =>
    cases t <;> simp only [slots, TypeRef.slots, List.mem_cons, List.not_mem_nil] at h <;>
      rcases h with h | h | h | h <;>
      first
        | exact refills_required h (fun b => ⟨rfl, rfl⟩) hns
        | exact refills_optional h (fun b => ⟨rfl, rfl⟩) hns
        | exact refills_list h (fun bs => ⟨rfl, rfl⟩) hns
  | _ x =>
    simp only [slots, List.mem_cons, List.not_mem_nil] at h
    rcases h with h | h | h | h | h | h <;>
      first
        | exact refills_required h (fun b => ⟨rfl, rfl⟩) hns
        | exact refills_optional h (fun b => ⟨rfl, rfl⟩) hns
        | exact refills_list h (fun bs => ⟨rfl, rfl⟩) hns

theorem refills_of_slot? {n : Node} {k : Key} {slot : Slot} {ns : List Node}
    (h : n.slot? k = some slot) (hns : slot.Accepts ns) : n.Refills k ns (slot.fill ns) :=
  refills_of_mem_slots (mem_slots_of_slot? h) hns

private theorem lookup_contents (n : Node) (k : Key) :
    n.contents.lookup k = (n.slot? k).map Slot.content := by
  rw [contents, slot?]
  induction n.slots with
  | nil => rfl
  | cons s ss ih =>
    obtain ⟨k', slot⟩ := s
    rw [List.map_cons, List.lookup_cons, List.lookup_cons]
    cases k == k'
    · exact ih
    · rfl

namespace Refills

variable {n m : Node} {k : Key} {ns : List Node}

private theorem lookup_contents (h : n.Refills k ns m) (k' : Key) :
    m.contents.lookup k' =
      (n.contents.lookup k').map fun c => if k' = k then { c with children := ns } else c := by
  rw [h.contents]
  induction n.contents with
  | nil => rfl
  | cons s ss ih =>
    obtain ⟨l, c⟩ := s
    have head : (if l = k then (l, { c with children := ns }) else (l, c)) =
        (l, if l = k then { c with children := ns } else c) := by
      split <;> rfl
    rw [List.map_cons, head, List.lookup_cons, List.lookup_cons]
    cases hl : k' == l with
    | false => exact ih
    | true =>
      rw [beq_iff_eq.1 hl]
      rfl

/-- The slots other than the one that was filled are as they were. -/
theorem content_of_ne (h : n.Refills k ns m) {k' : Key} (hne : k' ≠ k) :
    (m.slot? k').map Slot.content = (n.slot? k').map Slot.content := by
  rw [← Node.lookup_contents, h.lookup_contents, ← Node.lookup_contents]
  simp only [if_neg hne, Option.map_id']

end Refills

/-- The kind of a node stays as it is whatever one of its slots is filled with, and so do the parts
in the others. -/
theorem exists_refills_fill {n : Node} {k : Key} {slot : Slot} (h : n.slot? k = some slot)
    (ns : List Node) : ∃ ns', n.Refills k ns' (slot.fill ns) := by
  obtain ⟨ns', accepts, fill⟩ := (proper_of_slot? h).exists_accepts ns
  exact ⟨ns', fill ▸ refills_of_slot? h accepts⟩

end Node

end SchemaLang
