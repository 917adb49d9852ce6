import Mathlib.Data.List.Basic
import SchemaLang.Proofs.Traversal.Filling
import SchemaLang.Proofs.Traversal.Within

/-!
# Rebuilding a node from its parts

`Node.mapParts g` is the node with what `g` makes of each of its parts in the place of that part,
and with everything else as it was. It is written out kind by kind. Filling the slots of the node
one after the other comes to the same.
-/

namespace SchemaLang

/-- What becomes of a part with a key, at a place if it stands in a list. -/
abbrev PartMap := Key → Option Nat → Node → Option Node

namespace PartSort

variable {α : Type} (s : PartSort α) (g : PartMap) (k : Key)

/-- What `g` makes of a part. -/
def map? (place : Option Nat) (a : α) : Option α := (g k place (s.node a)).bind s.part?

/-- The same for a part that must be there: it stays if `g` makes nothing of it. -/
def mapOne (a : α) : α := (s.map? g k none a).getD a

/-- The same for a part that may be missing. -/
def mapOptional (a? : Option α) : Option α := a?.bind (s.map? g k none)

/-- The same for the parts of a list, in their order and without those that `g` makes nothing of. -/
def mapList (as : List α) : List α := as.zipIdx.filterMap fun a => s.map? g k (some a.2) a.1

end PartSort

def Value.mapParts (g : PartMap) : Value → Value
  | .var n loc => .var (PartSort.name.mapOne g .name n) loc
  | .int text loc => .int text loc
  | .float text loc => .float text loc
  | .string text loc => .string text loc
  | .boolean value loc => .boolean value loc
  | .enum text loc => .enum text loc
  | .list vs loc => .list (PartSort.value.mapList g .values vs) loc
  | .object fs loc => .object (PartSort.objectField.mapList g .fields fs) loc

def TypeRef.mapParts (g : PartMap) : TypeRef → TypeRef
  | .named t => .named { t with name := PartSort.name.mapOne g .name t.name }
  | .list t loc => .list (PartSort.type.mapOne g .type t) loc
  | .nonNull t loc => .nonNull (PartSort.type.mapOne g .type t) loc
  | .connection t =>
    .connection { t with
      edgeLabel := PartSort.namedType.mapOptional g .edgeLabel t.edgeLabel
      type := PartSort.namedType.mapOne g .type t.type }
  | .connectionJoin t =>
    .connectionJoin { t with
      connections := PartSort.connection.mapList g .connections t.connections }
  | .edge t =>
    .edge { t with
      edgeLabel := PartSort.namedType.mapOptional g .edgeLabel t.edgeLabel
      type := PartSort.namedType.mapOne g .type t.type }

def OperationResult.mapParts (owner : FieldOwner) (g : PartMap) : OperationResult → OperationResult
  | .type t => .type (PartSort.type.mapOne g .type t)
  | .fields ds => .fields ((PartSort.field owner).mapList g .fields ds)

def OperationDefinition.mapParts (owner : FieldOwner) (g : PartMap) (d : OperationDefinition) :
    OperationDefinition :=
  { d with
    name := PartSort.name.mapOne g .name d.name
    arguments := PartSort.inputValue.mapList g .arguments d.arguments
    directives := PartSort.directive.mapList g .directives d.directives
    result := d.result.mapParts owner g }

def Definition.mapParts (g : PartMap) : Definition → Definition
  | .scalar d =>
    .scalar { d with
      name := PartSort.name.mapOne g .name d.name
      directives := PartSort.directive.mapList g .directives d.directives }
  | .object d =>
    .object { d with
      name := PartSort.name.mapOne g .name d.name
      interfaces := PartSort.namedType.mapList g .interfaces d.interfaces
      directives := PartSort.directive.mapList g .directives d.directives
      fields := (PartSort.field .type).mapList g .fields d.fields }
  | .interface d =>
    .interface { d with
      name := PartSort.name.mapOne g .name d.name
      directives := PartSort.directive.mapList g .directives d.directives
      fields := (PartSort.field .type).mapList g .fields d.fields }
  | .union d =>
    .union { d with
      name := PartSort.name.mapOne g .name d.name
      directives := PartSort.directive.mapList g .directives d.directives
      types := PartSort.namedType.mapList g .types d.types }
  | .enum d =>
    .enum { d with
      name := PartSort.name.mapOne g .name d.name
      directives := PartSort.directive.mapList g .directives d.directives
      values := PartSort.enumValue.mapList g .values d.values }
  | .inputObject d =>
    .inputObject { d with
      name := PartSort.name.mapOne g .name d.name
      directives := PartSort.directive.mapList g .directives d.directives
      fields := PartSort.inputValue.mapList g .fields d.fields }
  | .typeExtension d =>
    .typeExtension { d with definition := PartSort.objectType.mapOne g .definition d.definition }
  | .directive d =>
    .directive { d with
      name := PartSort.name.mapOne g .name d.name
      arguments := PartSort.inputValue.mapList g .arguments d.arguments
      locations := PartSort.name.mapList g .locations d.locations }
  | .mutation d => .mutation (d.mapParts .mutation g)
  | .query d => .query (d.mapParts .query g)
  | .filter d =>
    .filter { d with
      type := PartSort.type.mapOne g .type d.type
      conditions := PartSort.condition.mapList g .conditions d.conditions }
  | .order d =>
    .order { d with
      type := PartSort.type.mapOne g .type d.type
      expressions := PartSort.ordering.mapList g .expressions d.expressions }

/-- The node with what `g` makes of its parts. -/
def Node.mapParts (g : PartMap) : Node → Node
  | .name n => .name n
  | .document d =>
    .document { d with definitions := PartSort.definition.mapList g .definitions d.definitions }
  | .value v => .value (v.mapParts g)
  | .objectField f =>
    .objectField { f with
      name := PartSort.name.mapOne g .name f.name, value := PartSort.value.mapOne g .value f.value }
  | .argument a =>
    .argument { a with
      name := PartSort.name.mapOne g .name a.name, value := PartSort.value.mapOne g .value a.value }
  | .directive d =>
    .directive { d with
      name := PartSort.name.mapOne g .name d.name
      arguments := PartSort.argument.mapList g .arguments d.arguments }
  | .type t => .type (t.mapParts g)
  | .inputValue d =>
    .inputValue { d with
      name := PartSort.name.mapOne g .name d.name
      type := PartSort.type.mapOne g .type d.type
      defaultValue := PartSort.value.mapOptional g .defaultValue d.defaultValue
      directives := PartSort.directive.mapList g .directives d.directives }
  | .field owner d =>
    .field owner { d with
      name := PartSort.name.mapOne g .name d.name
      arguments := PartSort.inputValue.mapList g .arguments d.arguments
      type := PartSort.type.mapOne g .type d.type
      directives := PartSort.directive.mapList g .directives d.directives }
  | .enumValue d =>
    .enumValue { d with
      name := PartSort.name.mapOne g .name d.name
      directives := PartSort.directive.mapList g .directives d.directives }
  | .definition d => .definition (d.mapParts g)
  | .condition c =>
    .condition { c with
      key := PartSort.enumValue.mapOne g .key c.key
      arguments := PartSort.inputValue.mapList g .arguments c.arguments
      condition := PartSort.object.mapOne g .condition c.condition }
  | .ordering e =>
    .ordering { e with
      key := PartSort.enumValue.mapOne g .key e.key
      expression := PartSort.object.mapList g .expression e.expression }

namespace Slot

/-- What `g` makes of the parts in the slot `k`. -/
def results (slot : Slot) (g : PartMap) (k : Key) : List Node :=
  slot.children.zipIdx.flatMap fun c =>
    (g k (if slot.arity = .list then some c.2 else none) c.1).toList

variable {α : Type} {s : PartSort α} {g : PartMap} {k : Key}

private theorem fill_results_required (a : α) (put : α → Node) :
    (required s a put).fill ((required s a put).results g k) = put (s.mapOne g k a) := by
  simp [required, results, PartSort.mapOne, PartSort.map?]

private theorem fill_results_optional (a? : Option α) (put : Option α → Node) :
    (optional s a? put).fill ((optional s a? put).results g k) = put (s.mapOptional g k a?) := by
  cases a? <;> simp [optional, results, PartSort.mapOptional, PartSort.map?]

private theorem fill_results_list (as : List α) (put : List α → Node) :
    (list s as put).fill ((list s as put).results g k) = put (s.mapList g k as) := by
  have taken : ∀ i,
      (((as.map s.node).zipIdx i).flatMap fun c => (g k (some c.2) c.1).toList).filterMap s.part? =
        (as.zipIdx i).filterMap fun a => s.map? g k (some a.2) a.1 := by
    induction as with
    | nil => exact fun _ => rfl
    | cons a as ih =>
      intro i
      rw [List.map_cons, List.zipIdx_cons, List.zipIdx_cons, List.flatMap_cons,
        List.filterMap_append, ih, List.filterMap_cons, PartSort.map?]
      cases g k (some i) (s.node a) with
      | none => rfl
      | some n => cases hn : s.part? n <;> simp [hn]
  exact congrArg put (taken 0)

end Slot

namespace Node

/-- The node with the slots that go by these keys filled with what `g` makes of their parts, one
after the other. -/
def refill (g : PartMap) : List Key → Node → Node
  | [], n => n
  | k :: ks, n =>
    match n.slot? k with
    | none => refill g ks n
    | some slot => refill g ks (slot.fill (slot.results g k))

section

variable {α : Type} {sort : PartSort α} {g : PartMap} {k : Key} {ks : List Key} {n : Node}

theorem refill_none (h : n.slot? k = none) : refill g (k :: ks) n = refill g ks n := by
  rw [refill, h]

theorem refill_some {slot : Slot} (h : n.slot? k = some slot) :
    refill g (k :: ks) n = refill g ks (slot.fill (slot.results g k)) := by
  rw [refill, h]

private theorem refill_required {a : α} {put : α → Node}
    (h : n.slot? k = some (.required sort a put)) :
    refill g (k :: ks) n = refill g ks (put (sort.mapOne g k a)) := by
  rw [refill_some h, Slot.fill_results_required]

private theorem refill_optional {a? : Option α} {put : Option α → Node}
    (h : n.slot? k = some (.optional sort a? put)) :
    refill g (k :: ks) n = refill g ks (put (sort.mapOptional g k a?)) := by
  rw [refill_some h, Slot.fill_results_optional]

private theorem refill_list {as : List α} {put : List α → Node}
    (h : n.slot? k = some (.list sort as put)) :
    refill g (k :: ks) n = refill g ks (put (sort.mapList g k as)) := by
  rw [refill_some h, Slot.fill_results_list]

end

private theorem refill_operation {owner : FieldOwner} (put : OperationDefinition → Node)
    (g : PartMap) (d : OperationDefinition) (hslots : ∀ d', (put d').slots = d'.slots owner put) :
    refill g [.name, .arguments, .directives, .type, .fields] (put d) =
      put (d.mapParts owner g) := by
  have slot? : ∀ d' k, (put d').slot? k = (d'.slots owner put).lookup k :=
    fun d' k => congrArg (·.lookup k) (hslots d')
  obtain ⟨text, name, arguments, directives, result, loc⟩ := d
  cases result with
  | type =>
    exact (refill_required (slot? _ _)).trans <| (refill_list (slot? _ _)).trans <|
      (refill_list (slot? _ _)).trans <| (refill_required (slot? _ _)).trans <|
      (refill_none (slot? _ _)).trans rfl
  | fields =>
    exact (refill_required (slot? _ _)).trans <| (refill_list (slot? _ _)).trans <|
      (refill_list (slot? _ _)).trans <| (refill_none (slot? _ _)).trans <|
      (refill_list (slot? _ _)).trans rfl

private theorem refill_definition (g : PartMap) (d : Definition) :
    refill g (schemaKeys d.kind) (.definition d) = .definition (d.mapParts g) := by
  cases d with
  | scalar => exact (refill_required rfl).trans <| (refill_list rfl).trans rfl
  | object =>
    exact (refill_required rfl).trans <| (refill_list rfl).trans <| (refill_list rfl).trans <|
      (refill_list rfl).trans rfl
  | interface =>
    exact (refill_required rfl).trans <| (refill_list rfl).trans <| (refill_list rfl).trans rfl
  | union =>
    exact (refill_required rfl).trans <| (refill_list rfl).trans <| (refill_list rfl).trans rfl
  | enum =>
    exact (refill_required rfl).trans <| (refill_list rfl).trans <| (refill_list rfl).trans rfl
  | inputObject =>
    exact (refill_required rfl).trans <| (refill_list rfl).trans <| (refill_list rfl).trans rfl
  | typeExtension => exact (refill_required rfl).trans rfl
  | directive =>
    exact (refill_required rfl).trans <| (refill_list rfl).trans <| (refill_list rfl).trans rfl
  | mutation d => exact refill_operation (fun d => .definition (.mutation d)) g d fun _ => rfl
  | query d => exact refill_operation (fun d => .definition (.query d)) g d fun _ => rfl
  | filter => exact (refill_required rfl).trans <| (refill_list rfl).trans rfl
  | order => exact (refill_required rfl).trans <| (refill_list rfl).trans rfl

/-- Filling all slots, in the order of the source, makes of a node what `mapParts` does. -/
theorem refill_schemaKeys (g : PartMap) (n : Node) :
    refill g (schemaKeys n.kind) n = n.mapParts g := by
  cases n with
  | name => rfl
  | document => exact (refill_list rfl).trans rfl
  | value v =>
    cases v with
    | var => exact (refill_required rfl).trans rfl
    | list => exact (refill_list rfl).trans rfl
    | object => exact (refill_list rfl).trans rfl
    | _ => rfl
  | objectField => exact (refill_required rfl).trans <| (refill_required rfl).trans rfl
  | argument => exact (refill_required rfl).trans <| (refill_required rfl).trans rfl
  | directive => exact (refill_required rfl).trans <| (refill_list rfl).trans rfl
  | type t =>
    cases t with
    | named => exact (refill_required rfl).trans rfl
    | list => exact (refill_required rfl).trans rfl
    | nonNull => exact (refill_required rfl).trans rfl
    | connection => exact (refill_optional rfl).trans <| (refill_required rfl).trans rfl
    | connectionJoin => exact (refill_list rfl).trans rfl
    | edge => exact (refill_optional rfl).trans <| (refill_required rfl).trans rfl
  | inputValue =>
    exact (refill_required rfl).trans <| (refill_required rfl).trans <|
      (refill_optional rfl).trans <| (refill_list rfl).trans rfl
  | field owner =>
    cases owner <;>
    exact (refill_required rfl).trans <| (refill_list rfl).trans <| (refill_required rfl).trans <|
      (refill_list rfl).trans rfl
  | enumValue => exact (refill_required rfl).trans <| (refill_list rfl).trans rfl
  | definition d => exact refill_definition g d
  | condition =>
    exact (refill_required rfl).trans <| (refill_list rfl).trans <| (refill_required rfl).trans rfl
  | ordering => exact (refill_required rfl).trans <| (refill_list rfl).trans rfl

theorem nodup_schemaKeys (kind : Kind) : (schemaKeys kind).Nodup := by
  cases kind <;> decide

/-- Every part in the slots that go by these keys has a property. -/
def ForallAt (n : Node) (ks : List Key) (P : Node → Prop) : Prop :=
  ∀ k ∈ ks, ∀ slot, n.slot? k = some slot → slot.Forall P

section

variable {n : Node} {k : Key} {ks : List Key} {P : Node → Prop}

theorem forallAt_of_children (h : ∀ c ∈ n.children, P c) (ks : List Key) : n.ForallAt ks P :=
  fun _ _ _ hslot => forall_mem_children.1 h _ (mem_slots_of_slot? hslot)

/-- The parts in the other slots are the same after a slot was filled. -/
theorem ForallAt.fill {slot : Slot} (h : n.ForallAt ks P)
    (hslot : n.slot? k = some slot) (hk : k ∉ ks) (ns : List Node) :
    (slot.fill ns).ForallAt ks P := by
  intro k' hk' slot' hslot'
  obtain ⟨ns', refills⟩ := exists_refills_fill hslot ns
  have same := refills.content_of_ne (ne_of_mem_of_not_mem hk' hk)
  rw [hslot', Option.map_some] at same
  obtain ⟨before, hbefore, content⟩ := Option.map_eq_some_iff.1 same.symm
  have children : before.children = slot'.children := congrArg Slot.Content.children content
  exact fun c hc => h k' hk' before hbefore c (children ▸ hc)

end

private theorem results_congr {g g' : PartMap} {slot : Slot} (k : Key)
    (h : slot.Forall fun c => ∀ k place, g k place c = g' k place c) :
    slot.results g k = slot.results g' k := by
  refine List.flatMap_congr fun c hc => ?_
  rw [h c.1 (List.fst_mem_of_mem_zipIdx hc)]

private theorem refill_congr {g g' : PartMap} {ks : List Key} (hks : ks.Nodup) :
    ∀ {n : Node}, (n.ForallAt ks fun c => ∀ k place, g k place c = g' k place c) →
    refill g ks n = refill g' ks n := by
  induction ks with
  | nil => exact fun _ => rfl
  | cons k ks ih =>
    intro n h
    obtain ⟨hk, hks⟩ := List.nodup_cons.1 hks
    have others : n.ForallAt ks fun c => ∀ k place, g k place c = g' k place c :=
      fun k' hk' => h k' (List.mem_cons_of_mem k hk')
    cases hslot : n.slot? k with
    | none => rw [refill_none hslot, refill_none hslot, ih hks others]
    | some slot =>
      rw [refill_some hslot, refill_some hslot, results_congr k (h k List.mem_cons_self slot hslot)]
      exact ih hks (others.fill hslot hk _)

theorem mapParts_congr {g g' : PartMap} {n : Node}
    (h : ∀ c ∈ n.children, ∀ k place, g k place c = g' k place c) :
    n.mapParts g = n.mapParts g' := by
  rw [← refill_schemaKeys, ← refill_schemaKeys]
  exact refill_congr (nodup_schemaKeys n.kind) (forallAt_of_children h _)

/-- The node with `f` of it in its place if it is a name. -/
def rename (f : Name → Name) : Node → Node
  | .name n => .name (f n)
  | n => n

end Node

/-- What becomes of a part of this sort is of this sort. -/
def PartSort.Keeps {α : Type} (s : PartSort α) (f : Node → Node) : Prop :=
  ∀ a, ∃ b, f (s.node a) = s.node b

theorem PartSort.Keeps.isSome {α : Type} {s : PartSort α} {f : Node → Node}
    (hf : s.Keeps f) {n : Node} (h : (s.part? n).isSome = true) :
    (s.part? (f n)).isSome = true := by
  obtain ⟨a, rfl⟩ := Slot.exists_node_of_admits h
  obtain ⟨b, hb⟩ := hf a
  rw [hb, PartSort.part?_node]
  rfl

namespace Node

/-- What becomes of a part is of the same sort. -/
structure KeepsSorts (f : Node → Node) : Prop where
  keeps {α : Type} {s : PartSort α} : s.Proper → s.Keeps f

theorem keepsSorts_mapParts (g : PartMap) : KeepsSorts (mapParts g) where
  keeps proper := by
    cases proper with
    | object => exact fun _ => ⟨⟨_, _⟩, rfl⟩
    | _ => exact fun _ => ⟨_, rfl⟩

theorem keepsSorts_rename (f : Name → Name) : KeepsSorts (rename f) where
  keeps proper := by cases proper <;> exact fun _ => ⟨_, rfl⟩

theorem keepsSorts_id : KeepsSorts id where
  keeps _ a := ⟨a, rfl⟩

theorem KeepsSorts.comp {f g : Node → Node} (hg : KeepsSorts g) (hf : KeepsSorts f) :
    KeepsSorts (g ∘ f) where
  keeps proper a := by
    obtain ⟨b, hb⟩ := hf.keeps proper a
    obtain ⟨c, hc⟩ := hg.keeps proper b
    exact ⟨c, (congrArg g hb).trans hc⟩

/-- What becomes of a node that a slot admits is a node that it admits. -/
theorem KeepsSorts.admits {f : Node → Node} (hf : KeepsSorts f) {p n : Node} {k : Key} {slot : Slot}
    (hslot : p.slot? k = some slot) (h : slot.admits n = true) : slot.admits (f n) = true := by
  cases proper_of_slot? hslot with
  | required proper => exact (hf.keeps proper).isSome h
  | optional proper => exact (hf.keeps proper).isSome h
  | list proper => exact (hf.keeps proper).isSome h

end Node

end SchemaLang
