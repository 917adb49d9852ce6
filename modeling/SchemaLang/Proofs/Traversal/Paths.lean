import SchemaLang.Ast.Encode
import SchemaLang.Proofs.Codec.Reading
import SchemaLang.Traversal.Slot

/-!
# Paths in a tree

A path leads from a node to a node within it, by the keys of the parts on the way and by their
places in lists. In the JSON form of the tree the same path leads through the members that go by
these keys, to the JSON form of the same node. So the slots of a node hold all that is written of it
as a node, each part where it is written.
-/

namespace SchemaLang

/-- Which part of a node: by its key, and by its place if it stands in a list. -/
abbrev Step := Key × Option Nat

/-- The steps from a node to a node within it. -/
abbrev Path := List Step

/-- The parts in a slot, those of a list with their places. -/
def Slot.items (slot : Slot) : List (Option Nat × Node) :=
  slot.children.zipIdx.map fun c => (if slot.arity = .list then some c.2 else none, c.1)

namespace Node

/-- The part of a node that a step leads to. -/
def part? (n : Node) (step : Step) :
    Option Node := (n.slot? step.1).bind fun slot => slot.items.lookup step.2

/-- The node that a path leads to. -/
def follow? (n : Node) : Path → Option Node
  | [] => some n
  | step :: path => (n.part? step).bind fun c => c.follow? path

end Node

namespace Json

/-- The objects that a member holds, those of a list with their places. -/
def items : Json → List (Option Nat × Json)
  | .obj ms => [(none, .obj ms)]
  | .arr js => js.zipIdx.map fun j => (some j.2, j.1)
  | _ => []

/-- The object that a step leads to. -/
def part? (j : Json) (step : Step) :
    Option Json := (j.member? step.1.text).bind fun m => m.items.lookup step.2

/-- The object that a path leads to. -/
def follow? (j : Json) : Path → Option Json
  | [] => some j
  | step :: path => (j.part? step).bind fun c => c.follow? path

end Json

namespace Slot

variable {α : Type} {sort : PartSort α}

@[simp] theorem items_optional (a? : Option α) (put : Option α → Node) :
    (optional sort a? put).items = a?.toList.map fun a => (none, sort.node a) := by
  cases a? <;> rfl

@[simp] theorem items_list (as : List α) (put : List α → Node) :
    (list sort as put).items = as.zipIdx.map fun a => (some a.2, sort.node a.1) := by
  simp [items, list, List.zipIdx_map]

end Slot

namespace Key

theorem text_inj {k k' : Key} : k.text = k'.text ↔ k = k' := by
  refine ⟨fun h => ?_, fun h => h ▸ rfl⟩
  have same := ofText?_text k
  rw [h, ofText?_text] at same
  exact (Option.some.inj same).symm

private theorem text_ne {k : Key} : k.text ≠ "kind" ∧ k.text ≠ "description" ∧ k.text ≠ "loc" := by
  cases k <;> decide

end Key

namespace Json

theorem items_list {α : Type} (write : α → Json) (as : List α) :
    (list write as).items = as.zipIdx.map fun a => (some a.2, write a.1) := by
  simp [items, list, List.zipIdx_map]

private theorem lookup_optional {α : Type} {key key' : String} (h : key ≠ key') (write : α → Json)
    (a? : Option α) : (optional key' write a?).lookup key = none := by
  cases a? with
  | none => rfl
  | some a => rw [optional, lookup_cons, if_neg h, List.lookup_nil]

/-- A key leads into the parts of a node, past its kind, its description and its location. -/
theorem member?_node (kind : Kind) (description : Option String) (ms : List (String × Json))
    (loc : Option Loc) (k : Key) :
    (node kind description ms loc).member? k.text = ms.lookup k.text := by
  obtain ⟨hkind, hdescription, hloc⟩ := k.text_ne
  rw [node, member?, List.cons_append, List.cons_append, lookup_cons, if_neg hkind,
    List.lookup_append, List.lookup_append, lookup_optional hdescription, lookup_optional hloc,
    Option.none_or, Option.or_none]

end Json

private theorem Value.items_toJson (v : Value) : v.toJson.items = [(none, v.toJson)] := by
  cases v <;> rfl

private theorem TypeRef.items_toJson (t : TypeRef) : t.toJson.items = [(none, t.toJson)] := by
  cases t <;> rfl

private theorem Definition.items_toJson (d : Definition) : d.toJson.items = [(none, d.toJson)] := by
  cases d <;> rfl

/-- The JSON form of a node is an object. -/
theorem Node.items_toJson (n : Node) : n.toJson.items = [(none, n.toJson)] := by
  cases n with
  | value v => exact v.items_toJson
  | type t => exact t.items_toJson
  | definition d => exact d.items_toJson
  | _ => rfl

/-- The members hold what is in the slots with their keys, in its JSON form, and with all other
keys nothing. -/
def ShowSlots (members : List (String × Json)) (slots : List (Key × Slot)) : Prop :=
  ∀ k i, ((members.lookup k.text).bind fun m => m.items.lookup i) =
    ((slots.lookup k).bind fun slot => slot.items.lookup i).map Node.toJson

namespace ShowSlots

variable {members : List (String × Json)} {slots : List (Key × Slot)} {α : Type} {sort : PartSort α}

theorem nil : ShowSlots [] [] := fun _ _ => rfl

private theorem lookup_map_toJson (i : Option Nat) (items : List (Option Nat × Node)) :
    (items.map fun c => (c.1, c.2.toJson)).lookup i = (items.lookup i).map Node.toJson := by
  induction items with
  | nil => rfl
  | cons c items ih =>
    rw [List.map_cons, List.lookup_cons, List.lookup_cons, ih]
    cases i == c.1 <;> rfl

theorem cons {k : Key} {text : String} {m : Json} {slot : Slot} (hkey : k.text = text)
    (h : m.items = slot.items.map fun c => (c.1, c.2.toJson)) (rest : ShowSlots members slots) :
    ShowSlots ((text, m) :: members) ((k, slot) :: slots) := by
  subst hkey
  intro k' i
  rw [Json.lookup_cons]
  by_cases hk : k' = k
  · rw [if_pos (Key.text_inj.2 hk), hk, List.lookup_cons_self, Option.bind_some,
      Option.bind_some, h]
    exact lookup_map_toJson i slot.items
  · have hne : (k' == k) = false := beq_false_of_ne hk
    rw [if_neg (mt Key.text_inj.1 hk), List.lookup_cons, hne]
    exact rest k' i

/-- A member that holds no object, with a key that no slot has. -/
theorem scalar {text : String} {m : Json} (h : m.items = [])
    (hkey : ∀ k : Key, k.text = text → slots.lookup k = none) (rest : ShowSlots members slots) :
    ShowSlots ((text, m) :: members) slots := by
  intro k i
  rw [Json.lookup_cons]
  by_cases hk : k.text = text
  · rw [if_pos hk, hkey k hk, Option.bind_some, h]
    rfl
  · rw [if_neg hk]
    exact rest k i

/-- A tag, which no node has a part for. -/
theorem tag {text tag : String} (hkey : Key.ofText? text = none) (rest : ShowSlots members slots) :
    ShowSlots ((text, .str tag) :: members) slots := by
  refine .scalar rfl (fun k hk => ?_) rest
  rw [← hk, Key.ofText?_text] at hkey
  exact nomatch hkey

variable {k : Key} {text : String}

theorem required {m : Json} {a : α} {put : α → Node} (hkey : k.text = text)
    (h : (sort.node a).toJson = m) (rest : ShowSlots members slots) :
    ShowSlots ((text, m) :: members) ((k, .required sort a put) :: slots) :=
  .cons hkey (h ▸ Node.items_toJson _) rest

theorem optional {write : α → Json} {a? : Option α} {put : Option α → Node} (hkey : k.text = text)
    (h : ∀ a, (sort.node a).toJson = write a) (rest : ShowSlots members slots) :
    ShowSlots ((text, .nullable write a?) :: members) ((k, .optional sort a? put) :: slots) := by
  refine .cons hkey ?_ rest
  cases a? with
  | none => rfl
  | some a =>
    rw [Json.nullable, ← h, Node.items_toJson]
    rfl

theorem list {write : α → Json} {as : List α} {put : List α → Node} (hkey : k.text = text)
    (h : ∀ a, (sort.node a).toJson = write a) (rest : ShowSlots members slots) :
    ShowSlots ((text, .arr (as.map write)) :: members) ((k, .list sort as put) :: slots) := by
  refine .cons hkey ?_ rest
  rw [← Json.list, Json.items_list, Slot.items_list, List.map_map]
  exact List.map_congr_left fun a _ => congrArg (Prod.mk _) (h a.1).symm

/-- The order of two slots with different keys does not matter. -/
theorem swap {k k' : Key} {slot slot' : Slot} (hne : k ≠ k')
    (h : ShowSlots members ((k', slot') :: (k, slot) :: slots)) :
    ShowSlots members ((k, slot) :: (k', slot') :: slots) := by
  intro asked i
  rw [h asked i]
  congr 2
  simp only [List.lookup_cons]
  by_cases hk : asked = k
  · subst hk
    rw [beq_self_eq_true, beq_false_of_ne hne]
  · rw [beq_false_of_ne hk]

end ShowSlots

private theorem Value.valuesToJson_eq (vs : List Value) :
    valuesToJson vs = vs.map Value.toJson := by
  induction vs with
  | nil => rfl
  | cons v vs ih => rw [valuesToJson, ih, List.map_cons]

private theorem Value.fieldsToJson_eq (fs : List ObjectField) :
    fieldsToJson fs = fs.map ObjectFieldOf.toJson := by
  induction fs with
  | nil => rfl
  | cons f fs ih =>
    obtain ⟨name, value, loc⟩ := f
    rw [fieldsToJson, ih, List.map_cons]
    rfl

/-- A node is written with members that show its slots. -/
def Node.IsShown (n : Node) : Prop :=
  ∃ kind description members loc, n.toJson = .node kind description members loc ∧
    ShowSlots members n.slots

open ShowSlots

private theorem Node.isShown_value (v : Value) : (Node.value v).IsShown := by
  cases v with
  | var name loc => exact ⟨_, _, _, _, rfl, required rfl rfl nil⟩
  | list vs loc =>
    refine ⟨_, _, _, _, rfl, ?_⟩
    rw [Value.valuesToJson_eq]
    exact list rfl (fun _ => rfl) nil
  | object fs loc =>
    refine ⟨_, _, _, _, rfl, ?_⟩
    rw [Value.fieldsToJson_eq]
    exact list rfl (fun _ => rfl) nil
  | _ => exact ⟨_, _, _, _, rfl, scalar rfl (fun _ _ => rfl) nil⟩

private theorem Node.isShown_type (t : TypeRef) : (Node.type t).IsShown := by
  cases t with
  | connection t =>
    refine ⟨_, _, _, _, rfl, swap (by decide) (required rfl rfl (optional rfl (fun _ => rfl) ?_))⟩
    exact tag (by decide) (tag (by decide) nil)
  | connectionJoin t => exact ⟨_, _, _, _, rfl, list rfl (fun _ => rfl) nil⟩
  | edge t =>
    refine ⟨_, _, _, _, rfl, swap (by decide) (required rfl rfl (optional rfl (fun _ => rfl) ?_))⟩
    exact tag (by decide) nil
  | _ => exact ⟨_, _, _, _, rfl, required rfl rfl nil⟩

private theorem OperationResult.showSlots (owner : FieldOwner) (put : OperationResult → Node)
    (r : OperationResult) : ShowSlots (r.members owner) [r.slot owner put] := by
  cases r with
  | type t => exact tag (by decide) (required rfl rfl nil)
  | fields ds => exact tag (by decide) (list rfl (fun _ => rfl) nil)

private theorem OperationDefinition.showSlots (owner : FieldOwner)
    (put : OperationDefinition → Node) (d : OperationDefinition) :
    ∃ members, (∀ kind, d.toJson kind owner = .node kind d.description members d.loc) ∧
      ShowSlots members (d.slots owner put) :=
  ⟨_, fun _ => rfl,
    required rfl rfl
      (list rfl (fun _ => rfl) (list rfl (fun _ => rfl) (d.result.showSlots owner _)))⟩

private theorem Node.isShown_definition (d : Definition) : (Node.definition d).IsShown := by
  have each {α : Type} {f : α → Json} (a : α) : f a = f a := rfl
  cases d with
  | scalar d => exact ⟨_, _, _, _, rfl, required rfl rfl (list rfl each nil)⟩
  | object d =>
    exact ⟨_, _, _, _, rfl, required rfl rfl (list rfl each (list rfl each (list rfl each nil)))⟩
  | typeExtension d => exact ⟨_, _, _, _, rfl, required rfl rfl nil⟩
  | mutation d =>
    obtain ⟨members, written, shown⟩ := d.showSlots .mutation fun d => .definition (.mutation d)
    exact ⟨_, _, members, _, written _, shown⟩
  | query d =>
    obtain ⟨members, written, shown⟩ := d.showSlots .query fun d => .definition (.query d)
    exact ⟨_, _, members, _, written _, shown⟩
  | filter d => exact ⟨_, _, _, _, rfl, required rfl rfl (list rfl each nil)⟩
  | order d => exact ⟨_, _, _, _, rfl, required rfl rfl (list rfl each nil)⟩
  | _ d => exact ⟨_, _, _, _, rfl, required rfl rfl (list rfl each (list rfl each nil))⟩

/-- Every node is written with members that show its slots. -/
theorem Node.isShown (n : Node) : n.IsShown := by
  have each {α : Type} {f : α → Json} (a : α) : f a = f a := rfl
  cases n with
  | name n => exact ⟨_, _, _, _, rfl, scalar rfl (fun _ _ => rfl) nil⟩
  | document d => exact ⟨_, _, _, _, rfl, list rfl each nil⟩
  | value v => exact isShown_value v
  | objectField f => exact ⟨_, _, _, _, rfl, required rfl rfl (required rfl rfl nil)⟩
  | argument a => exact ⟨_, _, _, _, rfl, required rfl rfl (required rfl rfl nil)⟩
  | directive d => exact ⟨_, _, _, _, rfl, required rfl rfl (list rfl each nil)⟩
  | type t => exact isShown_type t
  | inputValue d =>
    exact ⟨_, _, _, _, rfl,
      required rfl rfl (required rfl rfl (optional rfl each (list rfl each nil)))⟩
  | field owner d => exact ⟨_, _, _, _, rfl,
    required rfl rfl (list rfl each (required rfl rfl (list rfl each nil)))⟩
  | enumValue d => exact ⟨_, _, _, _, rfl, required rfl rfl (list rfl each nil)⟩
  | definition d => exact isShown_definition d
  | condition c => exact ⟨_, _, _, _, rfl, required rfl rfl (list rfl each (required rfl rfl nil))⟩
  | ordering e => exact ⟨_, _, _, _, rfl, required rfl rfl (list rfl each nil)⟩

/-- A step leads to the same part in a node and in its JSON form. -/
theorem Node.part?_toJson (n : Node) (step : Step) :
    n.toJson.part? step = (n.part? step).map toJson := by
  obtain ⟨kind, description, members, loc, written, shown⟩ := n.isShown
  rw [Json.part?, written, Json.member?_node]
  exact shown step.1 step.2

/-- A path leads to the same node in a tree and in its JSON form. -/
theorem Node.follow?_toJson (n : Node) (path : Path) :
    n.toJson.follow? path = (n.follow? path).map toJson := by
  induction path generalizing n with
  | nil => rfl
  | cons step path ih =>
    rw [Json.follow?, follow?, part?_toJson]
    cases n.part? step with
    | none => rfl
    | some c => exact ih c

end SchemaLang
