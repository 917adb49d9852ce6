import SchemaLang.Traversal.Walk

/-!
# Walks that change nothing

A slot that is filled with the parts it already has leaves its node as it is, and admits every part
it has. So a walk whose visitor keeps each part answers the node it was given, and only the state of
the visitor moves on.
-/

namespace SchemaLang

namespace Slot

/-- Every part of a slot may stand in it. -/
def AdmitsChildren (slot : Slot) : Prop := ∀ c ∈ slot.children, slot.admits c = true

@[simp] theorem admitsChildren_required (s : PartSort α) (a : α) (put : α → Node) :
    (required s a put).AdmitsChildren := by
  intro c hc
  rw [List.mem_singleton.1 hc]
  simp [required]

@[simp] theorem admitsChildren_optional (s : PartSort α) (a? : Option α) (put : Option α → Node) :
    (optional s a? put).AdmitsChildren := by
  intro c hc
  obtain ⟨a, -, rfl⟩ := List.mem_map.1 hc
  simp [optional]

@[simp] theorem admitsChildren_list (s : PartSort α) (as : List α) (put : List α → Node) :
    (list s as put).AdmitsChildren := by
  intro c hc
  obtain ⟨a, -, rfl⟩ := List.mem_map.1 hc
  simp [list]

end Slot

namespace Node

/-- A slot of a node holds parts of the node, and gives the node back when it is
filled with them. -/
structure Fits (n : Node) (slot : Slot) : Prop where
  fill : slot.fill slot.children = n
  admits : slot.AdmitsChildren

private theorem fits_result (owner : FieldOwner) (put : OperationResult → Node)
    (r : OperationResult) : (put r).Fits (r.slot owner put).2 := by
  cases r <;> exact ⟨by simp [OperationResult.slot], by simp [OperationResult.slot]⟩

private theorem fits_operation {owner : FieldOwner} (put : OperationDefinition → Node)
    {d : OperationDefinition} {s : Key × Slot} (h : s ∈ d.slots owner put) : (put d).Fits s.2 := by
  simp only [OperationDefinition.slots, List.mem_cons, List.not_mem_nil, or_false] at h
  rcases h with rfl | rfl | rfl | rfl
  · constructor <;> simp
  · constructor <;> simp
  · constructor <;> simp
  · exact fits_result owner (fun r => put { d with result := r }) d.result

private theorem fits_definition {d : Definition} {s : Key × Slot} (h : s ∈ d.slots) :
    (Node.definition d).Fits s.2 := by
  cases d with
  | mutation => exact fits_operation (fun d => .definition (.mutation d)) h
  | query => exact fits_operation (fun d => .definition (.query d)) h
  | _ d =>
    simp only [Definition.slots, List.mem_cons, List.not_mem_nil, or_false] at h
    rcases h with rfl | rfl | rfl | rfl <;> constructor <;> simp

/-- Every slot of a node fits it. -/
theorem fits_of_mem_slots {n : Node} {s : Key × Slot} (h : s ∈ n.slots) : n.Fits s.2 := by
  cases n with
  | name => nomatch h
  | definition d => exact fits_definition h
  | value v =>
    cases v <;> simp only [slots, Value.slots, List.mem_cons, List.not_mem_nil, or_false] at h <;>
      subst h <;>
      constructor <;> simp
  | type t =>
    cases t <;> simp only [slots, TypeRef.slots, List.mem_cons, List.not_mem_nil, or_false] at h <;>
      rcases h with rfl | rfl <;> constructor <;> simp
  | _ x =>
    simp only [slots, List.mem_cons, List.not_mem_nil, or_false] at h
    rcases h with rfl | rfl | rfl | rfl <;> constructor <;> simp

theorem mem_slots_of_slot? {n : Node} {k : Key} {slot : Slot} (h : n.slot? k = some slot) :
    (k, slot) ∈ n.slots := by
  obtain ⟨before, after, split, -⟩ := List.lookup_eq_some_iff.1 h
  rw [split]
  exact List.mem_append_right before List.mem_cons_self

/-- The keys of all parts lead to all slots, in the order of the source. -/
theorem slots_of_schemaKeys (n : Node) :
    (schemaKeys n.kind).filterMap n.slot? = n.slots.map Prod.snd := by
  cases n with
  | value v => cases v <;> rfl
  | type t => cases t <;> rfl
  | field owner d => cases owner <;> rfl
  | definition d =>
    cases d with
    | mutation d | query d =>
      obtain ⟨_, _, _, _, result, _⟩ := d
      cases result <;> rfl
    | _ d => rfl
  | _ x => rfl

theorem children_of_schemaKeys (n : Node) :
    ((schemaKeys n.kind).filterMap n.slot?).flatMap (·.children) = n.children := by
  rw [slots_of_schemaKeys, List.flatMap_map]
  rfl

end Node

namespace Walk

variable {σ : Type} {walk : Context → Node → Walk σ (Option Node)} {ancestors : List Kind}

/-- A walk below these ancestors keeps a part, and moves the state of its visitor on. -/
def Keeps (walk : Context → Node → Walk σ (Option Node)) (ancestors : List Kind)
    (move : Node → σ → σ) (c : Node) : Prop :=
  ∀ k place s, walk ⟨some k, place, ancestors⟩ c ⟨s, false⟩ = (.ok (some c), ⟨move c s, false⟩)

/-- The state after all of these parts. -/
def moved (move : Node → σ → σ) (s : σ) (parts : List Node) : σ :=
  parts.foldl (fun s c => move c s) s

theorem moved_append (move : Node → σ → σ) (s : σ) (before after : List Node) :
    moved move s (before ++ after) = moved move (moved move s before) after :=
  List.foldl_append

theorem settle_of_admits {parent : Kind} {k : Key} {slot : Slot} {n : Node}
    (h : slot.admits n = true) (p : Progress σ) :
    settle parent k slot (some n) p = (.ok (some n), p) := by
  simp only [settle, if_pos h]
  rfl

private theorem items_of_keeps {move : Node → σ → σ} (parent : Kind) (k : Key) {slot : Slot}
    (index : Nat) (s : σ) :
    ∀ {ns : List Node}, (∀ c ∈ ns, slot.admits c = true) → (∀ c ∈ ns, Keeps walk ancestors move c) →
      items walk ancestors parent k slot index ns ⟨s, false⟩ =
        (.ok ns, ⟨moved move s ns, false⟩) := by
  intro ns
  induction ns generalizing index s with
  | nil => intros; rfl
  | cons n ns ih =>
    intro admits keeps
    have rest := ih (index + 1) (move n s) (fun c hc => admits c (List.mem_cons_of_mem n hc))
      (fun c hc => keeps c (List.mem_cons_of_mem n hc))
    have first := keeps n List.mem_cons_self k (if slot.arity = .list then some index else none) s
    simp only [items, bind, first, settle_of_admits (admits n List.mem_cons_self), rest]
    rfl

private theorem parts_of_keeps {move : Node → σ → σ} {n : Node}
    (keeps : ∀ c ∈ n.children, Keeps walk ancestors move c) :
    ∀ (ks : List Key) (s : σ), parts walk ancestors ks n ⟨s, false⟩ =
      (.ok n, ⟨moved move s ((ks.filterMap n.slot?).flatMap (·.children)), false⟩) := by
  intro ks
  induction ks with
  | nil => intro s; rfl
  | cons k ks ih =>
    intro s
    unfold parts
    cases h : n.slot? k with
    | none =>
      rw [List.filterMap_cons_none h]
      exact ih s
    | some slot =>
      have fits : n.Fits slot := Node.fits_of_mem_slots (Node.mem_slots_of_slot? h)
      have children : ∀ c ∈ slot.children, c ∈ n.children := fun c hc =>
        List.mem_flatMap.2 ⟨(k, slot), Node.mem_slots_of_slot? h, hc⟩
      have items := items_of_keeps n.kind k 0 s fits.admits fun c hc => keeps c (children c hc)
      simp only [bind, items, fits.fill, ih]
      rw [List.filterMap_cons_some h, List.flatMap_cons, moved_append]

/-- A walk of all parts of a node that keeps each of them keeps the node. -/
theorem parts_schemaKeys {move : Node → σ → σ} {n : Node}
    (keeps : ∀ c ∈ n.children, Keeps walk ancestors move c) (s : σ) :
    parts walk ancestors (schemaKeys n.kind) n ⟨s, false⟩ =
      (.ok n, ⟨moved move s n.children, false⟩) := by
  rw [parts_of_keeps keeps, Node.children_of_schemaKeys]

/-- A visitor that keeps a node, and keeps all of its parts, has the node as its answer. -/
theorem node_of_keeps {v : Visitor σ} {limit : Nat} {context : Context} {n : Node}
    {s entered left : σ} {move : Node → σ → σ} (enter : v.enter n context s = (.keep, entered))
    (keeps : ∀ c ∈ n.children,
      Keeps (Walk.node v schemaKeys limit) (context.ancestors ++ [n.kind]) move c)
    (leave : v.leave n context (moved move entered n.children) = (.keep, left)) :
    Walk.node v schemaKeys (limit + 1) context n ⟨s, false⟩ = (.ok (some n), ⟨left, false⟩) := by
  have parts := parts_schemaKeys keeps entered
  simp only [Walk.node, inside, bind, pure, halted, call, enter, parts, leave,
    Bool.false_eq_true, ↓reduceIte]

end Walk

end SchemaLang
