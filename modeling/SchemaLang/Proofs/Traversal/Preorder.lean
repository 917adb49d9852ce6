import SchemaLang.Proofs.Traversal.Protocol
import SchemaLang.Proofs.Traversal.Rewrite
import SchemaLang.Proofs.Traversal.Within

/-!
# The order in which nodes are entered

A walk of all parts whose visitor always goes on enters every node before its parts, and the parts
of a node in the order in which the node has them. It changes nothing.
-/

namespace SchemaLang

variable {σ : Type}

namespace Node

/-- The node and the nodes within it, each before its parts. -/
def preorder (n : Node) : List Node := n :: n.children.attach.flatMap fun c => preorder c.1
termination_by sizeOf n
decreasing_by exact sizeOf_lt_of_mem_children c.2

theorem preorder_eq (n : Node) : n.preorder = n :: n.children.flatMap preorder := by
  rw [preorder]
  simp only [List.flatMap_subtype, List.unattach_attach]

/-- The nodes in the order are those within the node. -/
theorem mem_preorder {n m : Node} : m ∈ n.preorder ↔ n.Within m := by
  constructor
  · induction n using inductParts with
    | step n ih =>
      intro h
      rw [preorder_eq] at h
      rcases List.mem_cons.1 h with rfl | h
      · exact .refl
      · obtain ⟨c, hc, hm⟩ := List.mem_flatMap.1 h
        exact .of_mem_children hc (ih c hc hm)
  · induction n using inductParts with
    | step n ih =>
      intro h
      rw [preorder_eq]
      rcases h.eq_or_exists with rfl | ⟨c, hc, hm⟩
      · exact List.mem_cons_self
      · exact List.mem_cons_of_mem n (List.mem_flatMap.2 ⟨c, hc, ih c hc hm⟩)

/-- No node is within a part of its own. -/
theorem not_within_of_mem_children {n c : Node} (hc : c ∈ n.children) : ¬ c.Within n := by
  have le : ∀ {m : Node}, c.Within m → m.height ≤ c.height := by
    intro m h
    induction h with
    | refl => exact Nat.le_refl _
    | child _ hm ih => exact Nat.le_trans (Nat.le_of_lt (height_lt_of_mem_children hm)) ih
  exact fun h => Nat.lt_irrefl _ (Nat.lt_of_lt_of_le (height_lt_of_mem_children hc) (le h))

theorem preorder_sublist_flatMap {n : Node} {ns : List Node} (h : n ∈ ns) :
    n.preorder.Sublist (ns.flatMap preorder) :=
  List.sublist_flatten_of_mem (List.mem_map_of_mem h)

/-- The order of the nodes within a node is that of the nodes within any node above it. -/
theorem Within.preorder_sublist {n m : Node} (h : n.Within m) : m.preorder.Sublist n.preorder := by
  induction h with
  | refl => exact List.Sublist.refl _
  | @child m c _ hc ih =>
    refine List.Sublist.trans ?_ ih
    rw [preorder_eq m]
    exact (preorder_sublist_flatMap hc).cons m

/-- The parts of a node come in their order. -/
theorem children_sublist_preorder (n : Node) : n.children.Sublist n.preorder := by
  have each : ∀ ns : List Node, ns.Sublist (ns.flatMap preorder) := by
    intro ns
    induction ns with
    | nil => exact .slnil
    | cons m ms ih =>
      rw [List.flatMap_cons, preorder_eq m]
      exact (List.sublist_append_of_sublist_right ih).cons_cons m
  rw [preorder_eq n]
  exact (each n.children).cons n

end Node

/-- The nodes that these calls enter. -/
def Call.entered (calls : List (Call σ)) :
    List Node := (calls.filter fun c => c.side = .enter).map (·.node)

namespace Call

private theorem entered_append (calls calls' : List (Call σ)) :
    entered (calls ++ calls') = entered calls ++ entered calls' := by
  simp [entered]

@[simp] theorem entered_cons_enter (n : Node) (context : Context) (s : σ) (a : Action)
    (calls : List (Call σ)) :
    entered (⟨.enter, n, context, s, a⟩ :: calls) = n :: entered calls := rfl

@[simp] theorem entered_leave (n : Node) (context : Context) (s : σ) (a : Action) :
    entered [(⟨.leave, n, context, s, a⟩ : Call σ)] = [] := rfl

end Call

mutual

theorem Visited.entered {context : Context} {n : Node} {calls : List (Call σ)}
    {n? : Option Node} {ended : Bool} (h : Visited schemaKeys context n calls n? ended)
    (keeps : ∀ c ∈ calls, c.action = .keep) :
    n? = some n ∧ ended = false ∧ Call.entered calls = n.preorder := by
  match h with
  | .passed closed =>
    obtain rfl := keeps _ List.mem_cons_self
    exact nomatch closed
  | .cut opened inside =>
    exact nomatch (inside.entered (List.forall_mem_cons.1 keeps).2).2.1
  | .left opened inside =>
    obtain ⟨entering, keepsRest⟩ := List.forall_mem_cons.1 keeps
    obtain ⟨keepsInside, leaving⟩ := List.forall_mem_append.1 keepsRest
    obtain ⟨rfl, -, order⟩ := inside.entered keepsInside
    obtain rfl := leaving _ List.mem_cons_self
    obtain rfl := entering
    cases opened
    refine ⟨rfl, rfl, ?_⟩
    rw [Call.entered_cons_enter, Call.entered_append, order, Call.entered_leave, List.append_nil,
      Node.children_of_schemaKeys, Node.preorder_eq]

theorem VisitedParts.entered {ancestors : List Kind} {ks : List Key} {n m : Node}
    {calls : List (Call σ)} {ended : Bool}
    (h : VisitedParts schemaKeys ancestors ks n calls m ended)
    (keeps : ∀ c ∈ calls, c.action = .keep) : m = n ∧ ended = false ∧
      Call.entered calls = ((ks.filterMap n.slot?).flatMap (·.children)).flatMap Node.preorder := by
  match h with
  | .done => exact ⟨rfl, rfl, rfl⟩
  | .absent hslot rest =>
    rw [List.filterMap_cons_none hslot]
    exact rest.entered keeps
  | .slot hslot items _ rest =>
    obtain ⟨keepsItems, keepsRest⟩ := List.forall_mem_append.1 keeps
    obtain ⟨hkept, -, order⟩ := items.entered keepsItems
    obtain ⟨rfl, rfl, orderRest⟩ := rest.entered keepsRest
    have filled := (Node.fits_of_mem_slots (Node.mem_slots_of_slot? hslot)).fill
    rw [hkept, filled] at orderRest ⊢
    refine ⟨rfl, rfl, ?_⟩
    rw [Call.entered_append, order, orderRest, List.filterMap_cons_some hslot, List.flatMap_cons,
      List.flatMap_append]
  | .last _ items _ => exact nomatch (items.entered keeps).2.1

theorem VisitedItems.entered {ancestors : List Kind} {k : Key} {slot : Slot} {index : Nat}
    {ns kept : List Node} {calls : List (Call σ)} {ended : Bool}
    (h : VisitedItems schemaKeys ancestors k slot index ns calls kept ended)
    (keeps : ∀ c ∈ calls, c.action = .keep) :
    kept = ns ∧ ended = false ∧ Call.entered calls = ns.flatMap Node.preorder := by
  match h with
  | .done => exact ⟨rfl, rfl, rfl⟩
  | .item visited _ rest =>
    obtain ⟨keepsFirst, keepsRest⟩ := List.forall_mem_append.1 keeps
    obtain ⟨rfl, -, order⟩ := visited.entered keepsFirst
    obtain ⟨rfl, rfl, orderRest⟩ := rest.entered keepsRest
    refine ⟨rfl, rfl, ?_⟩
    rw [Call.entered_append, order, orderRest, List.flatMap_cons]
  | .last visited _ => exact nomatch (visited.entered keeps).2.1

end

/-- The visitor always goes on. -/
structure Visitor.Continues (v : Visitor σ) : Prop where
  enter : ∀ n context s, (v.enter n context s).1 = .keep
  leave : ∀ n context s, (v.leave n context s).1 = .keep

theorem Visitor.Continues.rewrites {v : Visitor σ} (h : v.Continues) :
    v.Rewrites fun _ _ => .keep where
  enter := h.enter
  leave := h.leave
  goesOn _ _ := rfl
  fits _ _ _ _ _ _ _ _ admits := admits

theorem Visitor.Continues.callback {v : Visitor σ} (h : v.Continues) (side : Side) (n : Node)
    (context : Context) (s : σ) : (v.callback side n context s).1 = .keep := by
  cases side
  · exact h.enter n context s
  · exact h.leave n context s

namespace Node

/-- The nodes that a visit of a tree enters, in order. -/
def entered (v : Visitor σ) (s : σ) (n : Node) : List Node :=
  Call.entered (n.calls schemaKeys n.height v s)

/-- A visitor that always goes on gets the tree back, and enters every node of it before the
parts of the node. -/
theorem entered_of_continues {v : Visitor σ} (h : v.Continues) (s : σ) (n : Node) :
    (n.visit v s).1 = .ok (some n) ∧ n.entered v s = n.preorder := by
  have answered := visit_eq_rewrite h.rewrites s n
  obtain ⟨ended, visited, run⟩ := exists_visited answered
  have keeps : ∀ c ∈ n.calls schemaKeys n.height v s, c.action = .keep := fun c hc =>
    (run.action_of_mem c hc).trans (h.callback c.side c.node c.context c.state)
  obtain ⟨same, -, order⟩ := visited.entered keeps
  exact ⟨answered.trans (congrArg Except.ok same), order⟩

end Node

end SchemaLang
