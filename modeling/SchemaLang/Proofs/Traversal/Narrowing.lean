import SchemaLang.Proofs.Traversal.Outline
import SchemaLang.Proofs.Traversal.Preorder

/-!
# Narrowed walks

A key table narrows a walk to the parts that it lists, and says in which order they are taken. With
a visitor that always goes on the tree stays as it is whatever the table lists, and the calls go
round the outline that the table leaves of the tree: each node of it is entered before its parts and
left after them. So no table leads to a node that a walk of all parts does not enter, where that
walk finds it, and a walk of all parts enters every node once.
-/

namespace SchemaLang

variable {σ : Type}

/-- The table that lists the keys with these texts. -/
def KeyTable.ofTexts (texts : Kind → List String) : KeyTable := fun kind => Key.ofTexts (texts kind)

private theorem KeyTable.ofTexts_schemaTexts : ofTexts schemaTexts = schemaKeys := by
  funext kind
  cases kind <;> decide

/-- Filling slots with the parts they have changes nothing. -/
theorem Node.refill_same (ks : List Key) (n : Node) : n.refill (fun _ _ c => some c) ks = n := by
  induction ks with
  | nil => rfl
  | cons k ks ih =>
    cases hslot : n.slot? k with
    | none => rw [refill_none hslot, ih]
    | some slot =>
      have same : slot.results (fun _ _ c => some c) k = slot.children := by
        simp only [Slot.results, Option.toList_some]
        rw [← List.map_eq_flatMap, List.zipIdx_map_fst]
      rw [refill_some hslot, same, (fits_of_mem_slots (mem_slots_of_slot? hslot)).fill, ih]

/-- With room for the tree, a walk whose visitor always goes on gives the tree back. -/
theorem Walk.gives_same {v : Visitor σ} (h : v.Continues) {keys : KeyTable}
    (distinct : ∀ kind, (keys kind).Nodup) (limit : Nat) :
    ∀ {n : Node} {context : Context}, n.height ≤ limit →
      Gives (node v keys limit context n) (some n) := by
  induction limit with
  | zero => exact fun room => absurd room (Nat.not_le_of_lt (Node.height_pos _))
  | succ limit ih =>
    intro n context room s
    have makes : ∀ c ∈ n.children, Makes (node v keys limit) (fun _ _ c => some c)
        (context.ancestors ++ [n.kind]) n.kind c := by
      intro c hc
      have lower := Node.height_lt_of_mem_children hc
      exact ⟨fun k place => ih (by omega), fun _ _ _ admits => admits⟩
    have parts := gives_parts (distinct n.kind) rfl (Node.forallAt_of_children makes _)
    rw [Node.refill_same] at parts
    obtain ⟨t, parts⟩ := parts (v.enter n context s).2
    have opened : (v.enter n context s).1.opened? n = some n := by rw [h.enter]; rfl
    rw [node_opened opened, inside_left parts, h.leave]
    exact ⟨_, rfl⟩

/-- The step from the node above, if there is one. -/
def Context.step? (context : Context) : Option Step := context.key.map fun k => (k, context.index)

/-- Where these calls come by, the first of them below the end of `path`: a node that is entered is
a step below the node that was entered last and not yet left. -/
def Call.tour (path : Path) : List (Call σ) → List (Side × Spot)
  | [] => []
  | c :: calls =>
    match c.side with
    | .enter =>
      (.enter, ⟨path ++ c.context.step?.toList, c.context, c.node⟩) ::
        tour (path ++ c.context.step?.toList) calls
    | .leave => (.leave, ⟨path, c.context, c.node⟩) :: tour path.dropLast calls

@[simp] theorem Call.tour_enter (path : Path) (n : Node) (context : Context) (s : σ) (a : Action)
    (calls : List (Call σ)) :
    tour path (⟨.enter, n, context, s, a⟩ :: calls) =
      (.enter, ⟨path ++ context.step?.toList, context, n⟩) ::
      tour (path ++ context.step?.toList) calls := rfl

@[simp] theorem Call.tour_leave (path : Path) (n : Node) (context : Context) (s : σ) (a : Action)
    (calls : List (Call σ)) :
    tour path (⟨.leave, n, context, s, a⟩ :: calls) =
      (.leave, ⟨path, context, n⟩) :: tour path.dropLast calls := rfl

/-- The way round the outlines of listed parts below these ancestors. -/
def Outline.toursBelow (texts : Kind → List String) (path : Path) (ancestors : List Kind)
    (ps : List (Step × Node)) : List (Side × Spot) :=
  ps.flatMap fun p => (p.2.outline texts (path ++ [p.1]) (.at ancestors p.1)).tour

open Outline (toursBelow)

private theorem Outline.toursBelow_append {texts : Kind → List String} {path : Path}
    {ancestors : List Kind} (ps ps' : List (Step × Node)) :
    toursBelow texts path ancestors (ps ++ ps') =
      toursBelow texts path ancestors ps ++ toursBelow texts path ancestors ps' := by
  simp [toursBelow]

private theorem Node.tour_outline (texts : Kind → List String) (path : Path)
    (context : Context) (n : Node) :
    (n.outline texts path context).tour = (.enter, ⟨path, context, n⟩) ::
      (toursBelow texts path (context.ancestors ++ [n.kind]) (n.listed (texts n.kind)) ++
        [(.leave, ⟨path, context, n⟩)]) := by
  rw [outline_eq, Outline.tour, List.flatMap_map]
  rfl

mutual

theorem Visited.tour {texts : Kind → List String} {context : Context} {n : Node}
    {calls : List (Call σ)} {n? : Option Node} {ended : Bool}
    (h : Visited (.ofTexts texts) context n calls n? ended) (keeps : ∀ c ∈ calls, c.action = .keep)
    (path : Path) (back : (path ++ context.step?.toList).dropLast = path) :
    (n? = some n ∧ ended = false) ∧ ∀ rest, Call.tour path (calls ++ rest) =
      (n.outline texts (path ++ context.step?.toList) context).tour ++ Call.tour path rest := by
  match h with
  | .passed closed =>
    obtain rfl := keeps _ List.mem_cons_self
    exact nomatch closed
  | .cut opened inside => exact nomatch (inside.tour (List.forall_mem_cons.1 keeps).2 []).1.2
  | .left opened inside =>
    obtain ⟨entering, keepsRest⟩ := List.forall_mem_cons.1 keeps
    obtain ⟨keepsInside, leaving⟩ := List.forall_mem_append.1 keepsRest
    obtain ⟨⟨rfl, -⟩, round⟩ := inside.tour keepsInside (path ++ context.step?.toList)
    obtain rfl := leaving _ List.mem_cons_self
    obtain rfl := entering
    cases opened
    refine ⟨⟨rfl, rfl⟩, fun rest => ?_⟩
    rw [List.cons_append, List.append_assoc, Call.tour_enter, round, List.singleton_append,
      Call.tour_leave, back, Node.tour_outline, KeyTable.ofTexts, Node.flatMap_ofTexts,
      List.cons_append, List.append_assoc, List.singleton_append]

theorem VisitedParts.tour {texts : Kind → List String} {ancestors : List Kind}
    {ks : List Key} {n m : Node} {calls : List (Call σ)} {ended : Bool}
    (h : VisitedParts (.ofTexts texts) ancestors ks n calls m ended)
    (keeps : ∀ c ∈ calls, c.action = .keep) (path : Path) :
    (m = n ∧ ended = false) ∧ ∀ rest, Call.tour path (calls ++ rest) =
      toursBelow texts path ancestors (ks.flatMap fun k => n.partsAt k.text) ++
      Call.tour path rest := by
  match h with
  | .done => exact ⟨⟨rfl, rfl⟩, fun _ => rfl⟩
  | .absent hslot others =>
    rw [List.flatMap_cons, Node.partsAt_absent hslot]
    exact others.tour keeps path
  | .slot hslot items _ others =>
    obtain ⟨keepsItems, keepsRest⟩ := List.forall_mem_append.1 keeps
    obtain ⟨⟨hkept, -⟩, first⟩ := items.tour keepsItems path
    obtain ⟨same, round⟩ := others.tour keepsRest path
    rw [hkept, (Node.fits_of_mem_slots (Node.mem_slots_of_slot? hslot)).fill] at same round
    refine ⟨same, fun rest => ?_⟩
    rw [List.append_assoc, first, round, List.flatMap_cons, Outline.toursBelow_append,
      List.append_assoc, Node.partsAt_of_slot? hslot, Slot.parts_eq]
  | .last _ items _ => exact nomatch (items.tour keeps path).1.2

theorem VisitedItems.tour {texts : Kind → List String} {ancestors : List Kind} {k : Key}
    {slot : Slot} {index : Nat} {ns kept : List Node} {calls : List (Call σ)} {ended : Bool}
    (h : VisitedItems (.ofTexts texts) ancestors k slot index ns calls kept ended)
    (keeps : ∀ c ∈ calls, c.action = .keep) (path : Path) :
    (kept = ns ∧ ended = false) ∧ ∀ rest, Call.tour path (calls ++ rest) =
      toursBelow texts path ancestors
        ((ns.zipIdx index).map fun c =>
        ((k, if slot.arity = .list then some c.2 else none), c.1)) ++ Call.tour path rest := by
  match h with
  | .done => exact ⟨⟨rfl, rfl⟩, fun _ => rfl⟩
  | .item visited _ others =>
    obtain ⟨keepsFirst, keepsRest⟩ := List.forall_mem_append.1 keeps
    obtain ⟨⟨rfl, -⟩, first⟩ := visited.tour keepsFirst path List.dropLast_concat
    obtain ⟨⟨rfl, rfl⟩, round⟩ := others.tour keepsRest path
    refine ⟨⟨rfl, rfl⟩, fun rest => ?_⟩
    rw [List.append_assoc, first, round, List.zipIdx_cons, List.map_cons, ← List.append_assoc]
    rfl
  | .last visited _ => exact nomatch (visited.tour keeps path List.dropLast_concat).1.2

end

/-- The spots of the calls of a walk on one side: of those to enter, or of those to leave. -/
def Call.spots (side : Side) (calls : List (Call σ)) : List Spot :=
  Outline.onSide side (tour [] calls)

namespace Node

/-- The table that lists these keys narrows the walk of a tree. -/
structure IsNarrowed (texts : Kind → List String) (limit : Nat) (v : Visitor σ) (s : σ) (n : Node) :
    Prop where
  /-- The tree stays as it is. -/
  same : (n.visitWith (.ofTexts texts) limit v s).1 = .ok (some n)
  /-- The nodes of its outline are entered before their parts, each where it stands. -/
  entered : Call.spots .enter (n.calls (.ofTexts texts) limit v s) =
    (n.outline texts [] .root).preorder
  /-- They are left after their parts. -/
  left : Call.spots .leave (n.calls (.ofTexts texts) limit v s) =
    (n.outline texts [] .root).postorder
  /-- No node is entered twice: no path to a node. -/
  once : ((Call.spots .enter (n.calls (.ofTexts texts) limit v s)).map Spot.path).Nodup
  /-- Every node is found at the end of its path. -/
  found : ∀ spot ∈ Call.spots .enter (n.calls (.ofTexts texts) limit v s),
    n.follow? spot.path = some spot.node
  /-- A walk of all parts enters the same nodes in the same places, if not in the same order. -/
  narrower : Call.spots .enter (n.calls (.ofTexts texts) limit v s) ⊆
    Call.spots .enter (n.calls schemaKeys limit v s)

/-- A walk of all parts enters every node once. -/
structure EntersAll (limit : Nat) (v : Visitor σ) (s : σ) (n : Node) : Prop where
  /-- No node is entered twice: no path to a node. -/
  once : ((Call.spots .enter (n.calls schemaKeys limit v s)).map Spot.path).Nodup
  /-- The nodes that are entered are those that a path leads to. -/
  every : ∀ path, path ∈ (Call.spots .enter (n.calls schemaKeys limit v s)).map Spot.path ↔
    (n.follow? path).isSome
  /-- A path leads to the same nodes in the JSON form of the tree. -/
  written : ∀ path, n.toJson.follow? path = (n.follow? path).map toJson

variable {texts : Kind → List String} {limit : Nat} {v : Visitor σ} {s : σ} {n : Node}

private theorem visitWith_same (h : v.Continues) (distinct : ∀ kind, (texts kind).Nodup)
    (room : n.height ≤ limit) (s : σ) :
    (n.visitWith (.ofTexts texts) limit v s).1 = .ok (some n) := by
  have keys : ∀ kind, (KeyTable.ofTexts texts kind).Nodup :=
    fun kind => Key.nodup_ofTexts (distinct kind)
  have given : Walk.Gives (Walk.node v (.ofTexts texts) limit .root n) (some n) :=
    Walk.gives_same h keys limit room
  obtain ⟨t, given⟩ := given s
  simp only [visitWith, given]

/-- The calls go round the outline. -/
theorem tour_calls (h : v.Continues) (distinct : ∀ kind, (texts kind).Nodup)
    (room : n.height ≤ limit) (s : σ) :
    Call.tour [] (n.calls (.ofTexts texts) limit v s) = (n.outline texts [] .root).tour := by
  obtain ⟨ended, visited, run⟩ := exists_visited (visitWith_same h distinct room s)
  have keeps : ∀ c ∈ n.calls (.ofTexts texts) limit v s, c.action = .keep := fun c hc =>
    (run.action_of_mem c hc).trans (h.callback c.side c.node c.context c.state)
  have round := (visited.tour keeps [] rfl).2 []
  rwa [List.append_nil, Call.tour, List.append_nil] at round

private theorem spots_enter (h : v.Continues) (distinct : ∀ kind, (texts kind).Nodup)
    (room : n.height ≤ limit) (s : σ) : Call.spots .enter (n.calls (.ofTexts texts) limit v s) =
      (n.outline texts [] .root).preorder := by
  rw [Call.spots, tour_calls h distinct room, Outline.onSide_tour_enter]

private theorem nodup_schemaTexts (kind : Kind) : (schemaTexts kind).Nodup :=
  (nodup_schemaKeys kind).map fun _ _ => Key.text_inj.1

private theorem spots_schemaKeys (h : v.Continues) (room : n.height ≤ limit) (s : σ) :
    Call.spots .enter (n.calls schemaKeys limit v s) =
      (n.outline schemaTexts [] .root).preorder := by
  rw [← KeyTable.ofTexts_schemaTexts]
  exact spots_enter h nodup_schemaTexts room s

private theorem isNarrowed (h : v.Continues) (distinct : ∀ kind, (texts kind).Nodup)
    (room : n.height ≤ limit) : n.IsNarrowed texts limit v s where
  same := visitWith_same h distinct room s
  entered := spots_enter h distinct room s
  left := by rw [Call.spots, tour_calls h distinct room, Outline.onSide_tour_leave]
  once := by
    rw [spots_enter h distinct room]
    exact nodup_outline distinct [] .root n
  found spot hspot := by
    rw [spots_enter h distinct room] at hspot
    obtain ⟨rest, hpath, hnode⟩ := exists_follow?_of_mem hspot
    exact hpath ▸ hnode
  narrower := by
    rw [spots_enter h distinct room, spots_schemaKeys h room]
    exact preorder_subset_schemaTexts texts [] .root n

/-- A walk of all parts enters what any path leads to, and the end of no path twice. -/
theorem entersAll (h : v.Continues) (room : n.height ≤ limit) : n.EntersAll limit v s where
  once := by
    rw [spots_schemaKeys h room]
    exact nodup_outline nodup_schemaTexts [] .root n
  every path := by
    rw [spots_schemaKeys h room]
    constructor
    · intro hpath
      obtain ⟨spot, hspot, rfl⟩ := List.mem_map.1 hpath
      obtain ⟨rest, hpath, hnode⟩ := exists_follow?_of_mem hspot
      exact Option.isSome_iff_exists.2 ⟨spot.node, hpath ▸ hnode⟩
    · intro found
      obtain ⟨m, found⟩ := Option.isSome_iff_exists.1 found
      obtain ⟨context, hspot⟩ := exists_mem_of_follow? [] .root found
      exact List.mem_map.2 ⟨_, hspot, rfl⟩
  written := n.follow?_toJson

/-- Key tables only narrow or reorder. With a visitor that always goes on, a table that lists no key
twice for a kind leaves the tree as it is, has the nodes of its outline entered before their parts
and left after them, and leads to no node that a walk of all parts does not enter, where that walk
enters it. That walk enters every node once. -/
theorem narrows_of_continues (h : v.Continues) (distinct : ∀ kind, (texts kind).Nodup)
    (room : n.height ≤ limit) : n.IsNarrowed texts limit v s ∧ n.EntersAll limit v s :=
  ⟨isNarrowed h distinct room, entersAll h room⟩

/-- The value of an argument before its name, without what is in the list. -/
theorem narrows_of_continues_argument :
    let v : Visitor Unit := ⟨fun _ _ s => (.keep, s), fun _ _ s => (.keep, s)⟩
    let n : Node := .argument ⟨⟨"a", none⟩, .list [.int "1" none, .int "2" none] none, none⟩
    let texts : Kind → List String :=
      fun kind => if kind = .argument then ["value", "values", "none", "name"] else []
    v.Continues ∧ (∀ kind, (texts kind).Nodup) ∧ n.height ≤ 3 ∧
      (n.IsNarrowed texts 3 v () ∧ n.EntersAll 3 v ()) ∧
      (Call.spots .enter (n.calls (.ofTexts texts) 3 v ())).map Spot.path =
        [[], [(.value, none)], [(.name, none)]] ∧
      (Call.spots .enter (n.calls schemaKeys 3 v ())).map Spot.path =
        [[], [(.name, none)], [(.value, none)], [(.value, none), (.values, some 0)],
         [(.value, none), (.values, some 1)]] := by
  intro v n texts
  have continues : v.Continues := ⟨fun _ _ _ => rfl, fun _ _ _ => rfl⟩
  have distinct : ∀ kind, (texts kind).Nodup := by
    intro kind
    cases kind <;> decide
  have room : n.height ≤ 3 := by
    simp [n, height_eq, children, slots, Value.slots, Slot.required, Slot.list,
      PartSort.name, PartSort.value]
  exact ⟨continues, distinct, room, narrows_of_continues continues distinct room,
    by decide +kernel, by decide +kernel⟩

end Node

end SchemaLang
