import SchemaLang.Proofs.Traversal.Rewrite

/-!
# Renaming

A visitor that puts another name in the place of each name it leaves is the plainest rewriting: it
changes the names of a tree and nothing else, and one renaming after another is a single one.
-/

namespace SchemaLang

/-- Makes the same of a part wherever it stands, and takes none out. -/
def PartMap.total (f : Node → Node) : PartMap := fun _ _ c => some (f c)

namespace Node

/-- The tree with `f` of each name in the place of that name. -/
def mapNames (f : Name → Name) (n : Node) : Node :=
  rename f (n.mapParts fun _ _ c => if _ : c ∈ n.children then some (mapNames f c) else none)
termination_by sizeOf n
decreasing_by exact sizeOf_lt_of_mem_children ‹_›

private theorem mapNames_eq (f : Name → Name) (n : Node) :
    n.mapNames f = rename f (n.mapParts (.total (mapNames f))) := by
  rw [mapNames]
  exact congrArg (rename f) (mapParts_congr fun c hc _ _ => dif_pos hc)

end Node

/-- Replaces names by `f` of them. -/
def Action.renameBy (f : Name → Name) : Node → Action
  | .name n => .replace (.name (f n))
  | _ => .keep

/-- The visitor that replaces names by `f` of them as it leaves them. -/
def Visitor.renameBy (f : Name → Name) : Visitor Unit :=
  ⟨fun _ _ s => (.keep, s), fun n _ s => (Action.renameBy f n, s)⟩

private theorem Action.result_renameBy (f : Name → Name) (n : Node) :
    (renameBy f n).result n = some (n.rename f) := by
  cases n <;> rfl

private theorem Visitor.rewrites_renameBy (f : Name → Name) :
    (renameBy f).Rewrites fun n _ => .renameBy f n where
  enter _ _ _ := rfl
  leave _ _ _ := rfl
  goesOn n _ := by cases n <;> rfl
  fits n _ := by
    intro p k slot _ _ hslot admits
    rw [Action.result_renameBy]
    exact (Node.keepsSorts_rename f).admits hslot admits

namespace PartSort

variable {α : Type} {s : PartSort α} {f g : Node → Node} {k : Key}

/-- What `f` makes of a part of this sort. -/
def lift (s : PartSort α) (f : Node → Node) (a : α) : α := (s.part? (f (s.node a))).getD a

@[simp] theorem node_lift (hf : s.Keeps f) (a : α) : s.node (s.lift f a) = f (s.node a) := by
  obtain ⟨b, hb⟩ := hf a
  simp [lift, hb]

@[simp] theorem node_comp_lift (hf : s.Keeps f) : s.node ∘ s.lift f = f ∘ s.node :=
  funext (node_lift hf)

@[simp] theorem lift_id : s.lift id = id := funext fun a => by simp [lift]

@[simp] theorem lift_lift (hf : s.Keeps f) (hg : s.Keeps g) (a : α) :
    s.lift g (s.lift f a) = s.lift (g ∘ f) a := by
  obtain ⟨b, hb⟩ := hf a
  obtain ⟨c, hc⟩ := hg b
  simp [lift, hb, hc]

@[simp] theorem lift_comp_lift (hf : s.Keeps f) (hg : s.Keeps g) :
    s.lift g ∘ s.lift f = s.lift (g ∘ f) :=
  funext (lift_lift hf hg)

private theorem map?_total (hf : s.Keeps f) (place : Option Nat) (a : α) :
    s.map? (.total f) k place a = some (s.lift f a) := by
  obtain ⟨b, hb⟩ := hf a
  simp [map?, PartMap.total, lift, hb]

@[simp] theorem mapOne_total (a : α) : s.mapOne (.total f) k a = s.lift f a := rfl

@[simp] theorem mapOptional_total (hf : s.Keeps f) (a? : Option α) :
    s.mapOptional (.total f) k a? = a?.map (s.lift f) := by
  cases a? with
  | none => rfl
  | some a => exact map?_total (k := k) hf none a

@[simp] theorem mapList_total (hf : s.Keeps f) (as : List α) :
    s.mapList (.total f) k as = as.map (s.lift f) := by
  have kept : (fun a : α × Nat => s.map? (.total f) k (some a.2) a.1) =
      some ∘ s.lift f ∘ Prod.fst :=
    funext fun a => map?_total (k := k) hf (some a.2) a.1
  rw [mapList, kept, List.filterMap_eq_map, ← List.map_map, List.zipIdx_map_fst]

end PartSort

namespace Node

private theorem mapParts_id (n : Node) : n.mapParts (.total id) = n := by
  cases n with
  | value v => cases v <;> simp [mapParts, Value.mapParts, keepsSorts_id.keeps]
  | type t => cases t <;> simp [mapParts, TypeRef.mapParts, keepsSorts_id.keeps]
  | definition d =>
    cases d using Definition.byResult <;>
      simp [mapParts, Definition.mapParts, OperationDefinition.mapParts, OperationResult.mapParts,
        keepsSorts_id.keeps]
  | _ x => simp [mapParts, keepsSorts_id.keeps]

section

variable {f g : Node → Node}

private theorem children_mapParts (hf : KeepsSorts f) (n : Node) :
    (n.mapParts (.total f)).children = n.children.map f := by
  cases n with
  | value v =>
    cases v <;> simp [children, mapParts, Value.mapParts, slots, Value.slots, Slot.required,
      Slot.list, hf.keeps]
  | type t =>
    cases t <;>
      simp [children, mapParts, TypeRef.mapParts, slots, TypeRef.slots, Slot.required,
        Slot.optional, Slot.list, Option.toList_map, hf.keeps]
  | definition d =>
    cases d using Definition.byResult <;>
      simp [children, mapParts, Definition.mapParts, OperationDefinition.mapParts,
        OperationResult.mapParts, slots, Definition.slots, OperationDefinition.slots,
        OperationResult.slot, Slot.required, Slot.list, hf.keeps]
  | _ x =>
    simp [children, mapParts, slots, Slot.required, Slot.optional, Slot.list,
      Option.toList_map, hf.keeps]

private theorem mapParts_mapParts (hf : KeepsSorts f) (hg : KeepsSorts g) (n : Node) :
    (n.mapParts (.total f)).mapParts (.total g) = n.mapParts (.total (g ∘ f)) := by
  have hgf : KeepsSorts (g ∘ f) := hg.comp hf
  cases n with
  | value v => cases v <;> simp [mapParts, Value.mapParts, hf.keeps, hg.keeps, hgf.keeps]
  | type t => cases t <;> simp [mapParts, TypeRef.mapParts, hf.keeps, hg.keeps, hgf.keeps]
  | definition d =>
    cases d using Definition.byResult <;>
      simp [mapParts, Definition.mapParts, OperationDefinition.mapParts, OperationResult.mapParts,
        hf.keeps, hg.keeps, hgf.keeps]
  | _ x => simp [mapParts, hf.keeps, hg.keeps, hgf.keeps]

end

private theorem rewrite_renameBy (f : Name → Name) (n : Node) :
    ∀ context, n.rewrite (fun n _ => .renameBy f n) context = some (n.mapNames f) := by
  induction n using inductParts with
  | step n ih =>
    intro context
    have parts : n.rewriteParts (fun n _ => .renameBy f n) context =
        n.mapParts (.total (mapNames f)) :=
      mapParts_congr fun c hc _ _ => ih c hc _
    rw [rewrite_eq, parts, Action.result_renameBy, mapNames_eq]

private theorem keepsSorts_mapNames (f : Name → Name) : KeepsSorts (mapNames f) := by
  have split : mapNames f = rename f ∘ mapParts (.total (mapNames f)) := funext (mapNames_eq f)
  rw [split]
  exact (keepsSorts_rename f).comp (keepsSorts_mapParts _)

private theorem mapParts_rename (f : Name → Name) (g : PartMap) (n : Node) :
    (n.rename f).mapParts g = (n.mapParts g).rename f := by
  cases n <;> rfl

private theorem rename_rename (f g : Name → Name) (n : Node) :
    (n.rename f).rename g = n.rename (g ∘ f) := by
  cases n <;> rfl

private theorem mapNames_id (n : Node) : n.mapNames id = n := by
  induction n using inductParts with
  | step n ih =>
    have parts : n.mapParts (.total (mapNames id)) = n.mapParts (.total id) :=
      mapParts_congr fun c hc _ _ => congrArg some (ih c hc)
    rw [mapNames_eq, parts, mapParts_id]
    cases n <;> rfl

private theorem mapNames_mapNames (f g : Name → Name) (n : Node) :
    (n.mapNames f).mapNames g = n.mapNames (g ∘ f) := by
  induction n using inductParts with
  | step n ih =>
    have parts : n.mapParts (.total (mapNames g ∘ mapNames f)) =
        n.mapParts (.total (mapNames (g ∘ f))) :=
      mapParts_congr fun c hc _ _ => congrArg some (ih c hc)
    have fused := mapParts_mapParts (keepsSorts_mapNames f) (keepsSorts_mapNames g) n
    rw [mapNames_eq f n, mapNames_eq g, mapParts_rename, fused, parts, rename_rename, ← mapNames_eq]

end Node

namespace Node

/-- The node as a name, if it is one. -/
def name? : Node → Option Name
  | .name n => some n
  | _ => none

/-- All names in a tree, in the order of the source. -/
def names (n : Node) : List Name :=
  n.name?.toList ++ (n.children.attach.map fun c => names c.1).flatten
termination_by sizeOf n
decreasing_by exact sizeOf_lt_of_mem_children c.2

private theorem names_eq (n : Node) : n.names = n.name?.toList ++ n.children.flatMap names := by
  rw [names, List.attach_map_val, List.flatMap_def]

private theorem name?_rename (f : Name → Name) (n : Node) : (n.rename f).name? = n.name?.map f := by
  cases n <;> rfl

private theorem name?_mapParts (g : PartMap) (n : Node) : (n.mapParts g).name? = n.name? := by
  cases n <;> rfl

private theorem children_rename (f : Name → Name) (n : Node) :
    (n.rename f).children = n.children := by
  cases n <;> rfl

private theorem names_mapNames (f : Name → Name) (n : Node) :
    (n.mapNames f).names = n.names.map f := by
  induction n using inductParts with
  | step n ih =>
    have parts : n.children.flatMap (fun c => (c.mapNames f).names) = n.children.flatMap fun c =>
        c.names.map f :=
      List.flatMap_congr ih
    rw [names_eq, mapNames_eq, name?_rename, name?_mapParts, children_rename,
      children_mapParts (keepsSorts_mapNames f), List.flatMap_map, parts, names_eq, List.map_append,
      List.map_flatMap]
    cases n.name? <;> rfl

private theorem visit_renameBy (f : Name → Name) (n : Node) :
    (n.visit (.renameBy f) ()).1 = .ok (some (n.mapNames f)) := by
  rw [visit_eq_rewrite (Visitor.rewrites_renameBy f), rewrite_renameBy]

end Node

/-- A visitor that goes into every node, and answers on leaving by the node and where it stands with
what may be there, rewrites a tree from the bottom up. One that renames changes all names and
nothing but names, and two of them that follow one another rename as one does. -/
theorem Node.visit_rewrites :
    (∀ {σ : Type} {v : Visitor σ} {answer : Node → Context → Action}, v.Rewrites answer →
      ∀ (s : σ) (n : Node), (n.visit v s).1 = .ok (n.rewrite answer .root)) ∧
    ∀ (f g : Name → Name) (n : Node),
      (n.visit (.renameBy f) ()).1 = .ok (some (n.mapNames f)) ∧
      (n.mapNames f).names = n.names.map f ∧ n.mapNames id = n ∧
      (n.mapNames f).mapNames g = n.mapNames (g ∘ f) ∧
      ((n.mapNames f).visit (.renameBy g) ()).1 = (n.visit (.renameBy (g ∘ f)) ()).1 := by
  refine ⟨visit_eq_rewrite, fun f g n =>
    ⟨visit_renameBy f n, names_mapNames f n, mapNames_id n, ?_, ?_⟩⟩
  · exact mapNames_mapNames f g n
  · rw [visit_renameBy, visit_renameBy, mapNames_mapNames]

/-- The visitor that takes out the labels of arrows. -/
theorem Node.visit_rewrites_label :
    let answer : Node → Context → Action :=
      fun _ context => if context.key = some .edgeLabel then .remove else .keep
    let v : Visitor Unit := ⟨fun _ _ s => (.keep, s), fun n context s => (answer n context, s)⟩
    let t : ConnectionType :=
      ⟨⟨⟨"A", none⟩, none⟩, some ⟨⟨"L", none⟩, none⟩, .outgoing, .plural, none⟩
    let n : Node := .type (.connectionJoin ⟨[t, t], none⟩)
    let m : Node :=
      .type (.connectionJoin ⟨[{ t with edgeLabel := none }, { t with edgeLabel := none }], none⟩)
    v.Rewrites answer ∧ n.rewrite answer .root = some m ∧ (n.visit v ()).1 = .ok (some m) := by
  intro answer v t n m
  have fits : ∀ n context, (answer n context).FitsAt n context := by
    intro n context p k slot _ key hslot admits
    by_cases label : context.key = some .edgeLabel
    · obtain rfl : k = .edgeLabel := Option.some.inj (key.symm.trans label)
      rw [show answer n context = .remove from if_pos label]
      have optional : slot.arity = .optional := by
        have hmem := mem_slots_of_slot? hslot
        cases p with
        | type t => cases t <;> simp_all [slots, TypeRef.slots, Slot.optional]
        | value v => cases v <;> simp [slots, Value.slots] at hmem
        | definition d =>
          cases d using Definition.byResult <;>
            simp [slots, Definition.slots, OperationDefinition.slots, OperationResult.slot] at hmem
        | _ => simp [slots] at hmem
      simp [Action.result, Slot.Takes, optional]
    · rw [show answer n context = .keep from if_neg label]
      exact admits
  have rewrites : v.Rewrites answer := by
    refine ⟨fun _ _ _ => rfl, fun _ _ _ => rfl, fun n context => ?_, fits⟩
    change (if context.key = some .edgeLabel then Action.remove else .keep).isHalt = false
    split <;> rfl
  have high : n.height = 4 := by
    simp [n, t, height_eq, children, slots, TypeRef.slots, Slot.required, Slot.optional,
      Slot.list, PartSort.name, PartSort.namedType, PartSort.connection]
  have visited : (n.visit v ()).1 = .ok (some m) := by
    rw [visit, high]
    decide +kernel
  have rewritten : n.rewrite answer .root = some m :=
    Except.ok.inj ((visit_rewrites.1 rewrites () n).symm.trans visited)
  exact ⟨rewrites, rewritten, visited⟩

end SchemaLang
