import Mathlib.Data.List.Nodup
import SchemaLang.Proofs.Traversal.Filling
import SchemaLang.Proofs.Traversal.Paths
import SchemaLang.Traversal.Visitor

/-!
# Outlines

The parts of a node can be listed by the texts of their keys, in the order of the texts. A text that
the node has no part for lists nothing. What is left of a tree if only the parts listed for its kind
are left of every node is an outline of the tree: it says of each node that is left which path leads
to it and where it stands.
-/

namespace SchemaLang

/-- The parts in the slot `k`, each with the step that leads to it. -/
def Slot.parts (slot : Slot) (k : Key) : List (Step × Node) :=
  slot.items.map fun c => ((k, c.1), c.2)

theorem Slot.parts_eq (slot : Slot) (k : Key) :
    slot.parts k =
      slot.children.zipIdx.map fun c => ((k, if slot.arity = .list then some c.2 else none), c.1) :=
  List.map_map

namespace Node

/-- The parts whose key has this text. -/
def partsAt (n : Node) (text : String) : List (Step × Node) :=
  (n.slots.find? fun s => s.1.text = text).elim [] fun s => s.2.parts s.1

/-- The parts whose keys have these texts, in the order of the texts. -/
def listed (n : Node) (texts : List String) : List (Step × Node) := texts.flatMap n.partsAt

end Node

/-- The texts of the keys of all parts, in the order of the source. -/
def schemaTexts (kind : Kind) : List String := (schemaKeys kind).map Key.text

namespace Key

theorem text_of_ofText? {text : String} {k : Key} (h : ofText? text = some k) : k.text = text :=
  of_decide_eq_true (List.find?_some h :)

theorem nodup_ofTexts {texts : List String} (h : texts.Nodup) : (ofTexts texts).Nodup := by
  refine List.Nodup.filterMap (fun text text' k hk hk' => ?_) h
  rw [← text_of_ofText? hk, text_of_ofText? hk']

end Key

namespace Slot

/-- No two parts of a slot have the same place. -/
theorem Proper.nodup_items {slot : Slot} (h : slot.Proper) : (slot.items.map Prod.fst).Nodup := by
  cases h with
  | required => exact List.nodup_singleton none
  | optional _ a? => cases a? <;> simp
  | @list _ s _ as put =>
    have places : (Slot.list s as put).items.map Prod.fst = (as.zipIdx.map Prod.snd).map some := by
      rw [items_list, List.map_map, List.map_map]
      rfl
    rw [places, List.zipIdx_map_snd]
    exact List.Nodup.map (Option.some_injective Nat) List.nodup_range'

end Slot

namespace Node

variable {n c : Node} {k : Key} {slot : Slot} {step : Step} {text : String} {texts : List String}

private theorem find?_text (n : Node) (k : Key) :
    (n.slots.find? fun s => s.1.text = k.text) = (n.slot? k).map (Prod.mk k) := by
  rw [slot?]
  induction n.slots with
  | nil => rfl
  | cons s ss ih =>
    obtain ⟨k', slot⟩ := s
    by_cases hk : k = k'
    · subst hk
      simp
    · have hne : k'.text ≠ k.text := fun h => hk (Key.text_inj.1 h).symm
      have hbeq : (k == k') = false := beq_false_of_ne hk
      simp only [List.find?_cons, hne, decide_false, List.lookup_cons, hbeq]
      exact ih

theorem partsAt_of_slot? (h : n.slot? k = some slot) : n.partsAt k.text = slot.parts k := by
  rw [partsAt, find?_text, h]
  rfl

theorem partsAt_absent (h : n.slot? k = none) : n.partsAt k.text = [] := by
  rw [partsAt, find?_text, h]
  rfl

/-- A text that is no key's lists nothing. -/
theorem partsAt_unknown (h : Key.ofText? text = none) : n.partsAt text = [] := by
  have none : (n.slots.find? fun s => s.1.text = text) = none := by
    refine List.find?_eq_none.2 fun s _ hs => ?_
    rw [← of_decide_eq_true hs, Key.ofText?_text] at h
    exact nomatch h
  rw [partsAt, none]
  rfl

/-- Only the texts of keys list parts. -/
theorem flatMap_ofTexts (n : Node) (texts : List String) :
    ((Key.ofTexts texts).flatMap fun k => n.partsAt k.text) = n.listed texts := by
  induction texts with
  | nil => rfl
  | cons text texts ih =>
    rw [listed, List.flatMap_cons, ← listed, ← ih, Key.ofTexts]
    cases hk : Key.ofText? text with
    | none => rw [List.filterMap_cons_none hk, partsAt_unknown hk, List.nil_append, Key.ofTexts]
    | some k =>
      rw [List.filterMap_cons_some hk, List.flatMap_cons, Key.text_of_ofText? hk, Key.ofTexts]

private theorem exists_slot_of_mem_partsAt {p : Step × Node} (h : p ∈ n.partsAt text) :
    p.1.1.text = text ∧ ∃ slot, n.slot? p.1.1 = some slot ∧ (p.1.2, p.2) ∈ slot.items := by
  rw [partsAt] at h
  cases found : n.slots.find? fun s => s.1.text = text with
  | none =>
    rw [found] at h
    exact nomatch h
  | some s =>
    obtain ⟨k, slot⟩ := s
    rw [found] at h
    obtain ⟨item, hitem, rfl⟩ := List.mem_map.1 h
    have hk : k.text = text := of_decide_eq_true (List.find?_some found :)
    rw [← hk, find?_text] at found
    obtain ⟨slot', hslot, same⟩ := Option.map_eq_some_iff.1 found
    obtain rfl : slot' = slot := (Prod.mk.inj same).2
    exact ⟨hk, slot', hslot, hitem⟩

/-- The step of a listed part leads to it. -/
theorem part?_of_mem_listed {p : Step × Node} (h : p ∈ n.listed texts) :
    n.part? p.1 = some p.2 := by
  obtain ⟨text, -, h⟩ := List.mem_flatMap.1 h
  obtain ⟨-, slot, hslot, hitem⟩ := exists_slot_of_mem_partsAt h
  obtain ⟨before, after, split⟩ := List.append_of_mem hitem
  have distinct := (proper_of_slot? hslot).nodup_items
  rw [split, List.map_append, List.map_cons] at distinct
  have first : ∀ c ∈ before, (p.1.2 != c.1) = true := fun c hc =>
    bne_iff_ne.2 fun same => (List.nodup_middle.1 distinct).notMem <|
      List.mem_append_left _ (List.mem_map.2 ⟨c, hc, same.symm⟩)
  rw [part?, hslot, Option.bind_some]
  exact List.lookup_eq_some_iff.2 ⟨before, after, split, first⟩

private theorem mem_schemaKeys_of_slot? (h : n.slot? k = some slot) : k ∈ schemaKeys n.kind := by
  have all : (n.slots.all fun s => (schemaKeys n.kind).contains s.1) = true := by
    cases n with
    | value v => cases v <;> rfl
    | type t => cases t <;> rfl
    | field owner d => cases owner <;> rfl
    | definition d => cases d using Definition.byResult <;> rfl
    | _ x => rfl
  exact List.contains_iff_mem.1 (List.all_eq_true.1 all _ (mem_slots_of_slot? h))

/-- Every part is listed with the keys of all parts. -/
theorem mem_listed_schemaTexts (h : n.part? step = some c) :
    (step, c) ∈ n.listed (schemaTexts n.kind) := by
  obtain ⟨slot, hslot, hitem⟩ := Option.bind_eq_some_iff.1 h
  obtain ⟨before, after, split, -⟩ := List.lookup_eq_some_iff.1 hitem
  have item : (step.2, c) ∈ slot.items := split ▸ List.mem_append_right before List.mem_cons_self
  refine List.mem_flatMap.2 ⟨step.1.text, List.mem_map_of_mem (mem_schemaKeys_of_slot? hslot), ?_⟩
  rw [partsAt_of_slot? hslot]
  exact List.mem_map.2 ⟨_, item, rfl⟩

/-- What is listed is among all parts. -/
theorem mem_listed_schemaTexts_of_mem {p : Step × Node} (h : p ∈ n.listed texts) :
    p ∈ n.listed (schemaTexts n.kind) :=
  mem_listed_schemaTexts (part?_of_mem_listed h)

private theorem mem_children_of_mem_listed {p : Step × Node} (h : p ∈ n.listed texts) :
    p.2 ∈ n.children := by
  obtain ⟨text, -, h⟩ := List.mem_flatMap.1 h
  obtain ⟨-, slot, hslot, hitem⟩ := exists_slot_of_mem_partsAt h
  obtain ⟨c, hc, same⟩ := List.mem_map.1 hitem
  refine List.mem_flatMap.2 ⟨_, mem_slots_of_slot? hslot, ?_⟩
  rw [← (Prod.mk.inj same).2]
  exact List.fst_mem_of_mem_zipIdx hc

/-- No two listed parts have the same step. -/
theorem nodup_listed (h : texts.Nodup) (n : Node) : ((n.listed texts).map Prod.fst).Nodup := by
  rw [listed, List.map_flatMap, List.nodup_flatMap]
  constructor
  · intro text _
    cases found : n.slots.find? fun s => s.1.text = text with
    | none =>
      rw [partsAt, found]
      exact List.nodup_nil
    | some s =>
      have items := (proper_of_mem_slots s (List.mem_of_find?_eq_some found)).nodup_items
      have steps : (n.partsAt text).map Prod.fst = (s.2.items.map Prod.fst).map (Prod.mk s.1) := by
        rw [partsAt, found, List.map_map]
        exact List.map_map
      rw [steps]
      exact items.map (Prod.mk_right_injective s.1)
  · refine h.imp fun {text text'} hne step hstep hstep' => hne ?_
    obtain ⟨p, hp, rfl⟩ := List.mem_map.1 hstep
    obtain ⟨p', hp', same⟩ := List.mem_map.1 hstep'
    rw [← (exists_slot_of_mem_partsAt hp).1, ← (exists_slot_of_mem_partsAt hp').1, same]

end Node

/-- A node of a tree, with the path that leads to it and where it stands. -/
structure Spot where
  path : Path
  context : Context
  node : Node

/-- What is left of a tree. -/
inductive Outline where
  | node (spot : Spot) (parts : List Outline)

namespace Outline

/-- Every node before its parts. -/
def preorder : Outline → List Spot
  | node spot parts => spot :: parts.flatMap fun part => part.preorder

/-- Every node after its parts. -/
def postorder : Outline → List Spot
  | node spot parts => (parts.flatMap fun part => part.postorder) ++ [spot]

/-- Every node twice, before its parts and after them. -/
def tour : Outline → List (Side × Spot)
  | node spot parts => (.enter, spot) :: ((parts.flatMap fun part => part.tour) ++ [(.leave, spot)])

end Outline

/-- Where the part stands to which a step leads from the last of these ancestors. -/
def Context.at (ancestors : List Kind) (step : Step) : Context := ⟨some step.1, step.2, ancestors⟩

/-- The outline of the tree `n`, which stands at `context` at the end of `path`, if only the parts
with these texts are left of every node. -/
def Node.outline (texts : Kind → List String) (path : Path) (context : Context) (n : Node) :
    Outline :=
  .node ⟨path, context, n⟩ <| (n.listed (texts n.kind)).attach.map fun p =>
    outline texts (path ++ [p.1.1]) (.at (context.ancestors ++ [n.kind]) p.1.1) p.1.2
termination_by sizeOf n
decreasing_by exact sizeOf_lt_of_mem_children (mem_children_of_mem_listed p.2)

namespace Outline

variable (side : Side)

/-- The spots on this side of a tour. -/
def onSide (side : Side) (tour : List (Side × Spot)) : List Spot :=
  (tour.filter fun e => e.1 = side).map Prod.snd

private theorem onSide_append (tour tour' : List (Side × Spot)) :
    onSide side (tour ++ tour') = onSide side tour ++ onSide side tour' := by
  simp [onSide]

private theorem onSide_flatMap {α : Type} (f : α → List (Side × Spot)) (as : List α) :
    onSide side (as.flatMap f) = as.flatMap fun a => onSide side (f a) := by
  induction as with
  | nil => rfl
  | cons a as ih => rw [List.flatMap_cons, onSide_append, ih, List.flatMap_cons]

theorem onSide_tour_enter (o : Outline) : onSide .enter o.tour = o.preorder := by
  obtain ⟨spot, parts⟩ := o
  have each : ∀ part ∈ parts, onSide .enter part.tour = part.preorder :=
    fun part _ => onSide_tour_enter part
  have last : onSide .enter [(.leave, spot)] = [] := rfl
  rw [tour, preorder, ← List.singleton_append, onSide_append, onSide_append, onSide_flatMap, last,
    List.append_nil, List.flatMap_congr each]
  rfl

theorem onSide_tour_leave (o : Outline) : onSide .leave o.tour = o.postorder := by
  obtain ⟨spot, parts⟩ := o
  have each : ∀ part ∈ parts, onSide .leave part.tour = part.postorder :=
    fun part _ => onSide_tour_leave part
  have first : onSide .leave [(.enter, spot)] = [] := rfl
  rw [tour, postorder, ← List.singleton_append, onSide_append, onSide_append, onSide_flatMap, first,
    List.nil_append, List.flatMap_congr each]
  rfl

end Outline

namespace Node

variable {texts : Kind → List String} {path : Path} {context : Context} {n m : Node}

theorem outline_eq (texts : Kind → List String) (path : Path) (context : Context) (n : Node) :
    n.outline texts path context = .node ⟨path, context, n⟩ ((n.listed (texts n.kind)).map fun p =>
      p.2.outline texts (path ++ [p.1]) (.at (context.ancestors ++ [n.kind]) p.1)) := by
  rw [outline]
  simp only [List.map_subtype, List.unattach_attach]

private theorem preorder_outline (texts : Kind → List String) (path : Path)
    (context : Context) (n : Node) : (n.outline texts path context).preorder =
      ⟨path, context, n⟩ :: (n.listed (texts n.kind)).flatMap fun p =>
      (p.2.outline texts (path ++ [p.1]) (.at (context.ancestors ++ [n.kind]) p.1)).preorder := by
  rw [outline_eq, Outline.preorder, List.flatMap_map]

/-- The paths of an outline lead to its nodes. -/
theorem exists_follow?_of_mem {spot : Spot} (h : spot ∈ (n.outline texts path context).preorder) :
    ∃ rest, spot.path = path ++ rest ∧ n.follow? rest = some spot.node := by
  induction n using inductParts generalizing path context with
  | step n ih =>
    rw [preorder_outline] at h
    rcases List.mem_cons.1 h with rfl | h
    · exact ⟨[], (List.append_nil path).symm, rfl⟩
    · obtain ⟨p, hp, h⟩ := List.mem_flatMap.1 h
      obtain ⟨rest, hpath, hnode⟩ := ih p.2 (mem_children_of_mem_listed hp) h
      refine ⟨p.1 :: rest, by rw [hpath, List.append_assoc, List.singleton_append], ?_⟩
      rw [follow?, part?_of_mem_listed hp, Option.bind_some, hnode]

/-- If all parts are listed, the outline has the node that a path leads to. -/
theorem exists_mem_of_follow? {rest : Path} (path : Path) (context : Context)
    (h : n.follow? rest = some m) :
    ∃ context', ⟨path ++ rest, context', m⟩ ∈ (n.outline schemaTexts path context).preorder := by
  induction rest generalizing n path context with
  | nil =>
    obtain rfl := Option.some.inj h
    rw [preorder_outline, List.append_nil]
    exact ⟨context, List.mem_cons_self⟩
  | cons step rest ih =>
    obtain ⟨c, hpart, hrest⟩ := Option.bind_eq_some_iff.1 h
    obtain ⟨context', hmem⟩ := ih (path ++ [step]) (.at (context.ancestors ++ [n.kind]) step) hrest
    have extended : path ++ step :: rest = path ++ [step] ++ rest := List.append_cons path step rest
    rw [preorder_outline, extended]
    exact ⟨context',
      List.mem_cons_of_mem _ (List.mem_flatMap.2 ⟨_, mem_listed_schemaTexts hpart, hmem⟩)⟩

/-- An outline has nothing that the outline with all parts does not have. -/
theorem preorder_subset_schemaTexts (texts : Kind → List String) (path : Path)
    (context : Context) (n : Node) :
    (n.outline texts path context).preorder ⊆ (n.outline schemaTexts path context).preorder := by
  induction n using inductParts generalizing path context with
  | step n ih =>
    rw [preorder_outline, preorder_outline]
    refine List.cons_subset_cons _ fun spot h => ?_
    obtain ⟨p, hp, h⟩ := List.mem_flatMap.1 h
    exact List.mem_flatMap.2 ⟨p, mem_listed_schemaTexts_of_mem hp,
      ih p.2 (mem_children_of_mem_listed hp) _ _ h⟩

/-- No path leads to two nodes of an outline if no text is listed twice for a kind. -/
theorem nodup_outline (h : ∀ kind, (texts kind).Nodup) (path : Path)
    (context : Context) (n : Node) :
    ((n.outline texts path context).preorder.map Spot.path).Nodup := by
  induction n using inductParts generalizing path context with
  | step n ih =>
    rw [preorder_outline, List.map_cons, List.map_flatMap, List.nodup_cons, List.nodup_flatMap]
    refine ⟨fun hroot => ?_, fun p hp => ih p.2 (mem_children_of_mem_listed hp) _ _, ?_⟩
    · obtain ⟨p, -, hpath⟩ := List.mem_flatMap.1 hroot
      obtain ⟨spot, hspot, same⟩ := List.mem_map.1 hpath
      obtain ⟨rest, hrest, -⟩ := exists_follow?_of_mem hspot
      simp [hrest] at same
    · have steps := List.pairwise_map.1 (nodup_listed (h n.kind) n)
      refine steps.imp fun {p p'} hne shared hpath hpath' => hne ?_
      obtain ⟨spot, hspot, rfl⟩ := List.mem_map.1 hpath
      obtain ⟨spot', hspot', same⟩ := List.mem_map.1 hpath'
      obtain ⟨rest, hrest, -⟩ := exists_follow?_of_mem hspot
      obtain ⟨rest', hrest', -⟩ := exists_follow?_of_mem hspot'
      rw [hrest, hrest', List.append_assoc, List.append_assoc] at same
      exact (List.cons.inj (List.append_cancel_left same)).1.symm

end Node

end SchemaLang
