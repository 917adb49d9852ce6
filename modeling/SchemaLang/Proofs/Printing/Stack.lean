import SchemaLang.Proofs.Printing.Refinement
import SchemaLang.Proofs.Traversal.Protocol

/-!
# The stack of the printer

Whenever a node is left, the texts above its mark are those of its parts, one for each that is there
and in the order of the source, and laying the node out takes just as many. So no text is made up
for a part that is missing, none is passed over, and printing is the plain recursion that lays a
node out from what its parts print as.
-/

namespace SchemaLang

namespace Texts

variable {α β : Type}

/-- Takes the first `count` texts: the others are left, and do not matter. -/
def Takes (p : Texts α) (count : Nat) : Prop :=
  ∀ ts rest, ts.length = count → p (ts ++ rest) = ((p ts).1, rest)

private theorem takes_pure (a : α) : (pure a : Texts α).Takes 0 := by
  intro ts rest none
  rw [List.eq_nil_of_length_eq_zero none]
  rfl

private theorem takes_one : one.Takes 1 := by
  intro ts rest single
  obtain ⟨t, rfl⟩ := List.length_eq_one_iff.1 single
  rfl

private theorem takes_many (count : Nat) : (many count).Takes count := by
  intro ts rest all
  have taken : (ts ++ rest).take count = ts.take count :=
    List.take_append_of_le_length (Nat.le_of_eq all.symm)
  exact Prod.ext taken (List.drop_left' all)

private theorem takes_maybe {γ : Type} (part? : Option γ) :
    (maybe part?.isSome).Takes part?.toList.length := by
  cases part? with
  | none => exact takes_pure ""
  | some a => exact takes_one

theorem Takes.bind {p : Texts α} {f : α → Texts β} {a b : Nat} (hp : p.Takes a)
    (hf : ∀ x, (f x).Takes b) : (p >>= f).Takes (a + b) := by
  intro ts rest all
  have first : (ts.take a).length = a := List.length_take_of_le (by omega)
  have second : (ts.drop a).length = b := by simp [all]
  have alone : p ts = ((p (ts.take a)).1, ts.drop a) := by
    simpa only [List.take_append_drop] using hp (ts.take a) (ts.drop a) first
  have followed : p (ts ++ rest) = ((p (ts.take a)).1, ts.drop a ++ rest) := by
    have longer := hp (ts.take a) (ts.drop a ++ rest) first
    rwa [← List.append_assoc, List.take_append_drop] at longer
  change f (p (ts ++ rest)).1 (p (ts ++ rest)).2 = ((f (p ts).1 (p ts).2).1, rest)
  rw [alone, followed]
  exact hf _ _ rest second

private theorem takes_member :
    member.Takes 2 := takes_one.bind fun _ => takes_one.bind fun _ => takes_pure _

private theorem takes_hop (direction : Direction) (cardinality : Cardinality)
    (label : Option NamedType) :
    (hop direction cardinality label).Takes (label.toList.length + 1) :=
  (takes_maybe label).bind fun _ => takes_one.bind fun _ => takes_pure _

private theorem takes_field (d : FieldDefinition) :
    (field d).Takes (1 + (d.arguments.length + (1 + d.directives.length))) :=
  takes_one.bind fun _ => (takes_many _).bind fun _ => takes_one.bind fun _ =>
    (takes_many _).bind fun _ => takes_pure _

private theorem takes_entriesOf (keyword : String) (description : Option String)
    (directives entries : Nat) :
    (entriesOf keyword description directives entries).Takes (1 + (directives + entries)) :=
  takes_one.bind fun _ => (takes_many _).bind fun _ => (takes_many _).bind fun _ => takes_pure _

private theorem takes_targeted (keyword : String) (description : Option String) (entries : Nat) :
    (targeted keyword description entries).Takes (1 + entries) :=
  takes_one.bind fun _ => (takes_many _).bind fun _ => takes_pure _

/-- How many texts there are for what an operation answers. -/
def results : OperationResult → Nat
  | .type _ => 1
  | .fields ds => ds.length

private theorem takes_operation (keyword : String) (d : OperationDefinition) :
    (operation keyword d).Takes
      (1 + (d.arguments.length + (d.directives.length + results d.result))) := by
  refine takes_one.bind fun _ => (takes_many _).bind fun _ => (takes_many _).bind fun _ => ?_
  cases d.result with
  | type => exact takes_one.bind fun _ => takes_pure _
  | fields => exact (takes_many _).bind fun _ => takes_pure _

end Texts

namespace Slot

variable {α : Type} {s : PartSort α}

@[simp] theorem length_required (a : α) (put : α → Node) :
    (required s a put).children.length = 1 := rfl

@[simp] theorem length_optional (a? : Option α) (put : Option α → Node) :
    (optional s a? put).children.length = a?.toList.length := List.length_map _

@[simp] theorem length_list (as : List α) (put : List α → Node) :
    (list s as put).children.length = as.length :=
  List.length_map _

@[simp] theorem length_result (owner : FieldOwner) (put : OperationResult → Node)
    (r : OperationResult) : (r.slot owner put).2.children.length = Texts.results r := by
  cases r with
  | type => rfl
  | fields ds => exact List.length_map _

end Slot

open Texts

private theorem Value.takes_assemble (v : Value) :
    v.assemble.Takes (Node.value v).children.length := by
  cases v <;>
    simp only [Node.children, Node.slots, Value.slots, List.flatMap_cons, List.flatMap_nil,
      List.length_append, List.length_nil, Slot.length_required, Slot.length_list]
  case var => exact takes_one.bind fun _ => takes_pure _
  case list => exact (takes_many _).bind fun _ => takes_pure _
  case object => exact (takes_many _).bind fun _ => takes_pure _
  all_goals exact takes_pure _

private theorem TypeRef.takes_assemble (t : TypeRef) :
    t.assemble.Takes (Node.type t).children.length := by
  cases t <;>
    simp only [Node.children, Node.slots, TypeRef.slots, List.flatMap_cons, List.flatMap_nil,
      List.length_append, List.length_nil, Slot.length_required, Slot.length_optional,
      Slot.length_list]
  case named => exact takes_one
  case list => exact takes_one.bind fun _ => takes_pure _
  case nonNull => exact takes_one.bind fun _ => takes_pure _
  case connection t => exact takes_hop _ _ t.edgeLabel
  case connectionJoin => exact (takes_many _).bind fun _ => takes_pure _
  case edge t => exact takes_hop _ _ t.edgeLabel

private theorem Definition.takes_assemble (parent : Option Kind) (d : Definition) :
    (d.assemble parent).Takes (Node.definition d).children.length := by
  cases d <;> simp only [Node.children, Node.slots, Definition.slots, OperationDefinition.slots,
    List.flatMap_cons, List.flatMap_nil, List.length_append, List.length_nil, Slot.length_required,
    Slot.length_list, Slot.length_result]
  case scalar => exact takes_one.bind fun _ => (takes_many _).bind fun _ => takes_pure _
  case object =>
    exact takes_one.bind fun _ => (takes_many _).bind fun _ => (takes_many _).bind fun _ =>
        (takes_many _).bind fun _ =>
      takes_pure _
  case interface => exact takes_entriesOf _ _ _ _
  case union =>
    exact takes_one.bind fun _ => (takes_many _).bind fun _ =>
      (takes_many _).bind fun _ => takes_pure _
  case enum => exact takes_entriesOf _ _ _ _
  case inputObject => exact takes_entriesOf _ _ _ _
  case typeExtension => exact takes_one.bind fun _ => takes_pure _
  case directive =>
    exact takes_one.bind fun _ => (takes_many _).bind fun _ =>
      (takes_many _).bind fun _ => takes_pure _
  case mutation d => exact takes_operation _ d
  case query d => exact takes_operation _ d
  case filter => exact takes_targeted _ _ _
  case order => exact takes_targeted _ _ _

/-- A node is laid out from as many texts as it has parts. -/
theorem Node.takes_assemble (parent : Option Kind) (n : Node) :
    (n.assemble parent).Takes n.children.length := by
  cases n
  case value v => exact v.takes_assemble
  case type t => exact t.takes_assemble
  case definition d => exact d.takes_assemble parent
  all_goals simp only [Node.children, Node.slots, List.flatMap_cons, List.flatMap_nil,
    List.length_append, List.length_nil, Slot.length_required, Slot.length_optional,
    Slot.length_list]
  case name => exact takes_pure _
  case document => exact (takes_many _).bind fun _ => takes_pure _
  case objectField => exact takes_member
  case argument => exact takes_member
  case directive => exact takes_one.bind fun _ => (takes_many _).bind fun _ => takes_pure _
  case inputValue d =>
    exact takes_one.bind fun _ => takes_one.bind fun _ => (takes_maybe d.defaultValue).bind fun _ =>
      (takes_many _).bind fun _ => takes_pure _
  case field d => exact takes_field d
  case enumValue => exact takes_one.bind fun _ => (takes_many _).bind fun _ => takes_pure _
  case condition =>
    exact takes_one.bind fun _ => (takes_many _).bind fun _ => takes_one.bind fun _ => takes_pure _
  case ordering => exact takes_one.bind fun _ => (takes_many _).bind fun _ => takes_pure _

namespace Node

/-- The nodes of a tree, each after its parts. -/
def postorder (n : Node) :
    List Node := (n.children.attach.map fun c => postorder c.1).flatten ++ [n]
termination_by sizeOf n
decreasing_by exact sizeOf_lt_of_mem_children c.2

private theorem postorder_eq (n : Node) : n.postorder = n.children.flatMap postorder ++ [n] := by
  rw [postorder, List.attach_map_val, List.flatMap_def]

end Node

/-- The node that the call leaves. -/
def Call.left? {σ : Type} (c : Call σ) : Option Node :=
  match c.side with
  | .enter => none
  | .leave => some c.node

namespace Printing

/-- Above the innermost mark stand the texts of the parts of `n`. -/
def HoldsParts (p : Printing) (n : Node) : Prop :=
  ∃ below marks, p = ⟨below ++ n.partTexts.toArray, below.size :: marks⟩

private theorem putParts_append (parent : Option Kind) (p : Printing) (ns ms : List Node) :
    p.putParts parent (ns ++ ms) = (p.putParts parent ns).putParts parent ms :=
  Walk.moved_append _ p ns ms

/-- The calls that print these nodes below a node of kind `parent`, one after the other, and take
the printer from `p` to `q`. -/
structure Prints (parent : Option Kind) (p : Printing) (ns : List Node)
    (calls : List (Call Printing)) (q : Printing) : Prop where
  state : q = p.putParts parent ns
  left : calls.filterMap Call.left? = ns.flatMap Node.postorder
  holds : ∀ c ∈ calls, c.side = .leave → c.state.HoldsParts c.node

namespace Prints

variable {parent : Option Kind} {p q r : Printing} {ns ms : List Node}
  {calls calls' : List (Call Printing)}

theorem nil : Prints parent p [] [] p := ⟨rfl, rfl, List.forall_mem_nil _⟩

theorem append (h : Prints parent p ns calls q) (h' : Prints parent q ms calls' r) :
    Prints parent p (ns ++ ms) (calls ++ calls') r where
  state := by rw [h'.state, h.state, putParts_append]
  left := by rw [List.filterMap_append, h.left, h'.left, List.flatMap_append]
  holds := List.forall_mem_append.2 ⟨h.holds, h'.holds⟩

theorem node {n : Node} {context : Context} (h : Prints (some n.kind) p.enter n.children calls q) :
    Prints context.parent p [n] (⟨.enter, n, context, p, .keep⟩ ::
      (calls ++ [⟨.leave, n, context, q, .keep⟩])) (q.leave context.parent n) where
  state := by
    rw [h.state, leave_putParts]
    rfl
  left := by
    let last : Call Printing := ⟨.leave, n, context, q, .keep⟩
    have inner : (calls ++ [last]).filterMap Call.left? = n.postorder := by
      rw [List.filterMap_append, h.left, n.postorder_eq]
      rfl
    have single : [n].flatMap Node.postorder = n.postorder := List.flatMap_singleton _ _
    exact inner.trans single.symm
  holds := by
    have full : q.HoldsParts n := by
      refine ⟨p.stack, p.marks, ?_⟩
      rw [h.state, putParts_eq]
      rfl
    intro c hc side
    rcases List.mem_cons.1 hc with rfl | hc
    · cases side
    rcases List.mem_append.1 hc with hc | hc
    · exact h.holds c hc side
    · obtain rfl := List.mem_singleton.1 hc
      exact full

end Prints

end Printing

open Call Printing

mutual

theorem Visited.prints {context : Context} {n : Node} {calls : List (Call Printing)}
    {n? : Option Node} {ended : Bool} {p q : Printing}
    (h : Visited schemaKeys context n calls n? ended) (run : Run visitor p calls q) :
    (n? = some n ∧ ended = false) ∧ Prints context.parent p [n] calls q := by
  match h with
  | .passed closed =>
    obtain ⟨-, rfl, -⟩ := run.of_cons
    exact nomatch closed
  | .cut (r := r) opened inside =>
    obtain ⟨-, -, run⟩ := run.of_cons
    exact absurd (inside.prints run).1.2 nofun
  | .left opened inside =>
    obtain ⟨rfl, rfl, run'⟩ := run.of_cons
    obtain ⟨t, run', last⟩ := run'.of_append
    obtain ⟨⟨rfl, -⟩, prints⟩ := inside.prints run'
    obtain rfl := Option.some.inj opened
    rw [Node.children_of_schemaKeys, List.getLast?_concat] at prints
    obtain ⟨rfl, rfl, stop⟩ := last.of_cons
    cases stop
    exact ⟨⟨rfl, rfl⟩, prints.node⟩

theorem VisitedParts.prints {ancestors : List Kind} {ks : List Key} {n m : Node}
    {calls : List (Call Printing)} {ended : Bool} {p q : Printing}
    (h : VisitedParts schemaKeys ancestors ks n calls m ended) (run : Run visitor p calls q) :
    (m = n ∧ ended = false) ∧
    Prints ancestors.getLast? p ((ks.filterMap n.slot?).flatMap (·.children)) calls q := by
  match h with
  | .done =>
    cases run
    exact ⟨⟨rfl, rfl⟩, .nil⟩
  | .absent hslot rest =>
    rw [List.filterMap_cons_none hslot]
    exact rest.prints run
  | .slot hslot items refills rest =>
    obtain ⟨t, run, run'⟩ := run.of_append
    obtain ⟨⟨kept, -⟩, first⟩ := items.prints run
    obtain ⟨⟨same, notEnded⟩, others⟩ := rest.prints run'
    rw [kept, (Node.fits_of_mem_slots (Node.mem_slots_of_slot? hslot)).fill] at same others
    rw [List.filterMap_cons_some hslot, List.flatMap_cons]
    exact ⟨⟨same, notEnded⟩, first.append others⟩
  | .last _ items _ => exact absurd (items.prints run).1.2 nofun

theorem VisitedItems.prints {ancestors : List Kind} {k : Key} {slot : Slot} {index : Nat}
    {ns kept : List Node} {calls : List (Call Printing)} {ended : Bool} {p q : Printing}
    (h : VisitedItems schemaKeys ancestors k slot index ns calls kept ended)
    (run : Run visitor p calls q) :
    (kept = ns ∧ ended = false) ∧ Prints ancestors.getLast? p ns calls q := by
  match h with
  | .done =>
    cases run
    exact ⟨⟨rfl, rfl⟩, .nil⟩
  | .item visited _ rest =>
    obtain ⟨t, run, run'⟩ := run.of_append
    obtain ⟨⟨rfl, -⟩, first⟩ := visited.prints run
    obtain ⟨⟨rfl, notEnded⟩, others⟩ := rest.prints run'
    exact ⟨⟨rfl, notEnded⟩, first.append others⟩
  | .last visited _ => exact absurd (visited.prints run).1.2 nofun

end

namespace Node

/-- The parts of a node that are there, in the order of its keys. -/
def present (n : Node) : List Node := ((schemaKeys n.kind).filterMap n.slot?).flatMap (·.children)

/-- What a part of a node of kind `parent` prints as: what it does on its own, but the object in an
extension without its description. -/
def printBelow (parent : Kind) : Node → String
  | .definition (.object d) =>
    if parent =
      .typeExtensionDefinition then (Node.definition (.object { d with description := none })).print
    else (Node.definition (.object d)).print
  | n => n.print

private theorem present_eq (n : Node) : n.present = n.children := n.children_of_schemaKeys

private theorem printBelow_eq (parent : Kind) (n : Node) :
    n.printBelow parent = n.renderBelow (some parent) := by
  unfold printBelow
  split
  · simp only [print_eq_render, renderBelow, Option.some.injEq]
    rfl
  · unfold renderBelow
    split
    · rename_i noObject
      exact absurd rfl (noObject _)
    · exact print_eq_render _

private theorem partTexts_eq (n : Node) : n.partTexts = n.present.map (printBelow n.kind) := by
  rw [partTexts, present_eq, funext (printBelow_eq n.kind)]

private theorem renderBelow_root (n : Node) : n.renderBelow none = n.print :=
  (renderBelow_of_ne (by decide) n).trans n.print_eq_render.symm

private theorem visit_print (n : Node) :
    n.visit Printing.visitor .start = (.ok (some n), ⟨#[n.print], []⟩) := by
  have walked := Printing.walk_node n.height n .root .start (Nat.le_refl n.height)
  have root : n.renderBelow Context.root.parent = n.print := n.renderBelow_root
  rw [visit, visitWith, walked, root]
  rfl

/-- Printing with a stack is a recursion. Every node is left once, after its parts. Above its mark
there are then the texts of the parts that are there, in the order of the keys, and the node takes
just as many. In the end there is one text on the stack and no mark. So a node prints as it is laid
out from what its parts print as. -/
theorem print_recursion (n : Node) :
    n.visit Printing.visitor .start = (.ok (some n), ⟨#[n.print], []⟩) ∧
      (n.calls schemaKeys n.height Printing.visitor .start).filterMap Call.left? = n.postorder ∧
      (∀ c ∈ n.calls schemaKeys n.height Printing.visitor .start, c.side = .leave →
        (∃ below marks,
          c.state =
            ⟨below ++ (c.node.present.map (printBelow c.node.kind)).toArray, below.size :: marks⟩) ∧
        (c.node.assemble c.context.parent).Takes c.node.present.length) ∧
      n.print = (n.assemble none (n.present.map (printBelow n.kind))).1 ∧ n.print = n.render := by
  have answered : (n.visitWith schemaKeys n.height Printing.visitor .start).1 = .ok (some n) :=
    congrArg Prod.fst n.visit_print
  obtain ⟨ended, visited, run⟩ := exists_visited answered
  have prints := (visited.prints run).2
  have inOrder := prints.left.trans (List.flatMap_singleton Node.postorder n)
  refine ⟨n.visit_print, inOrder, fun c hc side => ⟨?_, ?_⟩, ?_, n.print_eq_render⟩
  · exact c.node.partTexts_eq ▸ prints.holds c hc side
  · rw [present_eq]
    exact takes_assemble c.context.parent c.node
  · rw [← partTexts_eq, assemble_partTexts, renderBelow_root]

end Node

end SchemaLang
