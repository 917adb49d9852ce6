import SchemaLang.Printer.Print
import SchemaLang.Printer.Render
import SchemaLang.Proofs.Traversal.Kept

/-!
# Printing with a stack

A node prints as its canonical text. On leaving a node the stack holds, above the mark of the node,
the texts of its parts and nothing else; laid out, they are the text of the node.
-/

namespace SchemaLang

namespace Texts

variable {α : Type}

@[simp] theorem pure_run (a : α) (ts : List String) : (pure a : Texts α) ts = (a, ts) := rfl

@[simp] theorem one_bind (f : String → Texts α) (t : String) (ts : List String) :
    (one >>= f) (t :: ts) = f t ts := rfl

@[simp] theorem many_bind {β : Type} (f : List String → Texts α) (as : List β) (text : β → String)
    (ts : List String) : (many as.length >>= f) (as.map text ++ ts) = f (as.map text) ts := by
  have taken : (as.map text ++ ts).take as.length = as.map text :=
    List.take_left' (List.length_map text)
  have dropped : (as.map text ++ ts).drop as.length = ts := List.drop_left' (List.length_map text)
  change f ((as.map text ++ ts).take as.length) ((as.map text ++ ts).drop as.length) = _
  rw [taken, dropped]

@[simp] theorem many_bind_last {β : Type} (f : List String → Texts α) (as : List β)
    (text : β → String) : (many as.length >>= f) (as.map text) = f (as.map text) [] := by
  have last := many_bind f as text []
  rwa [List.append_nil] at last

@[simp] theorem many_map {β : Type} (f : List String → α) (as : List β) (text : β → String) :
    (f <$> many as.length) (as.map text) = (f (as.map text), []) :=
  many_bind_last (fun ts => pure (f ts)) as text

@[simp] theorem maybe_bind {β : Type} (f : String → Texts α) (a? : Option β) (text : β → String)
    (ts : List String) :
    (maybe a?.isSome >>= f) (a?.toList.map text ++ ts) = f ((a?.map text).getD "") ts := by
  cases a? <;> rfl

end Texts

private theorem renderValues_eq_map (vs : List Value) : renderValues vs = vs.map (·.render) := by
  induction vs with
  | nil => rfl
  | cons v vs ih => rw [renderValues, ih, List.map_cons]

private theorem renderFields_eq_map (fs : List ObjectField) :
    renderFields fs = fs.map (·.render) := by
  induction fs with
  | nil => rfl
  | cons f fs ih =>
    obtain ⟨name, value, loc⟩ := f
    rw [renderFields, ih, List.map_cons]
    rfl

namespace Node

/-- The canonical text of a node below a node of kind `parent`. An object leaves its description out
of the extension around it. -/
def renderBelow (parent : Option Kind) : Node → String
  | .definition (.object d) =>
    if parent = some .typeExtensionDefinition then d.renderBare else d.render
  | n => n.render

theorem renderBelow_of_ne {parent : Option Kind}
    (h : parent ≠ some .typeExtensionDefinition) (n : Node) : n.renderBelow parent = n.render := by
  unfold renderBelow
  split
  · rw [if_neg h]
    rfl
  · rfl

/-- What the parts of a node print as. -/
def partTexts (n : Node) : List String := n.children.map (renderBelow (some n.kind))

private theorem assemble_value (parent : Option Kind) (v : Value) :
    (Node.value v).assemble parent (Node.value v).partTexts = (v.render, []) := by
  cases v <;>
    simp [assemble, Value.assemble, partTexts, children, slots, Value.slots,
      Slot.required, Slot.list, PartSort.name, PartSort.value, PartSort.objectField, Value.render,
      renderBelow, render, renderValues_eq_map, renderFields_eq_map, Function.comp_def]

private theorem assemble_type (parent : Option Kind) (t : TypeRef) :
    (Node.type t).assemble parent (Node.type t).partTexts = (t.render, []) := by
  cases t <;>
    simp [assemble, TypeRef.assemble, Texts.hop, partTexts, children, slots,
      TypeRef.slots, Slot.required, Slot.optional, Slot.list, PartSort.name, PartSort.type,
      PartSort.namedType, PartSort.connection, TypeRef.render, renderBelow, render,
      Function.comp_def] <;>
    rfl

private theorem assemble_document (parent : Option Kind) (d : Document) :
    (Node.document d).assemble parent (Node.document d).partTexts = (d.render, []) := by
  have below : renderBelow (some (Node.document d).kind) = render :=
    funext (renderBelow_of_ne (by simp [kind]))
  have parts : (Node.document d).children = d.definitions.map Node.definition := List.append_nil _
  rw [partTexts, below, parts, List.map_map]
  exact Texts.many_map Layout.document d.definitions _

private theorem assemble_definition (parent : Option Kind) (d : Definition) :
    (Node.definition d).assemble parent (Node.definition d).partTexts =
      ((Node.definition d).renderBelow parent, []) := by
  cases d using Definition.byResult <;>
    simp [assemble, Definition.assemble, Texts.entriesOf, Texts.operation, Texts.targeted,
      partTexts, children, slots, Definition.slots, OperationDefinition.slots, OperationResult.slot,
      Slot.required, Slot.list, PartSort.name, PartSort.type, PartSort.namedType,
      PartSort.directive, PartSort.inputValue, PartSort.field, PartSort.enumValue,
      PartSort.objectType, PartSort.condition, PartSort.ordering, renderBelow, render, kind,
      Definition.kind, Function.comp_def, Definition.render] <;>
    rfl

/-- A node is laid out from the texts of its parts as its canonical text, and no text of a part
is left over. -/
theorem assemble_partTexts (parent : Option Kind) (n : Node) :
    n.assemble parent n.partTexts = (n.renderBelow parent, []) := by
  cases n with
  | value v => exact assemble_value parent v
  | type t => exact assemble_type parent t
  | definition d => exact assemble_definition parent d
  | document d => exact assemble_document parent d
  | name => rfl
  | _ x =>
    simp [assemble, Texts.member, Texts.field, partTexts, children, slots, Slot.required,
      Slot.optional, Slot.list, PartSort.name, PartSort.value, PartSort.argument,
      PartSort.directive, PartSort.type, PartSort.inputValue, PartSort.enumValue, PartSort.object,
      renderBelow, render, Function.comp_def]
    rfl

end Node

namespace Printing

/-- One more text on the stack. -/
def put (p : Printing) (text : String) : Printing := { p with stack := p.stack.push text }

/-- The texts of these nodes on the stack, one after the other. -/
def putParts (parent : Option Kind) (p : Printing) (ns : List Node) : Printing :=
  Walk.moved (fun c p => p.put (c.renderBelow parent)) p ns

theorem putParts_eq (parent : Option Kind) (p : Printing) (ns : List Node) :
    p.putParts parent ns =
      { p with stack := p.stack ++ (ns.map (Node.renderBelow parent)).toArray } := by
  induction ns generalizing p with
  | nil => simp [putParts, Walk.moved]
  | cons n ns ih =>
    change (p.put (n.renderBelow parent)).putParts parent ns = _
    rw [ih]
    simp [put]

/-- Above the mark of an open node stand the texts of its parts. -/
theorem texts_putParts (p : Printing) (n : Node) :
    (p.enter.putParts (some n.kind) n.children).texts = n.partTexts := by
  rw [putParts_eq]
  have all : (n.children.map (Node.renderBelow (some n.kind))).take n.children.length =
      n.partTexts :=
    List.take_of_length_le (Nat.le_of_eq (List.length_map _))
  simpa [texts, enter] using all

/-- A node that is left leaves its own text in place of those of its parts. -/
theorem leave_putParts (p : Printing) (parent : Option Kind) (n : Node) :
    (p.enter.putParts (some n.kind) n.children).leave parent n = p.put (n.renderBelow parent) := by
  rw [leave, texts_putParts, Node.assemble_partTexts, putParts_eq]
  simp [enter, put]

/-- The walk of a node puts one text on the stack and answers the node. -/
theorem walk_node (limit : Nat) :
    ∀ (n : Node) (context : Context) (p : Printing), n.height ≤ limit →
      Walk.node visitor schemaKeys limit context n ⟨p, false⟩ =
        (.ok (some n), ⟨p.put (n.renderBelow context.parent), false⟩) := by
  -- By the limit rather than the node: the walk counts it down and finds the parts
  -- through their slots.
  induction limit with
  | zero =>
    intro n context p limited
    have positive := n.height_pos
    omega
  | succ limit ih =>
    intro n context p limited
    have keeps : ∀ c ∈ n.children,
      Walk.Keeps (Walk.node visitor schemaKeys limit) (context.ancestors ++ [n.kind])
        (fun c p => p.put (c.renderBelow (some n.kind))) c := by
      intro c hc k place q
      have lower := Node.height_lt_of_mem_children hc
      have part := ih c ⟨some k, place, context.ancestors ++ [n.kind]⟩ q (by omega)
      rwa [Context.parent, List.getLast?_concat] at part
    refine Walk.node_of_keeps rfl keeps ?_
    exact congrArg (Prod.mk Action.keep) (leave_putParts p context.parent n)

end Printing

/-- A node prints as its canonical text. -/
theorem Node.print_eq_render (n : Node) : n.print = n.render := by
  have walked := Printing.walk_node n.height n .root .start (Nat.le_refl _)
  have root : n.renderBelow Context.root.parent = n.render :=
    Node.renderBelow_of_ne (by simp [Context.parent, Context.root]) n
  rw [Node.print, Node.visit, Node.visitWith, walked, root]
  rfl

end SchemaLang
