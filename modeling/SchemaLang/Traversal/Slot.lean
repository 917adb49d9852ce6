import SchemaLang.Ast.Node
import SchemaLang.Traversal.Key

/-!
# Slots

A slot is a place for parts in a node: for one that must be there, for one that may be, or for a
list. It shows the parts that are in it as nodes, says which nodes it admits, and can be filled
anew. `Node.slots` is the one table of what every kind of node consists of; nothing else about a
node changes when one of its slots is filled.
-/

namespace SchemaLang

/-- The parts of one sort: each is a node, and a node is at most one of them. -/
structure PartSort (α : Type) where
  node : α → Node
  part? : Node → Option α
  part?_eq_some_iff : ∀ n a, part? n = some a ↔ n = node a

namespace PartSort

def name : PartSort Name where
  node := .name
  part?
    | .name n => some n
    | _ => none
  part?_eq_some_iff := by grind

/-- Values of any kind. -/
def value : PartSort Value where
  node := .value
  part?
    | .value v => some v
    | _ => none
  part?_eq_some_iff := by grind

/-- Objects only. -/
def object : PartSort ObjectValue where
  node o := .value o.toValue
  part?
    | .value (.object fields loc) => some ⟨fields, loc⟩
    | _ => none
  part?_eq_some_iff n o := by
    obtain ⟨fields, loc⟩ := o
    split <;> simp_all [ObjectValue.toValue]

def objectField : PartSort ObjectField where
  node := .objectField
  part?
    | .objectField f => some f
    | _ => none
  part?_eq_some_iff := by grind

def argument : PartSort Argument where
  node := .argument
  part?
    | .argument a => some a
    | _ => none
  part?_eq_some_iff := by grind

def directive : PartSort Directive where
  node := .directive
  part?
    | .directive d => some d
    | _ => none
  part?_eq_some_iff := by grind

/-- Type references of any kind. -/
def type : PartSort TypeRef where
  node := .type
  part?
    | .type t => some t
    | _ => none
  part?_eq_some_iff := by grind

/-- Named types only. -/
def namedType : PartSort NamedType where
  node t := .type (.named t)
  part?
    | .type (.named t) => some t
    | _ => none
  part?_eq_some_iff := by grind

/-- Connections only. -/
def connection : PartSort ConnectionType where
  node t := .type (.connection t)
  part?
    | .type (.connection t) => some t
    | _ => none
  part?_eq_some_iff := by grind

def inputValue : PartSort InputValueDefinition where
  node := .inputValue
  part?
    | .inputValue d => some d
    | _ => none
  part?_eq_some_iff := by grind

/-- Fields of one owner. -/
def field (owner : FieldOwner) : PartSort FieldDefinition where
  node := .field owner
  part?
    | .field owner' d => if owner' = owner then some d else none
    | _ => none
  part?_eq_some_iff := by grind

def enumValue : PartSort EnumValueDefinition where
  node := .enumValue
  part?
    | .enumValue d => some d
    | _ => none
  part?_eq_some_iff := by grind

/-- Definitions of any kind. -/
def definition : PartSort Definition where
  node := .definition
  part?
    | .definition d => some d
    | _ => none
  part?_eq_some_iff := by grind

/-- Definitions of object types only. -/
def objectType : PartSort ObjectTypeDefinition where
  node d := .definition (.object d)
  part?
    | .definition (.object d) => some d
    | _ => none
  part?_eq_some_iff := by grind

/-- Conditions of a filter. -/
def condition : PartSort FilterCondition where
  node := .condition
  part?
    | .condition c => some c
    | _ => none
  part?_eq_some_iff := by grind

/-- Expressions of an order. -/
def ordering : PartSort OrderExpression where
  node := .ordering
  part?
    | .ordering e => some e
    | _ => none
  part?_eq_some_iff := by grind

@[simp] theorem part?_node (s : PartSort α) (a : α) : s.part? (s.node a) = some a :=
  (s.part?_eq_some_iff _ _).2 rfl

end PartSort

/-- How many parts a slot is for. -/
inductive Arity where
  | required
  | optional
  | list
deriving DecidableEq, Repr

/-- A place for parts in a node. -/
structure Slot where
  arity : Arity
  /-- The parts that are in it. -/
  children : List Node
  /-- Whether a node may stand in it. -/
  admits : Node → Bool
  /-- The node with other parts in the slot. -/
  fill : List Node → Node

namespace Slot

/-- A slot whose part `a` must be there. -/
def required (s : PartSort α) (a : α) (put : α → Node) : Slot where
  arity := .required
  children := [s.node a]
  admits n := (s.part? n).isSome
  fill ns := put ((ns.head?.bind s.part?).getD a)

/-- A slot whose part may be missing. -/
def optional (s : PartSort α) (a? : Option α) (put : Option α → Node) : Slot where
  arity := .optional
  children := a?.toList.map s.node
  admits n := (s.part? n).isSome
  fill ns := put (ns.head?.bind s.part?)

/-- A slot for a list of parts. -/
def list (s : PartSort α) (as : List α) (put : List α → Node) : Slot where
  arity := .list
  children := as.map s.node
  admits n := (s.part? n).isSome
  fill ns := put (ns.filterMap s.part?)

@[simp] theorem fill_children_required (s : PartSort α) (a : α) (put : α → Node) :
    (required s a put).fill (required s a put).children = put a := by
  simp [required]

@[simp] theorem fill_children_optional (s : PartSort α) (a? : Option α) (put : Option α → Node) :
    (optional s a? put).fill (optional s a? put).children = put a? := by
  cases a? <;> simp [optional]

@[simp] theorem fill_children_list (s : PartSort α) (as : List α) (put : List α → Node) :
    (list s as put).fill (list s as put).children = put as := by
  have h : s.part? ∘ s.node = some := funext fun a => s.part?_node a
  change put ((as.map s.node).filterMap s.part?) = put as
  rw [List.filterMap_map, h, List.filterMap_some]

end Slot

/-- The slots of a value with the keys they go by. -/
def Value.slots : Value → List (Key × Slot)
  | .var n loc => [(.name, .required .name n fun n => .value (.var n loc))]
  | .int .. => []
  | .float .. => []
  | .string .. => []
  | .boolean .. => []
  | .enum .. => []
  | .list vs loc => [(.values, .list .value vs fun vs => .value (.list vs loc))]
  | .object fs loc => [(.fields, .list .objectField fs fun fs => .value (.object fs loc))]

/-- The slots of a type reference. -/
def TypeRef.slots : TypeRef → List (Key × Slot)
  | .named t => [(.name, .required .name t.name fun n => .type (.named { t with name := n }))]
  | .list t loc => [(.type, .required .type t fun t => .type (.list t loc))]
  | .nonNull t loc => [(.type, .required .type t fun t => .type (.nonNull t loc))]
  | .connection t =>
    [(.edgeLabel, .optional .namedType t.edgeLabel fun l =>
      .type (.connection { t with edgeLabel := l })),
     (.type, .required .namedType t.type fun u => .type (.connection { t with type := u }))]
  | .connectionJoin t =>
    [(.connections, .list .connection t.connections fun ts =>
      .type (.connectionJoin { t with connections := ts }))]
  | .edge t =>
    [(.edgeLabel, .optional .namedType t.edgeLabel fun l =>
      .type (.edge { t with edgeLabel := l })),
     (.type, .required .namedType t.type fun u => .type (.edge { t with type := u }))]

/-- The slot for the result of a mutation or a query, with the key of what the result is. -/
def OperationResult.slot (owner : FieldOwner) (put : OperationResult → Node) :
    OperationResult → Key × Slot
  | .type t => (.type, .required .type t fun t => put (.type t))
  | .fields ds => (.fields, .list (.field owner) ds fun ds => put (.fields ds))

/-- The slots of a mutation or a query. -/
def OperationDefinition.slots (owner : FieldOwner) (put : OperationDefinition → Node)
    (d : OperationDefinition) : List (Key × Slot) :=
  [(.name, .required .name d.name fun n => put { d with name := n }),
   (.arguments, .list .inputValue d.arguments fun as => put { d with arguments := as }),
   (.directives, .list .directive d.directives fun ds => put { d with directives := ds }),
   d.result.slot owner fun r => put { d with result := r }]

/-- The slots of a definition. -/
def Definition.slots : Definition → List (Key × Slot)
  | .scalar d =>
    [(.name, .required .name d.name fun n => .definition (.scalar { d with name := n })),
     (.directives, .list .directive d.directives fun ds =>
     .definition (.scalar { d with directives := ds }))]
  | .object d =>
    [(.name, .required .name d.name fun n => .definition (.object { d with name := n })),
     (.interfaces, .list .namedType d.interfaces fun ts =>
     .definition (.object { d with interfaces := ts })),
       (.directives, .list .directive d.directives fun ds =>
       .definition (.object { d with directives := ds })),
     (.fields, .list (.field .type) d.fields fun fs =>
     .definition (.object { d with fields := fs }))]
  | .interface d =>
    [(.name, .required .name d.name fun n => .definition (.interface { d with name := n })),
     (.directives, .list .directive d.directives fun ds =>
     .definition (.interface { d with directives := ds })),
       (.fields, .list (.field .type) d.fields fun fs =>
       .definition (.interface { d with fields := fs }))]
  | .union d =>
    [(.name, .required .name d.name fun n => .definition (.union { d with name := n })),
     (.directives, .list .directive d.directives fun ds =>
     .definition (.union { d with directives := ds })),
       (.types, .list .namedType d.types fun ts => .definition (.union { d with types := ts }))]
  | .enum d =>
    [(.name, .required .name d.name fun n => .definition (.enum { d with name := n })),
     (.directives, .list .directive d.directives fun ds =>
     .definition (.enum { d with directives := ds })),
       (.values, .list .enumValue d.values fun vs => .definition (.enum { d with values := vs }))]
  | .inputObject d =>
    [(.name, .required .name d.name fun n => .definition (.inputObject { d with name := n })),
     (.directives, .list .directive d.directives fun ds =>
     .definition (.inputObject { d with directives := ds })),
       (.fields, .list .inputValue d.fields fun fs =>
       .definition (.inputObject { d with fields := fs }))]
  | .typeExtension d =>
    [(.definition, .required .objectType d.definition fun o =>
      .definition (.typeExtension { d with definition := o }))]
  | .directive d =>
    [(.name, .required .name d.name fun n => .definition (.directive { d with name := n })),
     (.arguments, .list .inputValue d.arguments fun as =>
     .definition (.directive { d with arguments := as })),
       (.locations, .list .name d.locations fun ns =>
       .definition (.directive { d with locations := ns }))]
  | .mutation d => d.slots .mutation fun d => .definition (.mutation d)
  | .query d => d.slots .query fun d => .definition (.query d)
  | .filter d =>
    [(.type, .required .type d.type fun t => .definition (.filter { d with type := t })),
     (.conditions, .list .condition d.conditions fun cs =>
     .definition (.filter { d with conditions := cs }))]
  | .order d =>
    [(.type, .required .type d.type fun t => .definition (.order { d with type := t })),
     (.expressions, .list .ordering d.expressions fun es =>
     .definition (.order { d with expressions := es }))]

/-- The slots of a node in the order of the source, each with the key it goes by. -/
def Node.slots : Node → List (Key × Slot)
  | .name _ => []
  | .document d =>
    [(.definitions, .list .definition d.definitions fun ds =>
      .document { d with definitions := ds })]
  | .value v => v.slots
  | .objectField f =>
    [(.name, .required .name f.name fun n => .objectField { f with name := n }),
     (.value, .required .value f.value fun v => .objectField { f with value := v })]
  | .argument a =>
    [(.name, .required .name a.name fun n => .argument { a with name := n }),
     (.value, .required .value a.value fun v => .argument { a with value := v })]
  | .directive d =>
    [(.name, .required .name d.name fun n => .directive { d with name := n }),
     (.arguments, .list .argument d.arguments fun as => .directive { d with arguments := as })]
  | .type t => t.slots
  | .inputValue d =>
    [(.name, .required .name d.name fun n => .inputValue { d with name := n }),
     (.type, .required .type d.type fun t => .inputValue { d with type := t }),
     (.defaultValue, .optional .value d.defaultValue fun v =>
     .inputValue { d with defaultValue := v }),
       (.directives, .list .directive d.directives fun ds =>
       .inputValue { d with directives := ds })]
  | .field owner d =>
    [(.name, .required .name d.name fun n => .field owner { d with name := n }),
     (.arguments, .list .inputValue d.arguments fun as => .field owner { d with arguments := as }),
     (.type, .required .type d.type fun t => .field owner { d with type := t }),
     (.directives, .list .directive d.directives fun ds => .field owner { d with
     directives := ds })]
  | .enumValue d =>
    [(.name, .required .name d.name fun n => .enumValue { d with name := n }),
     (.directives, .list .directive d.directives fun ds => .enumValue { d with directives := ds })]
  | .definition d => d.slots
  | .condition c =>
    [(.key, .required .enumValue c.key fun k => .condition { c with key := k }),
     (.arguments, .list .inputValue c.arguments fun as => .condition { c with arguments := as }),
     (.condition, .required .object c.condition fun o => .condition { c with condition := o })]
  | .ordering e =>
    [(.key, .required .enumValue e.key fun k => .ordering { e with key := k }),
     (.expression, .list .object e.expression fun os => .ordering { e with expression := os })]

/-- The slot of a node that goes by a key, if it has one. -/
def Node.slot? (n : Node) (k : Key) : Option Slot := n.slots.lookup k

/-- The parts of a node in the order of the source. -/
def Node.children (n : Node) : List Node := n.slots.flatMap fun s => s.2.children

end SchemaLang
