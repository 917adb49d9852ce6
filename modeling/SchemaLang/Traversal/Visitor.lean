import SchemaLang.Ast.Node
import SchemaLang.Traversal.Key

/-!
# Visitors

A visitor is called as a walk enters a node, before its parts, and as it leaves the node, after
them. Each call sees the node and where it stands, may change a state of the visitor's own, and
answers what is to become of the node. A visitor can be put together from callbacks for single
kinds, with others for the kinds that have none.
-/

namespace SchemaLang

/-- What a callback wants done. -/
inductive Action where
  /-- Leave the node as it is and go on. -/
  | keep
  /-- Leave the node as it is and, when entering it, pass over its parts and over leaving it. -/
  | skip
  /-- Put another node in its place. When entering, the walk goes on with the parts of
  the other node. -/
  | replace (n : Node)
  /-- Take the node out of the tree. -/
  | remove
  /-- End the walk. What was changed so far stays changed. -/
  | halt
deriving Repr

/-- Where a node stands: its key in the node above it, its place in a list, and the kinds of the
nodes above it, the root's first. -/
structure Context where
  key : Option Key
  index : Option Nat
  ancestors : List Kind
deriving DecidableEq, Repr

namespace Context

/-- Where the root stands. -/
def root : Context := ⟨none, none, []⟩

/-- The kind of the node above. -/
def parent (c : Context) : Option Kind := c.ancestors.getLast?

/-- How many nodes there are above. -/
def depth (c : Context) : Nat := c.ancestors.length

end Context

/-- A function that a walk calls with a node and where it stands. -/
abbrev Callback (σ : Type) := Node → Context → σ → Action × σ

/-- What a walk calls. -/
structure Visitor (σ : Type) where
  enter : Callback σ
  leave : Callback σ

/-- When a callback is called. -/
inductive Side where
  | enter
  | leave
deriving DecidableEq, Repr

/-- Callbacks for single kinds, and for all kinds without one of their own. -/
structure VisitorTable (σ : Type) where
  forKind : Side → Kind → Option (Callback σ) := fun _ _ => none
  forOthers : Side → Option (Callback σ) := fun _ => none

namespace VisitorTable

/-- Calls `f` for a kind, or for all kinds without a callback of their own. It takes the place of
an earlier one. -/
def on (t : VisitorTable σ) (side : Side) (kind : Option Kind) (f : Callback σ) : VisitorTable σ :=
  match kind with
  | some k => { t with forKind := fun s k' => if s = side ∧ k' = k then some f else t.forKind s k' }
  | none => { t with forOthers := fun s => if s = side then some f else t.forOthers s }

/-- The callback for a kind, its own before the one for all others. -/
def callback? (t : VisitorTable σ) (side : Side) (kind : Kind) : Option (Callback σ) :=
  (t.forKind side kind).or (t.forOthers side)

/-- Calls the callback for the kind of the node, and keeps a node of a kind without one. -/
def call (t : VisitorTable σ) (side : Side) : Callback σ := fun n context s =>
  match t.callback? side n.kind with
  | some f => f n context s
  | none => (.keep, s)

/-- The table as a visitor. -/
def visitor (t : VisitorTable σ) : Visitor σ := ⟨t.call .enter, t.call .leave⟩

end VisitorTable

end SchemaLang
