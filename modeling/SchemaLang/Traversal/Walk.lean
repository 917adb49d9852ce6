import SchemaLang.Traversal.Height
import SchemaLang.Traversal.Visitor

/-!
# Walks

A walk goes through a tree depth first and builds the tree that the answers of a visitor make of it.
The parts of a node are taken slot by slot in the order of a key table, and the items of a list in
their order; an item's place is the one it had when the walk of its list began. Each part has to fit
its slot as soon as the walk is done with it.

A visitor that keeps putting new nodes in place of those it enters can make the tree grow without
end. So a walk has a limit to how many nodes may be open at once. The height of the tree is enough
for a visitor that replaces nothing as it enters.
-/

namespace SchemaLang

/-- Why a walk gave no tree. -/
inductive VisitError where
  /-- A part that must be there was taken out. -/
  | requiredChildRemoved (parent : Kind) (k : Key)
  /-- A part was replaced by a node that its slot does not admit. -/
  | mismatchedReplacement (parent : Kind) (k : Key) (found : Kind)
  /-- More nodes would have been open at once than the walk allows. -/
  | tooDeep
deriving DecidableEq, Repr

/-- The message for a person. -/
def VisitError.message : VisitError → String
  | .requiredChildRemoved parent k =>
    s!"cannot remove the required `{k.text}` child of a {parent.text} node"
  | .mismatchedReplacement parent k found =>
    s!"a {found.text} node cannot replace the `{k.text}` child of a {parent.text} node"
  | .tooDeep => "the tree is too deep"

/-- How far a walk is: the state of the visitor, and whether it has ended the walk. -/
structure Progress (σ : Type) where
  state : σ
  halted : Bool

/-- Part of a walk. Progress is kept when the walk fails. -/
def Walk (σ α : Type) : Type := Progress σ → Except VisitError α × Progress σ

namespace Walk

instance : Monad (Walk σ) where
  pure a := fun p => (.ok a, p)
  bind w f := fun p =>
    match w p with
    | (.ok a, p') => f a p'
    | (.error e, p') => (.error e, p')

/-- Gives the walk up. -/
def fail (e : VisitError) : Walk σ α := fun p => (.error e, p)

/-- Whether the visitor has ended the walk. -/
def halted : Walk σ Bool := fun p => (.ok p.halted, p)

/-- Ends the walk. -/
def halt : Walk σ Unit := fun p => (.ok (), { p with halted := true })

/-- Calls the visitor. -/
def call (f : Callback σ) (context : Context) (n : Node) : Walk σ Action := fun p =>
  let (action, state) := f n context p.state
  (.ok action, { p with state })

/-- What becomes of a part after the walk of it, in a slot of a node of kind `parent`. -/
def settle (parent : Kind) (k : Key) (slot : Slot) : Option Node → Walk σ (Option Node)
  | none =>
    match slot.arity with
    | .required => fail (.requiredChildRemoved parent k)
    | .optional => return none
    | .list => return none
  | some n => if slot.admits n then return some n else fail (.mismatchedReplacement parent k n.kind)

/-- Walks the parts of one slot from place `index` on with `walk`; answers those that are left. -/
def items (walk : Context → Node → Walk σ (Option Node)) (ancestors : List Kind)
    (parent : Kind) (k : Key) (slot : Slot) : (index : Nat) → List Node → Walk σ (List Node)
  | _, [] => return []
  | index, n :: ns => do
    let place := if slot.arity = .list then some index else none
    let kept ← settle parent k slot (← walk ⟨some k, place, ancestors⟩ n)
    return kept.toList ++ (← items walk ancestors parent k slot (index + 1) ns)

/-- Walks the slots of a node that go by `keys`, one after the other, with `walk`. -/
def parts (walk : Context → Node → Walk σ (Option Node)) (ancestors : List Kind) :
    List Key → Node → Walk σ Node
  | [], n => return n
  | k :: ks, n =>
    match n.slot? k with
    | none => parts walk ancestors ks n
    | some slot => do
      let kept ← items walk ancestors n.kind k slot 0 slot.children
      parts walk ancestors ks (slot.fill kept)

/-- Walks the parts of a node that was entered, and leaves it. -/
def inside (v : Visitor σ) (keys : KeyTable) (walk : Context → Node → Walk σ (Option Node))
    (context : Context) (n : Node) : Walk σ (Option Node) := do
  let n ← parts walk (context.ancestors ++ [n.kind]) (keys n.kind) n
  if ← halted then
    return some n
  match ← call v.leave context n with
  | .keep => return some n
  | .skip => return some n
  | .replace m => return some m
  | .remove => return none
  | .halt => do
    halt
    return some n

/-- Walks a node, with at most `limit` nodes open at once. Nothing is answered for a node that
is taken out. -/
def node (v : Visitor σ) (keys : KeyTable) : (limit : Nat) → Context → Node → Walk σ (Option Node)
  | 0, _, n => do
    if ← halted then
      return some n
    fail .tooDeep
  | limit + 1, context, n => do
    if ← halted then
      return some n
    match ← call v.enter context n with
    | .keep => inside v keys (node v keys limit) context n
    | .replace m => inside v keys (node v keys limit) context m
    | .skip => return some n
    | .remove => return none
    | .halt => do
      halt
      return some n

end Walk

namespace Node

/-- Walks a tree with a visitor that starts in a state. Answers the tree that comes of it, nothing
if its root was taken out, and the last state. -/
def visitWith (keys : KeyTable) (limit : Nat) (v : Visitor σ) (state : σ) (n : Node) :
    Except VisitError (Option Node) × σ :=
  let (result, progress) := Walk.node v keys limit .root n ⟨state, false⟩
  (result, progress.state)

/-- Walks all of a tree with a visitor that replaces nothing as it enters. -/
def visit (v : Visitor σ) (state : σ) (n : Node) : Except VisitError (Option Node) × σ :=
  n.visitWith schemaKeys n.height v state

end Node

end SchemaLang
