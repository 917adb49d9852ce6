import SchemaLang.Traversal.Walk

/-!
# The calls of a walk

A visitor can be made to write down every call of it: with which node, where that stands, in which
state, and what the answer is. Writing changes neither what a walk gives nor the states that the
visitor goes through.
-/

namespace SchemaLang

/-- A call of a visitor whose state is `state` then. -/
structure Call (σ : Type) where
  side : Side
  node : Node
  context : Context
  state : σ
  action : Action

namespace Visitor

variable {σ : Type}

/-- Calls `f` and writes the call down. -/
def noting (side : Side) (f : Callback σ) : Callback (σ × List (Call σ)) := fun n context s =>
  ((f n context s.1).1, (f n context s.1).2, s.2 ++ [⟨side, n, context, s.1, (f n context s.1).1⟩])

/-- What is called on this side of a node. -/
def callback (v : Visitor σ) : Side → Callback σ
  | .enter => v.enter
  | .leave => v.leave

/-- The visitor with every call of it written down. -/
def recorded (v : Visitor σ) : Visitor (σ × List (Call σ)) :=
  ⟨noting .enter v.enter, noting .leave v.leave⟩

end Visitor

/-- The calls of a visitor in the walk of a tree, in their order. -/
def Node.calls {σ : Type} (keys : KeyTable) (limit : Nat) (v : Visitor σ) (state : σ) (n : Node) :
    List (Call σ) :=
  (n.visitWith keys limit v.recorded (state, [])).2.2

namespace Walk

variable {σ τ α β : Type} {f : τ → σ} {v : Visitor σ} {w : Visitor τ}

/-- Seen through `f`, the walk `u` does what `w` does. -/
def Shows (f : τ → σ) (u : Walk τ α) (w : Walk σ α) : Prop :=
  ∀ p : Progress τ, w ⟨f p.state, p.halted⟩ = ((u p).1, ⟨f (u p).2.state, (u p).2.halted⟩)

private theorem shows_pure (a : α) : Shows f (pure a) (pure a) := fun _ => rfl

theorem Shows.bind {u : Walk τ α} {w : Walk σ α} {q : α → Walk τ β} {r : α → Walk σ β}
    (h : Shows f u w) (hq : ∀ a, Shows f (q a) (r a)) : Shows f (u >>= q) (w >>= r) := by
  intro p
  simp only [Bind.bind, h p]
  cases hu : u p with
  | mk result p' =>
    cases result with
    | ok a => exact hq a p'
    | error e => rfl

private theorem shows_fail (e : VisitError) : Shows f (fail e : Walk τ α) (fail e) := fun _ => rfl

private theorem shows_halted : Shows f halted halted := fun _ => rfl

private theorem shows_halt : Shows f halt halt := fun _ => rfl

private theorem shows_settle (parent : Kind) (k : Key) (slot : Slot) (n? : Option Node) :
    Shows f (settle parent k slot n?) (settle parent k slot n?) := by
  cases n? with
  | none =>
    simp only [settle]
    cases slot.arity
    · exact shows_fail _
    · exact shows_pure none
    · exact shows_pure none
  | some n =>
    simp only [settle]
    split
    · exact shows_pure (some n)
    · exact shows_fail _

section

variable {walk : Context → Node → Walk τ (Option Node)} {walk' : Context → Node →
  Walk σ (Option Node)}
  (hwalk : ∀ context n, Shows f (walk context n) (walk' context n))

include hwalk

private theorem shows_items (ancestors : List Kind) (parent : Kind) (k : Key) (slot : Slot)
    (ns : List Node) : ∀ index,
    Shows f (items walk ancestors parent k slot index ns)
      (items walk' ancestors parent k slot index ns) := by
  induction ns with
  | nil => exact fun _ => shows_pure []
  | cons n ns ih =>
    intro index
    refine (hwalk _ n).bind fun n? => (shows_settle parent k slot n?).bind fun kept => ?_
    exact (ih (index + 1)).bind fun rest => shows_pure (kept.toList ++ rest)

private theorem shows_parts (ancestors : List Kind) (ks : List Key) :
    ∀ n, Shows f (parts walk ancestors ks n) (parts walk' ancestors ks n) := by
  induction ks with
  | nil => exact fun n => shows_pure n
  | cons k ks ih =>
    intro n
    unfold parts
    cases n.slot? k with
    | none => exact ih n
    | some slot =>
      exact (shows_items hwalk ancestors n.kind k slot slot.children 0).bind fun kept =>
        ih (slot.fill kept)

end

/-- The visitor `w` does with its state what `v` does with what `f` shows of it. -/
structure Follows (f : τ → σ) (w : Visitor τ) (v : Visitor σ) : Prop where
  enter : ∀ n context s, v.enter n context (f s) =
    ((w.enter n context s).1, f (w.enter n context s).2)
  leave : ∀ n context s, v.leave n context (f s) =
    ((w.leave n context s).1, f (w.leave n context s).2)

private theorem shows_call {g : Callback τ} {h : Callback σ}
    (hg : ∀ n context s, h n context (f s) = ((g n context s).1, f (g n context s).2))
    (context : Context) (n : Node) : Shows f (call g context n) (call h context n) := by
  intro p
  simp only [call, hg]

/-- A visitor that does what another does is walked as the other is. -/
theorem shows_node (h : Follows f w v) (keys : KeyTable) (limit : Nat) :
    ∀ context n, Shows f (node w keys limit context n) (node v keys limit context n) := by
  induction limit with
  | zero =>
    intro context n
    refine shows_halted.bind fun b => ?_
    cases b
    · exact shows_fail .tooDeep
    · exact shows_pure (some n)
  | succ limit ih =>
    have inside : ∀ context n, Shows f (inside w keys (node w keys limit) context n)
        (inside v keys (node v keys limit) context n) := by
      intro context n
      refine (shows_parts ih _ _ n).bind fun m => shows_halted.bind fun b => ?_
      cases b
      · refine (shows_call h.leave context m).bind fun action => ?_
        cases action with
        | halt => exact shows_halt.bind fun _ => shows_pure (some m)
        | _ => exact shows_pure _
      · exact shows_pure (some m)
    intro context n
    refine shows_halted.bind fun b => ?_
    cases b
    · refine (shows_call h.enter context n).bind fun action => ?_
      cases action with
      | keep => exact inside context n
      | replace m => exact inside context m
      | halt => exact shows_halt.bind fun _ => shows_pure (some n)
      | _ => exact shows_pure _
    · exact shows_pure (some n)

end Walk

/-- Writing calls down changes neither what a walk gives nor the last state of the visitor. -/
theorem Node.visitWith_recorded {σ : Type} (keys : KeyTable) (limit : Nat) (v : Visitor σ)
    (state : σ) (n : Node) : n.visitWith keys limit v.recorded (state, []) =
      ((n.visitWith keys limit v state).1, (n.visitWith keys limit v state).2,
      n.calls keys limit v state) := by
  have follows : Walk.Follows Prod.fst v.recorded v := ⟨fun _ _ _ => rfl, fun _ _ _ => rfl⟩
  have shown := Walk.shows_node follows keys limit .root n ⟨(state, []), false⟩
  simp only [visitWith, calls, shown]

end SchemaLang
