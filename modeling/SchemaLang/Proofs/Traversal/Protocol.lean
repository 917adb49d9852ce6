import SchemaLang.Proofs.Traversal.Calls
import SchemaLang.Proofs.Traversal.Filling
import SchemaLang.Proofs.Traversal.Steps

/-!
# The protocol of a walk

The calls of a walk that gives a tree are read in two ways. `Visited` reads them along the tree:
which calls belong to which node and which part, in which order the parts are taken, and what is
left of each. `Bracketed` reads them one after the other and knows nothing but the nodes that are
open: each call to leave closes the innermost of them, every call says which are open, and nothing
follows an answer that ends the walk.
-/

namespace SchemaLang

variable {σ : Type}

mutual

/-- The walk of `n`, which stands at `context`, makes these calls and leaves `n?` of it. The flag
says whether it ends with them. -/
inductive Visited (keys : KeyTable) : Context → Node → List (Call σ) → Option Node → Bool → Prop
  /-- The answer on entering is not to go on with the parts. There is no call to leave. -/
  | passed {context n s a} (opened : Action.opened? n a = none) :
    Visited keys context n [⟨.enter, n, context, s, a⟩] (a.result n) a.isHalt
  /-- The walk ends among the parts. There is no call to leave. -/
  | cut {context n s a m calls r} (opened : Action.opened? n a = some m)
    (inside : VisitedParts keys (context.ancestors ++ [m.kind]) (keys m.kind) m calls r true) :
    Visited keys context n (⟨.enter, n, context, s, a⟩ :: calls) (some r) true
  /-- The node is entered, its parts are taken, and what has become of it is left. -/
  | left {context n s a m calls r t b} (opened : Action.opened? n a = some m)
    (inside : VisitedParts keys (context.ancestors ++ [m.kind]) (keys m.kind) m calls r false) :
    Visited keys context n (⟨.enter, n, context, s, a⟩ :: (calls ++ [⟨.leave, r, context, t, b⟩]))
      (b.result r) b.isHalt

/-- The walk of the parts of `n` that go by these keys, below these ancestors, makes these calls
and leaves `m`. -/
inductive VisitedParts (keys : KeyTable) :
    List Kind → List Key → Node → List (Call σ) → Node → Bool → Prop
  | done {ancestors n} : VisitedParts keys ancestors [] n [] n false
  /-- A key that the node has no part for means nothing. -/
  | absent {ancestors k ks n calls m ended} (slot : n.slot? k = none)
    (rest : VisitedParts keys ancestors ks n calls m ended) :
    VisitedParts keys ancestors (k :: ks) n calls m ended
  /-- The parts in the slot are taken, and what is left of them is put in their place. -/
  | slot {ancestors k ks n slot calls kept calls' m ended} (slot? : n.slot? k = some slot)
    (items : VisitedItems keys ancestors k slot 0 slot.children calls kept false)
    (refills : n.Refills k kept (slot.fill kept))
    (rest : VisitedParts keys ancestors ks (slot.fill kept) calls' m ended) :
    VisitedParts keys ancestors (k :: ks) n (calls ++ calls') m ended
  /-- The walk ends in the slot. The parts in all other slots are as they were. -/
  | last {ancestors k ks n slot calls kept} (slot? : n.slot? k = some slot)
    (items : VisitedItems keys ancestors k slot 0 slot.children calls kept true)
    (refills : n.Refills k kept (slot.fill kept)) :
    VisitedParts keys ancestors (k :: ks) n calls (slot.fill kept) true

/-- The walk of these parts in a slot, the first of them at place `index` if the slot is for a list,
makes these calls and leaves `kept`. -/
inductive VisitedItems (keys : KeyTable) :
    List Kind → Key → Slot → Nat → List Node → List (Call σ) → List Node → Bool → Prop
  | done {ancestors k slot index} : VisitedItems keys ancestors k slot index [] [] [] false
  /-- The first part is taken, then the others, whatever has become of the first. -/
  | item {ancestors k slot index n ns calls n? calls' kept ended}
    (visited : Visited keys ⟨some k, if slot.arity = .list then some index else none, ancestors⟩ n
      calls n? false)
    (takes : slot.Takes n?)
    (rest : VisitedItems keys ancestors k slot (index + 1) ns calls' kept ended) :
    VisitedItems keys ancestors k slot index (n :: ns) (calls ++ calls') (n?.toList ++ kept) ended
  /-- The walk ends within the first part. The others are as they were. -/
  | last {ancestors k slot index n ns calls n?}
    (visited : Visited keys ⟨some k, if slot.arity = .list then some index else none, ancestors⟩ n
      calls n? true)
    (takes : slot.Takes n?) :
    VisitedItems keys ancestors k slot index (n :: ns) calls (n?.toList ++ ns) true

end

namespace Call

/-- The node that the call opens: the parts of it are walked next. -/
def opened? (c : Call σ) : Option Node :=
  match c.side with
  | .enter => c.action.opened? c.node
  | .leave => none

/-- The kinds of the nodes that these calls opened. -/
def openKinds (opened : List (Call σ)) : List Kind := (opened.filterMap opened?).map Node.kind

/-- With the nodes open that the calls `opened` entered, the outermost first, a call may be made,
and then those of `opened'` are open. -/
inductive Moves : List (Call σ) → Call σ → List (Call σ) → Prop
  | opens {opened c n} (side : c.side = .enter) (opens : c.opened? = some n)
    (ancestors : c.context.ancestors = openKinds opened) : Moves opened c (opened ++ [c])
  | passes {opened c} (side : c.side = .enter) (opens : c.opened? = none)
    (ancestors : c.context.ancestors = openKinds opened) : Moves opened c opened
  | leaves {opened o c} (side : c.side = .leave) (context : c.context = o.context)
    (ancestors : c.context.ancestors = openKinds opened) : Moves (opened ++ [o]) c opened

/-- Calls that follow one another: unless the walk is ended, every node that was opened is left. -/
inductive Bracketed : List (Call σ) → List (Call σ) → Prop
  | done : Bracketed [] []
  | ended {opened c opened'} (moves : Moves opened c opened') (halt : c.action.isHalt = true) :
    Bracketed opened [c]
  | call {opened c opened' calls} (moves : Moves opened c opened') (halt : c.action.isHalt = false)
    (rest : Bracketed opened' calls) : Bracketed opened (c :: calls)

/-- Calls of `v` that take its state from `s` to `t`: each finds the state that the one before it
left, and is answered as `v` answers then. -/
inductive Run (v : Visitor σ) : σ → List (Call σ) → σ → Prop
  | done {s} : Run v s [] s
  | call {side n context s calls t} (rest : Run v (v.callback side n context s).2 calls t) :
    Run v s (⟨side, n, context, s, (v.callback side n context s).1⟩ :: calls) t

theorem Run.append {v : Visitor σ} {s t u : σ} {calls calls' : List (Call σ)} (h : Run v s calls t)
    (h' : Run v t calls' u) : Run v s (calls ++ calls') u := by
  induction h with
  | done => exact h'
  | call _ ih => exact .call (ih h')

theorem Run.of_cons {v : Visitor σ} {side : Side} {n : Node} {context : Context}
    {s s' t : σ} {a : Action} {calls : List (Call σ)}
    (h : Run v s (⟨side, n, context, s', a⟩ :: calls) t) : s' = s ∧
    a = (v.callback side n context s).1 ∧ Run v (v.callback side n context s).2 calls t := by
  cases h with
  | call rest => exact ⟨rfl, rfl, rest⟩

theorem Run.of_append {v : Visitor σ} {s u : σ} {calls calls' : List (Call σ)}
    (h : Run v s (calls ++ calls') u) : ∃ t, Run v s calls t ∧ Run v t calls' u := by
  induction calls generalizing s with
  | nil => exact ⟨s, .done, h⟩
  | cons c calls ih =>
    cases h with
    | call rest =>
      obtain ⟨t, run, run'⟩ := ih rest
      exact ⟨t, .call run, run'⟩

theorem Run.action_of_mem {v : Visitor σ} {s t : σ} {calls : List (Call σ)} (h : Run v s calls t) :
    ∀ c ∈ calls, c.action = (v.callback c.side c.node c.context c.state).1 := by
  induction h with
  | done => exact List.forall_mem_nil _
  | call _ ih => exact List.forall_mem_cons.2 ⟨rfl, ih⟩

end Call

namespace Call

/-- The calls that may follow where these are open: none after the end of the walk. -/
def Continues (opened : List (Call σ)) (ended : Bool) (calls : List (Call σ)) : Prop :=
  if ended = true then calls = [] else Bracketed opened calls

theorem Bracketed.of_moves {opened opened' rest : List (Call σ)} {c : Call σ}
    (moves : Moves opened c opened') (h : Continues opened' c.action.isHalt rest) :
    Bracketed opened (c :: rest) := by
  cases halt : c.action.isHalt with
  | true =>
    obtain rfl : rest = [] := by simpa [Continues, halt] using h
    exact .ended moves halt
  | false => exact .call moves halt (by simpa [Continues, halt] using h)

private theorem continues_nil (ended : Bool) : Continues (σ := σ) [] ended [] := by
  unfold Continues
  split
  · rfl
  · exact .done

theorem openKinds_concat {opened : List (Call σ)} {n m : Node} {context : Context}
    {s : σ} {a : Action} (h : a.opened? n = some m) :
    openKinds (opened ++ [⟨.enter, n, context, s, a⟩]) = openKinds opened ++ [m.kind] := by
  simp [openKinds, opened?, h]

end Call

private theorem Action.isHalt_of_opened? {n m : Node} {a : Action} (h : a.opened? n = some m) :
    a.isHalt = false := by
  cases a <;> first | rfl | cases h

open Call

mutual

theorem Visited.bracketed {keys : KeyTable} {context : Context} {n : Node}
    {calls opened rest : List (Call σ)} {n? : Option Node} {ended : Bool}
    (h : Visited keys context n calls n? ended) (kinds : context.ancestors = openKinds opened)
    (hr : Continues opened ended rest) : Bracketed opened (calls ++ rest) := by
  match h with
  | .passed closed => exact .of_moves (.passes rfl closed kinds) hr
  | .cut goesOn inside =>
    refine .call (.opens rfl goesOn kinds) (Action.isHalt_of_opened? goesOn) ?_
    exact inside.bracketed (by rw [openKinds_concat goesOn, kinds]) hr
  | .left (s := s) (a := a) (r := r) (t := t) (b := b) goesOn inside =>
    have leaving : Bracketed (opened ++ [⟨.enter, n, context, s, a⟩])
        (⟨.leave, r, context, t, b⟩ :: rest) :=
      .of_moves (.leaves rfl rfl kinds) hr
    rw [List.cons_append, List.append_assoc]
    refine .call (.opens rfl goesOn kinds) (Action.isHalt_of_opened? goesOn) ?_
    exact inside.bracketed (by rw [openKinds_concat goesOn, kinds]) leaving

theorem VisitedParts.bracketed {keys : KeyTable} {ancestors : List Kind}
    {ks : List Key} {n m : Node} {calls opened rest : List (Call σ)} {ended : Bool}
    (h : VisitedParts keys ancestors ks n calls m ended) (kinds : ancestors = openKinds opened)
    (hr : Continues opened ended rest) : Bracketed opened (calls ++ rest) := by
  match h with
  | .done => exact hr
  | .absent _ others => exact others.bracketed kinds hr
  | .slot _ items _ others =>
    rw [List.append_assoc]
    exact items.bracketed kinds (others.bracketed kinds hr)
  | .last _ items _ => exact items.bracketed kinds hr

theorem VisitedItems.bracketed {keys : KeyTable} {ancestors : List Kind} {k : Key}
    {slot : Slot} {index : Nat} {ns kept : List Node}
    {calls opened rest : List (Call σ)} {ended : Bool}
    (h : VisitedItems keys ancestors k slot index ns calls kept ended)
    (kinds : ancestors = openKinds opened) (hr : Continues opened ended rest) :
    Bracketed opened (calls ++ rest) := by
  match h with
  | .done => exact hr
  | .item visited _ others =>
    rw [List.append_assoc]
    exact visited.bracketed kinds (others.bracketed kinds hr)
  | .last visited _ => exact visited.bracketed kinds hr

end

mutual

/-- A walk has ended if and only if one of its calls was answered with its end. -/
theorem Visited.any_isHalt {keys : KeyTable} {context : Context} {n : Node} {calls : List (Call σ)}
    {n? : Option Node} {ended : Bool} (h : Visited keys context n calls n? ended) :
    calls.any (·.action.isHalt) = ended := by
  match h with
  | .passed _ => exact Bool.or_false _
  | .cut goesOn inside => rw [List.any_cons, inside.any_isHalt, Bool.or_true]
  | .left goesOn inside =>
    rw [List.any_cons, List.any_append, inside.any_isHalt, Action.isHalt_of_opened? goesOn]
    exact Bool.or_false _

theorem VisitedParts.any_isHalt {keys : KeyTable} {ancestors : List Kind}
    {ks : List Key} {n m : Node} {calls : List (Call σ)} {ended : Bool}
    (h : VisitedParts keys ancestors ks n calls m ended) : calls.any (·.action.isHalt) = ended := by
  match h with
  | .done => rfl
  | .absent _ others => exact others.any_isHalt
  | .slot _ items _ others =>
    rw [List.any_append, items.any_isHalt, others.any_isHalt, Bool.false_or]
  | .last _ items _ => exact items.any_isHalt

theorem VisitedItems.any_isHalt {keys : KeyTable} {ancestors : List Kind} {k : Key}
    {slot : Slot} {index : Nat} {ns kept : List Node} {calls : List (Call σ)} {ended : Bool}
    (h : VisitedItems keys ancestors k slot index ns calls kept ended) :
    calls.any (·.action.isHalt) = ended := by
  match h with
  | .done => rfl
  | .item visited _ others =>
    rw [List.any_append, visited.any_isHalt, others.any_isHalt, Bool.false_or]
  | .last visited _ => exact visited.any_isHalt

end

theorem VisitedItems.admits {keys : KeyTable} {ancestors : List Kind} {k : Key}
    {slot : Slot} {index : Nat} {ns kept : List Node} {calls : List (Call σ)} {ended : Bool}
    (h : VisitedItems keys ancestors k slot index ns calls kept ended)
    (hns : ∀ n ∈ ns, slot.admits n = true) : ∀ n ∈ kept, slot.admits n = true := by
  match h with
  | .done => exact hns
  | .item _ takes others =>
    exact List.forall_mem_append.2 ⟨takes.admits, others.admits (List.forall_mem_cons.1 hns).2⟩
  | .last _ takes => exact List.forall_mem_append.2 ⟨takes.admits, (List.forall_mem_cons.1 hns).2⟩

theorem VisitedItems.length {keys : KeyTable} {ancestors : List Kind} {k : Key}
    {slot : Slot} {index : Nat} {ns kept : List Node} {calls : List (Call σ)} {ended : Bool}
    (h : VisitedItems keys ancestors k slot index ns calls kept ended) :
    kept.length ≤ ns.length ∧ (slot.arity = .required → kept.length = ns.length) := by
  match h with
  | .done => exact ⟨le_refl 0, fun _ => rfl⟩
  | .item _ takes others => grind [takes.length, others.length]
  | .last _ takes => grind [takes.length]

/-- What is left of the parts of a slot may be in it. -/
theorem VisitedItems.accepts {keys : KeyTable} {ancestors : List Kind} {k : Key}
    {slot : Slot} {index : Nat} {ns kept : List Node} {calls : List (Call σ)} {ended : Bool}
    (h : VisitedItems keys ancestors k slot index ns calls kept ended) (hns : slot.Accepts ns) :
    slot.Accepts kept where
  admits := h.admits hns.admits
  required required := by
    obtain ⟨n, rfl⟩ := hns.required required
    exact List.length_eq_one_iff.1 (h.length.2 required)
  optional optional := h.length.1.trans (hns.optional optional)

/-- The kind of a node stays as it is whatever is made of its parts. -/
theorem VisitedParts.kind {keys : KeyTable} {ancestors : List Kind} {ks : List Key} {n m : Node}
    {calls : List (Call σ)} {ended : Bool} (h : VisitedParts keys ancestors ks n calls m ended) :
    m.kind = n.kind := by
  match h with
  | .done => rfl
  | .absent _ others => exact others.kind
  | .slot _ _ refills others => exact others.kind.trans refills.kind
  | .last _ _ refills => exact refills.kind

namespace Walk

/-- The calls `calls` of `v` are written down between `s` and `t`. -/
structure Wrote (v : Visitor σ) (s : σ × List (Call σ)) (calls : List (Call σ))
    (t : σ × List (Call σ)) : Prop where
  log : t.2 = s.2 ++ calls
  run : Run v s.1 calls t.1

theorem Wrote.nil {v : Visitor σ} (s : σ × List (Call σ)) : Wrote v s [] s :=
  ⟨(List.append_nil s.2).symm, .done⟩

theorem Wrote.append {v : Visitor σ} {s t u : σ × List (Call σ)} {calls calls' : List (Call σ)}
    (h : Wrote v s calls t) (h' : Wrote v t calls' u) : Wrote v s (calls ++ calls') u :=
  ⟨by rw [h'.log, h.log, List.append_assoc], h.run.append h'.run⟩

theorem Wrote.call (v : Visitor σ) (side : Side) (n : Node) (context : Context)
    (s : σ × List (Call σ)) : Wrote v s [⟨side, n, context, s.1, (v.callback side n context s.1).1⟩]
      (v.recorded.callback side n context s).2 := by
  cases side <;> exact ⟨rfl, .call .done⟩

/-- A walk of parts with a visitor that does what `v` does and writes its calls down: it
does nothing once it has ended, and where it gives an answer, the calls that it adds are
those of a visit. -/
structure Visits (keys : KeyTable) (v : Visitor σ)
    (walk : Context → Node → Walk (σ × List (Call σ)) (Option Node)) : Prop where
  ended : ∀ context n s, walk context n ⟨s, true⟩ = (.ok (some n), ⟨s, true⟩)
  visited : ∀ {context n s n? p}, walk context n ⟨s, false⟩ = (.ok n?, p) →
    ∃ calls, Wrote v s calls p.state ∧ Visited keys context n calls n? p.halted

namespace Visits

variable {keys : KeyTable} {v : Visitor σ} {walk : Context → Node →
  Walk (σ × List (Call σ)) (Option Node)}
  (h : Visits keys v walk) {ancestors : List Kind} {p : Progress (σ × List (Call σ))}

include h

theorem items {parent : Kind} {k : Key} {slot : Slot} {ns : List Node}
    (admits : ∀ n ∈ ns, slot.admits n = true) :
    ∀ {index s kept}, items walk ancestors parent k slot index ns ⟨s, false⟩ = (.ok kept, p) →
      ∃ calls, Wrote v s calls p.state ∧
      VisitedItems keys ancestors k slot index ns calls kept p.halted := by
  induction ns with
  | nil =>
    intro index s kept hitems
    cases hitems
    exact ⟨[], .nil s, .done⟩
  | cons n ns ih =>
    intro index s kept hitems
    have others : ∀ m ∈ ns, slot.admits m = true := (List.forall_mem_cons.1 admits).2
    obtain ⟨_, _, hwalk, htail⟩ := bind_eq_ok hitems
    obtain ⟨n?, q, hsettle, htail⟩ := bind_eq_ok htail
    obtain ⟨_, _, hrest, hpure⟩ := bind_eq_ok htail
    obtain ⟨takes, rfl, rfl⟩ := settle_eq_ok hsettle
    cases hpure
    obtain ⟨calls, wrote, visited⟩ := h.visited hwalk
    obtain ⟨t, ended⟩ := q
    cases ended with
    | false =>
      obtain ⟨calls', wrote', visited'⟩ := ih others hrest
      exact ⟨calls ++ calls', wrote.append wrote', .item visited takes visited'⟩
    | true =>
      rw [items_ended h.ended parent k t _ others] at hrest
      cases hrest
      exact ⟨calls, wrote, .last visited takes⟩

theorem parts {ks : List Key} : ∀ {n m s}, parts walk ancestors ks n ⟨s, false⟩ = (.ok m, p) →
    ∃ calls, Wrote v s calls p.state ∧ VisitedParts keys ancestors ks n calls m p.halted := by
  induction ks with
  | nil =>
    intro n m s hparts
    cases hparts
    exact ⟨[], .nil s, .done⟩
  | cons k ks ih =>
    intro n m s hparts
    unfold Walk.parts at hparts
    cases hslot : n.slot? k with
    | none =>
      rw [hslot] at hparts
      obtain ⟨calls, wrote, visited⟩ := ih hparts
      exact ⟨calls, wrote, .absent hslot visited⟩
    | some slot =>
      rw [hslot] at hparts
      have accepts : slot.Accepts slot.children := (Node.proper_of_slot? hslot).accepts_children
      obtain ⟨kept, ⟨t, ended⟩, hitems, hrest⟩ := bind_eq_ok hparts
      obtain ⟨calls, wrote, visited⟩ := h.items accepts.admits hitems
      have refills : n.Refills k kept (slot.fill kept) :=
        Node.refills_of_slot? hslot (visited.accepts accepts)
      cases ended with
      | false =>
        obtain ⟨calls', wrote', visited'⟩ := ih hrest
        exact ⟨calls ++ calls', wrote.append wrote', .slot hslot visited refills visited'⟩
      | true =>
        rw [parts_ended h.ended] at hrest
        cases hrest
        exact ⟨calls, wrote, .last hslot visited refills⟩

theorem inside {context : Context} {n m : Node} {n? : Option Node} {s : σ × List (Call σ)}
    (opened : (v.enter n context s.1).1.opened? n = some m)
    (hinside : inside v.recorded keys walk context m ⟨(v.recorded.enter n context s).2, false⟩ =
      (.ok n?, p)) :
    ∃ calls, Wrote v s calls p.state ∧ Visited keys context n calls n? p.halted := by
  have entered := Wrote.call v .enter n context s
  obtain ⟨r, ⟨t, ended⟩, hparts⟩ := inside_eq_ok hinside
  obtain ⟨calls, wrote, visited⟩ := h.parts hparts
  cases ended with
  | true =>
    rw [inside_cut hparts] at hinside
    cases hinside
    refine ⟨_, ?_, .cut (s := s.1) opened visited⟩
    exact entered.append wrote
  | false =>
    rw [inside_left hparts] at hinside
    cases hinside
    refine ⟨_, ?_, .left (s := s.1) (t := t.1) opened visited⟩
    exact entered.append (wrote.append (.call v .leave r context t))

end Visits

/-- Where a walk gives an answer, its calls are those of a visit. -/
theorem visits_node (v : Visitor σ) (keys : KeyTable) (limit : Nat) :
    Visits keys v (node v.recorded keys limit) := by
  induction limit with
  | zero => exact ⟨node_ended v.recorded keys 0, nofun⟩
  | succ limit ih =>
    refine ⟨node_ended v.recorded keys (limit + 1), fun {context n s n? p} hnode => ?_⟩
    cases opened : (v.enter n context s.1).1.opened? n with
    | none =>
      rw [node_passed (show (v.recorded.enter n context s).1.opened? n = none from opened)] at hnode
      cases hnode
      exact ⟨_, .call v .enter n context s, .passed opened⟩
    | some m =>
      rw [node_opened (show (v.recorded.enter n context s).1.opened? n = some m from opened)]
        at hnode
      exact ih.inside opened hnode

end Walk

namespace Node

variable {keys : KeyTable} {limit : Nat} {v : Visitor σ} {s : σ} {n : Node} {n? : Option Node}

/-- The calls of a walk that gives an answer are those of a visit, and of `v` from its first
state to its last. -/
theorem exists_visited (h : (n.visitWith keys limit v s).1 = .ok n?) :
    ∃ ended, Visited keys .root n (n.calls keys limit v s) n? ended ∧
      Run v s (n.calls keys limit v s) (n.visitWith keys limit v s).2 := by
  have recorded : (Walk.node v.recorded keys limit .root n ⟨(s, []), false⟩).1 = .ok n? :=
    (congrArg Prod.fst (n.visitWith_recorded keys limit v s)).trans h
  obtain ⟨calls, wrote, visited⟩ := (Walk.visits_node v keys limit).visited (Prod.ext recorded rfl)
  obtain rfl : n.calls keys limit v s = calls := wrote.log
  have last : (n.visitWith keys limit v s).2 = (n.visitWith keys limit v.recorded (s, [])).2.1 := by
    rw [n.visitWith_recorded]
  exact ⟨_, visited, last ▸ wrote.run⟩

/-- The protocol of a walk. Where a walk gives an answer, its calls are those of a visit of the
tree: a node is left after its own parts, or those of what it was replaced by on entering it, unless
it was passed over or the walk ended before, and after the end everything stays where it was. So the
calls are bracketed, none follows the end, and the last state of the visitor is the one after the
last of them. -/
theorem visited_of_visitWith (h : (n.visitWith keys limit v s).1 = .ok n?) :
    Visited keys .root n (n.calls keys limit v s) n?
      ((n.calls keys limit v s).any (·.action.isHalt)) ∧ Bracketed [] (n.calls keys limit v s) ∧
      Run v s (n.calls keys limit v s) (n.visitWith keys limit v s).2 := by
  obtain ⟨ended, visited, run⟩ := exists_visited h
  refine ⟨visited.any_isHalt ▸ visited, ?_, run⟩
  simpa using visited.bracketed rfl (continues_nil ended)

/-- A list of four, of which the first is taken out, the second becomes an empty list on entering,
and the walk ends with the third. -/
theorem visited_of_visitWith_list :
    let answers : Callback (List Action) := fun _ _ as => (as.headD .keep, as.tail)
    let v : Visitor (List Action) := ⟨answers, answers⟩
    let s : List Action := [.keep, .remove, .replace (.value (.list [] none)), .keep, .halt]
    let n : Node := .value (.list [.int "1" none, .int "2" none, .int "3" none, .int "4" none] none)
    let m : Node := .value (.list [.list [] none, .int "3" none, .int "4" none] none)
    let calls : List (Call (List Action)) := n.calls schemaKeys n.height v s
    (n.visit v s).1 = .ok (some m) ∧
      Visited schemaKeys .root n calls (some m) (calls.any (·.action.isHalt)) ∧ Bracketed [] calls ∧
      Run v s calls (n.visit v s).2 := by
  intro answers v s n m calls
  have high : n.height = 2 := by
    simp [n, height_eq, children, slots, Value.slots, Slot.list, PartSort.value]
  have answered : (n.visitWith schemaKeys n.height v s).1 = .ok (some m) := by
    rw [high]
    rfl
  exact ⟨answered, visited_of_visitWith answered⟩

end Node

end SchemaLang
