import SchemaLang.Proofs.Traversal.Endings

/-!
# Walks that fail

A walk fails exactly if a part ends as something that has no place in its slot: as nothing where
something must be, or as a node of a kind that may not be there. The first part that does so says
why it fails, and the visitor is not called any more. What was put in the place of a node on
entering it counts only if it is still there when the node ends, and what the root ends as does not
count at all. Up to the fault the calls are those of a visit, which `Broken` reads along the tree.
-/

namespace SchemaLang

open Call

variable {σ : Type}

mutual

/-- The walk of `n`, which stands at `context`, makes these calls and then fails with `e`,
where no more than `room` nodes may be open at once. What comes before the fault is a visit
like any other. -/
inductive Broken (keys : KeyTable) :
    Nat → Context → Node → List (Call σ) → VisitError → Prop
  /-- There is no room for the node. -/
  | full {context n} : Broken keys 0 context n [] .tooDeep
  /-- The node is entered, and the walk fails among its parts. -/
  | inside {room context n s a m calls e} (opened : Action.opened? n a = some m)
    (inside : BrokenParts keys room (context.ancestors ++ [m.kind]) (keys m.kind) m calls e) :
    Broken keys (room + 1) context n (⟨.enter, n, context, s, a⟩ :: calls) e

/-- The walk of the parts of `n` that go by these keys, below these ancestors, makes these calls and
then fails with `e`. -/
inductive BrokenParts (keys : KeyTable) :
    Nat → List Kind → List Key → Node → List (Call σ) → VisitError → Prop
  | absent {room ancestors k ks n calls e} (slot : n.slot? k = none)
    (rest : BrokenParts keys room ancestors ks n calls e) :
    BrokenParts keys room ancestors (k :: ks) n calls e
  /-- The parts in the first slot are taken, and the walk fails in a later one. -/
  | later {room ancestors k ks n slot calls kept calls' e} (slot? : n.slot? k = some slot)
    (items : VisitedItems keys ancestors k slot 0 slot.children calls kept false)
    (refills : n.Refills k kept (slot.fill kept))
    (rest : BrokenParts keys room ancestors ks (slot.fill kept) calls' e) :
    BrokenParts keys room ancestors (k :: ks) n (calls ++ calls') e
  | here {room ancestors k ks n slot calls e} (slot? : n.slot? k = some slot)
    (items : BrokenItems keys room ancestors n.kind k slot 0 slot.children calls e) :
    BrokenParts keys room ancestors (k :: ks) n calls e

/-- The walk of these parts in a slot of a node of kind `parent`, the first of them at place `index`
if the slot is for a list, makes these calls and then fails with `e`. -/
inductive BrokenItems (keys : KeyTable) :
    Nat → List Kind → Kind → Key → Slot → Nat → List Node → List (Call σ) → VisitError → Prop
  /-- The first part is taken, and the walk fails at a later one. -/
  | later {room ancestors parent k slot index n ns calls n? calls' e}
    (visited : Visited keys ⟨some k, if slot.arity = .list then some index else none, ancestors⟩ n
      calls n? false)
    (takes : slot.Takes n?)
    (rest : BrokenItems keys room ancestors parent k slot (index + 1) ns calls' e) :
    BrokenItems keys room ancestors parent k slot index (n :: ns) (calls ++ calls') e
  /-- The walk fails within the first part. -/
  | within {room ancestors parent k slot index n ns calls e}
    (broken : Broken keys room
      ⟨some k, if slot.arity = .list then some index else none, ancestors⟩ n calls e) :
    BrokenItems keys room ancestors parent k slot index (n :: ns) calls e
  /-- The first part ends as something that may not be in the slot. -/
  | misfit {room ancestors parent k slot index n ns calls n? ended e}
    (visited : Visited keys ⟨some k, if slot.arity = .list then some index else none, ancestors⟩ n
      calls n? ended)
    (objection : parent.objection? k (n?.map Node.kind) = some e) :
    BrokenItems keys room ancestors parent k slot index (n :: ns) calls e

end

/-- The error, unless it is the one of the limit. -/
def VisitError.ofPart? (e : VisitError) : Option VisitError := if e = .tooDeep then none else some e

private theorem Kind.ne_tooDeep_of_objection? {parent : Kind} {k : Key} {left : Option Kind}
    {e : VisitError} (h : parent.objection? k left = some e) : e ≠ .tooDeep := by
  cases left with
  | none =>
    obtain ⟨-, h⟩ := Option.ite_none_right_eq_some.1 h
    cases h
    nofun
  | some found =>
    obtain ⟨-, h⟩ := Option.ite_none_left_eq_some.1 h
    cases h
    nofun

private theorem Ending.ne_tooDeep_of_error? {x : Ending} {e : VisitError} (h : x.error? = some e) :
    e ≠ .tooDeep := by
  obtain ⟨parent, -, h⟩ := Option.bind_eq_some_iff.1 h
  obtain ⟨k, -, h⟩ := Option.bind_eq_some_iff.1 h
  exact Kind.ne_tooDeep_of_objection? h

/-- The error of the first part that ends as it may not in these calls of a walk. -/
def Call.error? (calls : List (Call σ)) : Option VisitError :=
  (allEndings [] calls).findSome? Ending.error?

mutual

/-- The calls of a walk are those for its root and those for parts. -/
theorem Visited.context_of_mem {keys : KeyTable} {context : Context} {n : Node}
    {calls : List (Call σ)} {n? : Option Node} {ended : Bool}
    (h : Visited keys context n calls n? ended) :
    ∀ c ∈ calls, c.context = context ∨ c.context.key.isSome = true := by
  match h with
  | .passed _ => exact List.forall_mem_singleton.2 (.inl rfl)
  | .cut _ inside =>
    exact List.forall_mem_cons.2 ⟨.inl rfl, fun c hc => .inr (inside.key_of_mem c hc)⟩
  | .left _ inside =>
    refine List.forall_mem_cons.2 ⟨.inl rfl,
      List.forall_mem_append.2 ⟨fun c hc => .inr (inside.key_of_mem c hc), ?_⟩⟩
    exact List.forall_mem_singleton.2 (.inl rfl)

theorem VisitedParts.key_of_mem {keys : KeyTable} {ancestors : List Kind}
    {ks : List Key} {n m : Node} {calls : List (Call σ)} {ended : Bool}
    (h : VisitedParts keys ancestors ks n calls m ended) :
    ∀ c ∈ calls, c.context.key.isSome = true := by
  match h with
  | .done => exact List.forall_mem_nil _
  | .absent _ others => exact others.key_of_mem
  | .slot _ items _ others => exact List.forall_mem_append.2 ⟨items.key_of_mem, others.key_of_mem⟩
  | .last _ items _ => exact items.key_of_mem

theorem VisitedItems.key_of_mem {keys : KeyTable} {ancestors : List Kind} {k : Key}
    {slot : Slot} {index : Nat} {ns kept : List Node} {calls : List (Call σ)} {ended : Bool}
    (h : VisitedItems keys ancestors k slot index ns calls kept ended) :
    ∀ c ∈ calls, c.context.key.isSome = true := by
  match h with
  | .done => exact List.forall_mem_nil _
  | .item visited _ others =>
    refine List.forall_mem_append.2 ⟨fun c hc => ?_, others.key_of_mem⟩
    exact (visited.context_of_mem c hc).elim (fun same => same ▸ rfl) id
  | .last visited _ =>
    exact fun c hc => (visited.context_of_mem c hc).elim (fun same => same ▸ rfl) id

end

/-- All calls of the walk of a part have a key. -/
theorem Visited.key_of_mem {keys : KeyTable} {context : Context} {n : Node} {calls : List (Call σ)}
    {n? : Option Node} {ended : Bool} (h : Visited keys context n calls n? ended)
    (key : context.key.isSome = true) : ∀ c ∈ calls, c.context.key.isSome = true :=
  fun c hc => (h.context_of_mem c hc).elim (fun same => same ▸ key) id

/-- Calls that are made where these nodes are open and at most `room` more may be, up to the end of
a part that gives the error, or to the node for which there is no room. -/
structure Fails (room : Nat) (opened calls : List (Call σ)) (e : VisitError) : Prop where
  nested : Nested opened calls
  error : (allEndings opened calls).findSome? Ending.error? = e.ofPart?
  /-- It is the last of the calls that ends the part. -/
  before : ∀ x ∈ allEndings opened calls.dropLast, x.error? = none
  /-- What was entered without a key, as the root is, has not ended. -/
  inner : ∀ c ∈ calls, c.context.key = none → c.opened?.isSome = true
  deep : e = .tooDeep → (afterAll opened calls).length = opened.length + room

theorem Fails.opens {room : Nat} {opened calls : List (Call σ)} {e : VisitError} {n m : Node}
    {context : Context} {s : σ} {a : Action} (opens : a.opened? n = some m)
    (kinds : context.ancestors = openKinds opened)
    (h : Fails room (opened ++ [⟨.enter, n, context, s, a⟩]) calls e) :
    Fails (room + 1) opened (⟨.enter, n, context, s, a⟩ :: calls) e where
  nested := ⟨kinds, by rw [after_opens opened opens]; exact h.nested⟩
  error := by
    rw [allEndings, endings_opens opened opens, after_opens opened opens]
    exact h.error
  before := admitted_opens opens h.before
  inner := List.forall_mem_cons.2 ⟨fun _ => by simp [opened?, opens], h.inner⟩
  deep he := by
    rw [afterAll_cons, after_opens opened opens, h.deep he, List.length_append,
      List.length_singleton]
    omega

namespace Settled

variable {room : Nat} {opened calls calls' : List (Call σ)} {own : List Ending} {ended : Bool}
  {e : VisitError}

private theorem append_fails (h : Settled opened calls own false)
    (hown : ∀ x ∈ own, x.error? = none) (keyed : ∀ c ∈ calls, c.context.key.isSome = true)
    (h' : Fails room opened calls' e) : Fails room opened (calls ++ calls') e where
  nested := nested_append h.nested (by rw [h.after rfl]; exact h'.nested)
  error := by
    rw [allEndings_append, h.after rfl, List.findSome?_append,
      List.findSome?_eq_none_iff.2 (h.admitted hown)]
    exact h'.error
  before := h.before_append hown h'.before
  inner := List.forall_mem_append.2 ⟨fun c hc key => by simpa [key] using keyed c hc, h'.inner⟩
  deep he := by rw [afterAll_append, h.after rfl, h'.deep he]

/-- A part that ends as it may not gives the error. -/
theorem fails {x : Ending} (h : Settled opened calls [x] ended) (hx : x.error? = some e)
    (keyed : ∀ c ∈ calls, c.context.key.isSome = true) : Fails room opened calls e where
  nested := h.nested
  error := by
    obtain ⟨xs, hxs, eq⟩ := h.endings
    rw [eq, List.findSome?_append, List.findSome?_eq_none_iff.2 hxs, VisitError.ofPart?,
      if_neg (Ending.ne_tooDeep_of_error? hx)]
    simp [hx]
  before := h.before
  inner c hc key := by simpa [key] using keyed c hc
  deep he := absurd he (Ending.ne_tooDeep_of_error? hx)

end Settled

namespace Walk

variable {α β : Type}

private theorem bind_eq_error {w : Walk σ α} {f : α → Walk σ β} {p p' : Progress σ} {e : VisitError}
    (h : (w >>= f) p = (.error e, p')) :
    w p = (.error e, p') ∨ ∃ a q, w p = (.ok a, q) ∧ f a q = (.error e, p') := by
  simp only [Bind.bind] at h
  cases hw : w p with
  | mk result q =>
    rw [hw] at h
    cases result with
    | error e' => cases h; exact .inl rfl
    | ok a => exact .inr ⟨a, q, rfl, h⟩

/-- Nothing fails behind the parts of a node. -/
theorem inside_eq_error {v : Visitor σ} {keys : KeyTable}
    {walk : Context → Node → Walk σ (Option Node)} {context : Context} {n : Node}
    {p p' : Progress σ} {e : VisitError} (h : inside v keys walk context n p = (.error e, p')) :
    parts walk (context.ancestors ++ [n.kind]) (keys n.kind) n p = (.error e, p') := by
  rcases bind_eq_error h with h | ⟨m, ⟨s, ended⟩, hparts, -⟩
  · exact h
  · cases ended with
    | true => rw [inside_cut hparts] at h; cases h
    | false => rw [inside_left hparts] at h; cases h

/-- A walk of parts with a visitor that does what `v` does and writes its calls down: where it
fails, the calls that it adds are those of a walk that fails. -/
def Reports (keys : KeyTable) (room : Nat) (v : Visitor σ)
    (walk : Context → Node → Walk (σ × List (Call σ)) (Option Node)) : Prop :=
  ∀ {context n s e p}, walk context n ⟨s, false⟩ = (.error e, p) →
    ∃ calls, Wrote v s calls p.state ∧ Broken keys room context n calls e

namespace Reports

variable {room : Nat} {keys : KeyTable} {v : Visitor σ}
  {walk : Context → Node → Walk (σ × List (Call σ)) (Option Node)} (h : Reports keys room v walk)
  (visits : Visits keys v walk) {ancestors : List Kind} {p : Progress (σ × List (Call σ))}
  {e : VisitError}

include h visits

theorem items {n : Node} {k : Key} {slot : Slot} (hslot : n.slot? k = some slot) {ns : List Node}
    (admits : ∀ c ∈ ns, slot.admits c = true) :
    ∀ {index s}, items walk ancestors n.kind k slot index ns ⟨s, false⟩ = (.error e, p) →
      ∃ calls, Wrote v s calls p.state ∧
        BrokenItems keys room ancestors n.kind k slot index ns calls e := by
  induction ns with
  | nil => exact nofun
  | cons c ns ih =>
    intro index s hitems
    obtain ⟨-, others⟩ := List.forall_mem_cons.1 admits
    rcases bind_eq_error hitems with failed | ⟨n?, ⟨t, ended⟩, hwalk, htail⟩
    · obtain ⟨calls, wrote, broken⟩ := h failed
      exact ⟨calls, wrote, .within broken⟩
    obtain ⟨calls, wrote, visited⟩ := visits.visited hwalk
    rcases bind_eq_error htail with misfit | ⟨kept, q, hsettle, hrest⟩
    · obtain ⟨objection, rfl⟩ := settle_eq_error hslot misfit
      exact ⟨calls, wrote, .misfit visited objection⟩
    · obtain ⟨takes, rfl, rfl⟩ := settle_eq_ok hsettle
      rcases bind_eq_error hrest with failed | ⟨_, _, -, hpure⟩
      · cases ended with
        | true =>
          rw [items_ended visits.ended n.kind k t (index + 1) others] at failed
          cases failed
        | false =>
          obtain ⟨calls', wrote', broken⟩ := ih others failed
          exact ⟨calls ++ calls', wrote.append wrote', .later visited takes broken⟩
      · cases hpure

theorem parts {ks : List Key} : ∀ {n s}, parts walk ancestors ks n ⟨s, false⟩ = (.error e, p) →
    ∃ calls, Wrote v s calls p.state ∧ BrokenParts keys room ancestors ks n calls e := by
  induction ks with
  | nil => exact fun hparts => nomatch hparts
  | cons k ks ih =>
    intro n s hparts
    unfold Walk.parts at hparts
    cases hslot : n.slot? k with
    | none =>
      rw [hslot] at hparts
      obtain ⟨calls, wrote, broken⟩ := ih hparts
      exact ⟨calls, wrote, .absent hslot broken⟩
    | some slot =>
      rw [hslot] at hparts
      have accepts : slot.Accepts slot.children := (Node.proper_of_slot? hslot).accepts_children
      rcases bind_eq_error hparts with failed | ⟨kept, ⟨t, ended⟩, hitems, hrest⟩
      · obtain ⟨calls, wrote, broken⟩ := h.items visits hslot accepts.admits failed
        exact ⟨calls, wrote, .here hslot broken⟩
      obtain ⟨calls, wrote, visited⟩ := visits.items accepts.admits hitems
      have refills : n.Refills k kept (slot.fill kept) :=
        Node.refills_of_slot? hslot (visited.accepts accepts)
      cases ended with
      | true =>
        rw [parts_ended visits.ended] at hrest
        cases hrest
      | false =>
        obtain ⟨calls', wrote', broken⟩ := ih hrest
        exact ⟨calls ++ calls', wrote.append wrote', .later hslot visited refills broken⟩

end Reports

/-- Where a walk fails, its calls are those of a visit up to the fault. -/
theorem reports_node (v : Visitor σ) (keys : KeyTable) (limit : Nat) :
    Reports keys limit v (node v.recorded keys limit) := by
  induction limit with
  | zero =>
    intro context n s e p hnode
    cases hnode
    exact ⟨[], .nil s, .full⟩
  | succ limit ih =>
    intro context n s e p hnode
    cases opens : (v.enter n context s.1).1.opened? n with
    | none =>
      rw [node_passed (show (v.recorded.enter n context s).1.opened? n = none from opens)] at hnode
      cases hnode
    | some m =>
      rw [node_opened (show (v.recorded.enter n context s).1.opened? n = some m from opens)]
        at hnode
      obtain ⟨calls, wrote, broken⟩ := ih.parts (visits_node v keys limit) (inside_eq_error hnode)
      exact ⟨_, (Wrote.call v .enter n context s).append wrote, .inside opens broken⟩

end Walk

mutual

theorem Broken.fails {keys : KeyTable} {room : Nat} {context : Context} {n : Node}
    {calls opened : List (Call σ)} {e : VisitError} (h : Broken keys room context n calls e)
    (kinds : context.ancestors = openKinds opened) : Fails room opened calls e := by
  match h with
  | .full =>
    exact ⟨trivial, rfl, List.forall_mem_nil _, List.forall_mem_nil _, fun _ => rfl⟩
  | .inside opens inside =>
    refine .opens opens kinds (inside.fails ?_ List.getLast?_concat)
    rw [openKinds_concat opens, kinds]

theorem BrokenParts.fails {keys : KeyTable} {room : Nat} {ancestors : List Kind} {ks : List Key}
    {n : Node} {calls opened : List (Call σ)} {e : VisitError}
    (h : BrokenParts keys room ancestors ks n calls e) (kinds : ancestors = openKinds opened)
    (parent : ancestors.getLast? = some n.kind) : Fails room opened calls e := by
  match h with
  | .absent _ others => exact others.fails kinds parent
  | .later hslot items refills others =>
    have settled := items.settled kinds parent hslot
    have fails := others.fails kinds (refills.kind.symm ▸ parent)
    exact settled.append_fails (List.forall_mem_nil _) items.key_of_mem fails
  | .here hslot items => exact items.fails kinds parent rfl hslot

theorem BrokenItems.fails {keys : KeyTable} {room : Nat} {ancestors : List Kind} {parent : Kind}
    {p : Node} {k : Key} {slot : Slot} {index : Nat} {ns : List Node} {calls opened : List (Call σ)}
    {e : VisitError} (h : BrokenItems keys room ancestors parent k slot index ns calls e)
    (kinds : ancestors = openKinds opened) (last : ancestors.getLast? = some parent)
    (hp : p.kind = parent) (hslot : p.slot? k = some slot) : Fails room opened calls e := by
  match h with
  | .later visited takes others =>
    have settled := visited.settled kinds
    have fails := others.fails kinds last hp hslot
    exact settled.append_fails (takes.error?_eq_none hslot (hp ▸ last) _) (visited.key_of_mem rfl)
      fails
  | .within broken => exact broken.fails kinds
  | .misfit visited objection =>
    have settled := visited.settled kinds
    exact settled.fails ((Ending.error?_of_parent last _).trans objection) (visited.key_of_mem rfl)

end

/-- Unless the walk is ended, every part ends as the answer to a call of its own has it. -/
theorem Call.admitted_of_closing {calls : List (Call σ)}
    (h : ∀ c ∈ calls, c.opened? = none → c.action.isHalt = false ∧ c.closing.error? = none) :
    ∀ opened, ∀ x ∈ allEndings opened calls, x.error? = none := by
  induction calls with
  | nil => exact fun _ => List.forall_mem_nil _
  | cons c calls ih =>
    obtain ⟨first, others⟩ := List.forall_mem_cons.1 h
    intro opened
    refine List.forall_mem_append.2 ⟨?_, ih others _⟩
    cases hc : c.opened? with
    | some m => simp [endings, hc]
    | none =>
      obtain ⟨goesOn, fits⟩ := first hc
      simpa [endings, hc, goesOn] using fits

namespace Node

/-- The walk of a tree fails exactly if a part ends as it may not. -/
structure FailsExactly (keys : KeyTable) (limit : Nat) (v : Visitor σ) (s : σ) (n : Node) :
    Prop where
  /-- It fails with the error of the first such part, unless there is no room for a node before. -/
  error : ∀ e, (n.visitWith keys limit v s).1 = .error e ∧ e ≠ .tooDeep ↔
    Call.error? (n.calls keys limit v s) = some e
  /-- There is no room for a node only where as many as may be are open. -/
  deep : (n.visitWith keys limit v s).1 = .error .tooDeep →
    (afterAll [] (n.calls keys limit v s)).length = limit
  /-- No call is made after it. -/
  last : ∀ before after, n.calls keys limit v s = before ++ after → after ≠ [] →
    Call.error? before = none
  /-- The kinds by which the error is told are those of the nodes around the part, as
  they were opened. -/
  nested : Nested [] (n.calls keys limit v s)
  /-- What a node was replaced by on entering it is no error if the answer that ends
  the node fits. -/
  mended : (∀ c ∈ n.calls keys limit v s, c.opened? = none →
    c.action.isHalt = false ∧ c.closing.error? = none) →
    ∀ e, (n.visitWith keys limit v s).1 = .error e → e = .tooDeep
  /-- What the root ends as is never an error: it is what the walk gives. -/
  root : ∀ c ∈ n.calls keys limit v s, c.context.key = none → c.opened? = none →
    (n.visitWith keys limit v s).1 = .ok (c.action.result c.node)

variable {keys : KeyTable} {limit : Nat} {v : Visitor σ} {s : σ} {n : Node}

/-- The calls of a walk that fails are those of a visit up to the fault, and of `v` from its first
state to its last. -/
theorem broken_of_visitWith {e : VisitError} (h : (n.visitWith keys limit v s).1 = .error e) :
    Broken keys limit .root n (n.calls keys limit v s) e ∧
      Run v s (n.calls keys limit v s) (n.visitWith keys limit v s).2 := by
  have recorded : (Walk.node v.recorded keys limit .root n ⟨(s, []), false⟩).1 = .error e :=
    (congrArg Prod.fst (n.visitWith_recorded keys limit v s)).trans h
  obtain ⟨calls, wrote, broken⟩ := Walk.reports_node v keys limit (Prod.ext recorded rfl)
  obtain rfl : n.calls keys limit v s = calls := wrote.log
  have last : (n.visitWith keys limit v s).2 = (n.visitWith keys limit v.recorded (s, [])).2.1 := by
    rw [n.visitWith_recorded]
  exact ⟨broken, last ▸ wrote.run⟩

/-- The calls of a walk that fails lead up to the part that gives the error. -/
theorem fails_of_visitWith {e : VisitError} (h : (n.visitWith keys limit v s).1 = .error e) :
    Fails limit [] (n.calls keys limit v s) e :=
  (broken_of_visitWith h).1.fails rfl

/-- In a walk that gives an answer all parts end as they may. -/
theorem settled_of_visitWith {n? : Option Node} (h : (n.visitWith keys limit v s).1 = .ok n?) :
    ∃ ended, Settled [] (n.calls keys limit v s) [] ended := by
  obtain ⟨ended, visited, -⟩ := exists_visited h
  exact ⟨ended, (visited.settled rfl).forget (List.forall_mem_singleton.2 rfl)⟩

private theorem error?_calls (keys : KeyTable) (limit : Nat) (v : Visitor σ) (s : σ) (n : Node) :
    Call.error? (n.calls keys limit v s) =
      match (n.visitWith keys limit v s).1 with
      | .ok _ => none
      | .error e => e.ofPart? := by
  cases result : (n.visitWith keys limit v s).1 with
  | error e => exact (fails_of_visitWith result).error
  | ok n? =>
    obtain ⟨ended, settled⟩ := settled_of_visitWith result
    obtain ⟨xs, hxs, eq⟩ := settled.endings
    have none_unwound : (if ended then unwound ([] : List (Call σ)) else []) = [] := by
      cases ended <;> rfl
    rw [none_unwound] at eq
    rw [Call.error?, eq, List.append_nil, List.append_nil]
    exact List.findSome?_eq_none_iff.2 hxs

private theorem nested_calls : Nested [] (n.calls keys limit v s) := by
  cases result : (n.visitWith keys limit v s).1 with
  | error e => exact (fails_of_visitWith result).nested
  | ok n? => exact (settled_of_visitWith result).elim fun _ settled => settled.nested

/-- All parts that end before the last call end as they may. -/
theorem admitted_dropLast (keys : KeyTable) (limit : Nat) (v : Visitor σ) (s : σ) (n : Node) :
    ∀ x ∈ allEndings [] (n.calls keys limit v s).dropLast, x.error? = none := by
  cases result : (n.visitWith keys limit v s).1 with
  | error e => exact (fails_of_visitWith result).before
  | ok n? => exact (settled_of_visitWith result).elim fun _ settled => settled.before

/-- The answer that ends the root is what the walk gives. -/
theorem visitWith_of_closing {c : Call σ} (hc : c ∈ n.calls keys limit v s)
    (key : c.context.key = none) (closes : c.opened? = none) :
    (n.visitWith keys limit v s).1 = .ok (c.action.result c.node) := by
  cases result : (n.visitWith keys limit v s).1 with
  | error e => simpa [closes] using (fails_of_visitWith result).inner c hc key
  | ok n? =>
    obtain ⟨ended, visited, -⟩ := exists_visited result
    have notInside {ancestors : List Kind} {ks : List Key} {m r : Node}
        {calls : List (Call σ)} {ended : Bool}
        (inside : VisitedParts keys ancestors ks m calls r ended) : c ∉ calls := fun hc => by
      simpa [key] using inside.key_of_mem c hc
    generalize n.calls keys limit v s = calls at visited hc
    cases visited with
    | passed _ =>
      obtain rfl := List.mem_singleton.1 hc
      rfl
    | cut opens inside =>
      rcases List.mem_cons.1 hc with rfl | hc
      · exact nomatch opens.symm.trans closes
      · exact absurd hc (notInside inside)
    | left opens inside =>
      rcases List.mem_cons.1 hc with rfl | hc
      · exact nomatch opens.symm.trans closes
      · rcases List.mem_append.1 hc with hc | hc
        · exact absurd hc (notInside inside)
        · obtain rfl := List.mem_singleton.1 hc
          rfl

/-- Errors of walks are exact. For all trees, key tables and visitors, a walk fails if and only if a
part ends removed from a slot that needs it, or as a node of a kind that the slot does not admit.
The error is that of the first part that does, by the kind of the node around it, its key and its
kind, and no call is made after it. -/
theorem failsExactly (keys : KeyTable) (limit : Nat) (v : Visitor σ) (s : σ) (n : Node) :
    n.FailsExactly keys limit v s where
  error e := by
    rw [error?_calls]
    cases (n.visitWith keys limit v s).1 with
    | ok n? => exact ⟨fun h => (nomatch h.1), nofun⟩
    | error f =>
      simp only [Except.error.injEq, VisitError.ofPart?, Option.ite_none_left_eq_some,
        Option.some.injEq]
      constructor
      · rintro ⟨rfl, ne⟩
        exact ⟨ne, rfl⟩
      · rintro ⟨ne, rfl⟩
        exact ⟨rfl, ne⟩
  deep h := ((fails_of_visitWith h).deep rfl).trans (Nat.zero_add limit)
  last before after h hne := by
    have admitted := admitted_dropLast keys limit v s n
    rw [h, List.dropLast_append_of_ne_nil hne, allEndings_append] at admitted
    exact List.findSome?_eq_none_iff.2 (List.forall_mem_append.1 admitted).1
  nested := nested_calls
  mended h e he := by
    have admitted := List.findSome?_eq_none_iff.2 (Call.admitted_of_closing h [])
    have reported := error?_calls keys limit v s n
    rw [he, Call.error?, admitted] at reported
    by_contra ne
    simp [VisitError.ofPart?, ne] at reported
  root _ := visitWith_of_closing

/-- The name of a type becomes a type on entering it, which is no error if it is made a name again
on leaving, and else the last thing that is done. -/
example :
    let n : Node := .type (.named ⟨⟨"A", none⟩, none⟩)
    let v (mends : Bool) : Visitor Unit :=
      ⟨fun _ c _ => (if c.key = some .name ∧ c.depth = 1 then .replace n else .keep, ()),
       fun _ c _ =>
        (if c.depth = 1 ∧ mends then .replace (.name ⟨"B", none⟩) else .keep, ())⟩
    (n.visitWith schemaKeys 4 (v true) ()).1 = .ok (some (.type (.named ⟨⟨"B", none⟩, none⟩))) ∧
      (n.visitWith schemaKeys 4 (v false) ()).1 =
        .error (.mismatchedReplacement .namedType .name .namedType) ∧
      (n.calls schemaKeys 4 (v false) ()).map (fun c => (c.side, c.node.kind, c.context.depth)) =
        [(.enter, .namedType, 0), (.enter, .name, 1), (.enter, .name, 2), (.leave, .name, 2),
         (.leave, .namedType, 1)] :=
  ⟨rfl, rfl, rfl⟩

end Node

end SchemaLang
