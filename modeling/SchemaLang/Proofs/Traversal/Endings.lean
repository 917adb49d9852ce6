import SchemaLang.Proofs.Traversal.Admission
import SchemaLang.Proofs.Traversal.Protocol

/-!
# How parts end

The calls of a walk alone tell what has become of each part, and when. A call to leave a node ends
it, and so does a call to enter it that is answered with anything but going on with its parts; what
the answer makes of the node is what it ends as. An answer that ends the walk ends all nodes that
are open as well, from the inside out: they end as what they were replaced by on entering them. In a
visit no part ends as something that its slot does not admit.
-/

namespace SchemaLang

variable {σ : Type}

/-- How a part ends: where it stands, and the kind of what is left of it, if anything is. -/
structure Ending where
  context : Context
  left : Option Kind

/-- The error of a walk in which a part ends like this. The root stands in no slot, and may
end as anything. -/
def Ending.error? (x : Ending) : Option VisitError := do
  (← x.context.parent).objection? (← x.context.key) x.left

theorem Ending.error?_of_parent {k : Key} {place : Option Nat}
    {ancestors : List Kind} {parent : Kind} (h : ancestors.getLast? = some parent)
    (left : Option Kind) :
    error? ⟨⟨some k, place, ancestors⟩, left⟩ = parent.objection? k left := by
  simp [error?, Context.parent, h]

namespace Call

/-- The calls that opened the nodes around that of a call, the outermost first. A node that is left
is open itself, as the innermost one. -/
def around (c : Call σ) (opened : List (Call σ)) : List (Call σ) :=
  match c.side with
  | .enter => opened
  | .leave => opened.dropLast

/-- The calls whose nodes are open after a call. -/
def after (c : Call σ) (opened : List (Call σ)) : List (Call σ) :=
  if c.opened?.isSome then c.around opened ++ [c] else c.around opened

/-- The calls whose nodes are open after some calls. -/
def afterAll (opened calls : List (Call σ)) : List (Call σ) :=
  calls.foldl (fun opened c => c.after opened) opened

/-- The node of the call ends as `n?`. -/
def ending (c : Call σ) (n? : Option Node) : Ending := ⟨c.context, n?.map Node.kind⟩

/-- What the answer to a call ends its node as, unless it opens the node. -/
def closing (c : Call σ) : Ending := c.ending (c.action.result c.node)

/-- The ends of all open nodes, as what they were opened. -/
def unwound (opened : List (Call σ)) : List Ending := opened.reverse.map fun o => o.ending o.opened?

/-- The ends that a call brings about. -/
def endings (c : Call σ) (opened : List (Call σ)) : List Ending :=
  if c.opened?.isSome then []
  else c.closing :: if c.action.isHalt then unwound (c.around opened) else []

/-- The ends that some calls bring about, in their order. -/
def allEndings (opened : List (Call σ)) : List (Call σ) → List Ending
  | [] => []
  | c :: calls => c.endings opened ++ allEndings (c.after opened) calls

/-- Every one of the calls tells the kinds of the nodes around its own, as what they were opened. -/
def Nested (opened : List (Call σ)) : List (Call σ) → Prop
  | [] => True
  | c :: calls => c.context.ancestors = openKinds (c.around opened) ∧ Nested (c.after opened) calls

theorem afterAll_cons (opened : List (Call σ)) (c : Call σ) (calls : List (Call σ)) :
    afterAll opened (c :: calls) = afterAll (c.after opened) calls := rfl

theorem allEndings_append (opened calls calls' : List (Call σ)) :
    allEndings opened (calls ++ calls') =
      allEndings opened calls ++ allEndings (afterAll opened calls) calls' := by
  induction calls generalizing opened with
  | nil => rfl
  | cons c calls ih =>
    rw [List.cons_append, allEndings, ih, allEndings, afterAll_cons, List.append_assoc]

theorem afterAll_append (opened calls calls' : List (Call σ)) :
    afterAll opened (calls ++ calls') = afterAll (afterAll opened calls) calls' := List.foldl_append

theorem nested_append {opened calls calls' : List (Call σ)} (h : Nested opened calls)
    (h' : Nested (afterAll opened calls) calls') : Nested opened (calls ++ calls') := by
  induction calls generalizing opened with
  | nil => exact h'
  | cons c calls ih => exact ⟨h.1, ih h.2 h'⟩

private theorem unwound_concat (opened : List (Call σ)) (o : Call σ) :
    unwound (opened ++ [o]) = o.ending o.opened? :: unwound opened := by
  simp [unwound]

section

variable {n m : Node} {context : Context} {s : σ} {a : Action} (opened : List (Call σ))

theorem after_opens (h : a.opened? n = some m) :
    after ⟨.enter, n, context, s, a⟩ opened = opened ++ [⟨.enter, n, context, s, a⟩] := by
  simp [after, opened?, around, h]

theorem endings_opens (h : a.opened? n = some m) :
    endings ⟨.enter, n, context, s, a⟩ opened = [] := by
  simp [endings, opened?, h]

/-- Opening a node ends nothing. -/
theorem admitted_opens {opened calls : List (Call σ)} (h : a.opened? n = some m)
    (admitted : ∀ x ∈ allEndings (opened ++ [⟨.enter, n, context, s, a⟩]) calls.dropLast,
      x.error? = none) :
    ∀ x ∈ allEndings opened ((⟨.enter, n, context, s, a⟩ : Call σ) :: calls).dropLast,
    x.error? = none := by
  cases calls with
  | nil => exact List.forall_mem_nil _
  | cons c calls =>
    rw [List.dropLast_cons_of_ne_nil (List.cons_ne_nil c calls), allEndings, endings_opens opened h,
      after_opens opened h]
    exact admitted

private theorem after_passes (h : a.opened? n = none) :
    after ⟨.enter, n, context, s, a⟩ opened = opened := by
  simp [after, opened?, around, h]

private theorem endings_passes (h : a.opened? n = none) :
    endings ⟨.enter, n, context, s, a⟩ opened =
      ⟨context, (a.result n).map Node.kind⟩ :: if a.isHalt then unwound opened else [] := by
  simp [endings, opened?, around, closing, ending, h]

private theorem after_leaves (o : Call σ) :
    after ⟨.leave, n, context, s, a⟩ (opened ++ [o]) = opened := by
  simp [after, opened?, around]

private theorem endings_leaves (o : Call σ) :
    endings ⟨.leave, n, context, s, a⟩ (opened ++ [o]) =
      ⟨context, (a.result n).map Node.kind⟩ :: if a.isHalt then unwound opened else [] := by
  simp [endings, opened?, around, closing, ending]

end

end Call

open Call

/-- Calls that are made where these nodes are open, in which parts end as they may. They end
with `own`, and if they end the walk, all open nodes end after that; otherwise the same nodes
are open again. -/
structure Settled (opened calls : List (Call σ)) (own : List Ending) (ended : Bool) : Prop where
  nested : Nested opened calls
  after : ended = false → afterAll opened calls = opened
  endings : ∃ xs, (∀ x ∈ xs, x.error? = none) ∧
    allEndings opened calls = xs ++ (own ++ if ended then unwound opened else [])
  /-- The last of the calls ends the first part that ends as it may not, if one does. -/
  before : ∀ x ∈ allEndings opened calls.dropLast, x.error? = none

namespace Settled

variable {opened calls calls' : List (Call σ)} {own own' : List Ending} {ended : Bool}

theorem nil (opened : List (Call σ)) : Settled opened [] [] false :=
  ⟨trivial, fun _ => rfl, ⟨[], List.forall_mem_nil _, rfl⟩, List.forall_mem_nil _⟩

/-- If the last ones are as they may be, so are all. -/
theorem admitted (h : Settled opened calls own false) (hown : ∀ x ∈ own, x.error? = none) :
    ∀ x ∈ allEndings opened calls, x.error? = none := by
  obtain ⟨xs, hxs, eq⟩ := h.endings
  rw [eq]
  simpa using List.forall_mem_append.2 ⟨hxs, hown⟩

theorem before_append (h : Settled opened calls own false) (hown : ∀ x ∈ own, x.error? = none)
    (h' : ∀ x ∈ allEndings opened calls'.dropLast, x.error? = none) :
    ∀ x ∈ allEndings opened (calls ++ calls').dropLast, x.error? = none := by
  rw [List.dropLast_append]
  split
  · exact h.before
  · rw [allEndings_append, h.after rfl]
    exact List.forall_mem_append.2 ⟨h.admitted hown, h'⟩

theorem append (h : Settled opened calls own false) (hown : ∀ x ∈ own, x.error? = none)
    (h' : Settled opened calls' own' ended) : Settled opened (calls ++ calls') own' ended where
  nested := nested_append h.nested (by rw [h.after rfl]; exact h'.nested)
  after hended := by rw [afterAll_append, h.after rfl, h'.after hended]
  endings := by
    obtain ⟨xs, hxs, eq⟩ := h'.endings
    refine ⟨allEndings opened calls ++ xs, List.forall_mem_append.2 ⟨h.admitted hown, hxs⟩, ?_⟩
    rw [allEndings_append, h.after rfl, eq, List.append_assoc]
  before := h.before_append hown h'.before

/-- What ends last is as it may be, and so nothing has to be said of it. -/
theorem forget (h : Settled opened calls own ended) (hown : ∀ x ∈ own, x.error? = none) :
    Settled opened calls [] ended where
  nested := h.nested
  after := h.after
  endings := by
    obtain ⟨xs, hxs, eq⟩ := h.endings
    exact ⟨xs ++ own, List.forall_mem_append.2 ⟨hxs, hown⟩, by rw [eq, List.append_assoc]; rfl⟩
  before := h.before

section

variable {n m r : Node} {context : Context} {s t : σ} {a b : Action}
  (kinds : context.ancestors = openKinds opened) (opens : a.opened? n = some m)

include kinds

theorem passes (closed : a.opened? n = none) :
    Settled opened [⟨.enter, n, context, s, a⟩]
      [⟨context, (a.result n).map Node.kind⟩] a.isHalt where
  nested := ⟨kinds, trivial⟩
  after _ := after_passes opened closed
  endings :=
    ⟨[], List.forall_mem_nil _,
      by rw [allEndings, endings_passes opened closed]; exact List.append_nil _⟩
  before := List.forall_mem_nil _

include opens

/-- The walk ends among the parts of a node. -/
theorem cut (h : Settled (opened ++ [⟨.enter, n, context, s, a⟩]) calls [] true)
    (hr : r.kind = m.kind) :
    Settled opened (⟨.enter, n, context, s, a⟩ :: calls) [⟨context, some r.kind⟩] true where
  nested := ⟨kinds, by rw [after_opens opened opens]; exact h.nested⟩
  after goesOn := absurd goesOn (by decide)
  endings := by
    obtain ⟨xs, hxs, eq⟩ := h.endings
    refine ⟨xs, hxs, ?_⟩
    rw [allEndings, endings_opens opened opens, after_opens opened opens, eq,
      if_pos rfl, unwound_concat]
    simp [ending, opened?, opens, hr]
  before := admitted_opens opens h.before

/-- A node is left after its parts. -/
theorem left (h : Settled (opened ++ [⟨.enter, n, context, s, a⟩]) calls [] false) :
    Settled opened (⟨.enter, n, context, s, a⟩ :: (calls ++ [⟨.leave, r, context, t, b⟩]))
      [⟨context, (b.result r).map Node.kind⟩] b.isHalt where
  nested := by
    refine ⟨kinds, ?_⟩
    rw [after_opens opened opens]
    refine nested_append h.nested ?_
    rw [h.after rfl]
    refine ⟨?_, trivial⟩
    rw [around, List.dropLast_concat]
    exact kinds
  after _ := by
    rw [afterAll_cons, after_opens opened opens, afterAll_append, h.after rfl,
      afterAll_cons, after_leaves]
    rfl
  endings := by
    obtain ⟨xs, hxs, eq⟩ := h.endings
    refine ⟨xs, hxs, ?_⟩
    rw [allEndings, endings_opens opened opens, after_opens opened opens, allEndings_append,
      h.after rfl, eq]
    simp [allEndings, endings_leaves]
  before := by
    rw [← List.cons_append, List.dropLast_concat, allEndings, endings_opens opened opens,
      after_opens opened opens]
    exact h.admitted (List.forall_mem_nil _)

end

end Settled

theorem Slot.Takes.error?_eq_none {p : Node} {k : Key} {slot : Slot} {n? : Option Node}
    (h : slot.Takes n?) (hslot : p.slot? k = some slot) {ancestors : List Kind}
    (parent : ancestors.getLast? = some p.kind) (place : Option Nat) :
    ∀ x ∈ [(⟨⟨some k, place, ancestors⟩, n?.map Node.kind⟩ : Ending)], x.error? = none := by
  rw [List.forall_mem_singleton, Ending.error?_of_parent parent]
  exact (Walk.objection?_eq_none_iff hslot n?).2 h

mutual

theorem Visited.settled {keys : KeyTable} {context : Context} {n : Node}
    {calls opened : List (Call σ)} {n? : Option Node} {ended : Bool}
    (h : Visited keys context n calls n? ended) (kinds : context.ancestors = openKinds opened) :
    Settled opened calls [⟨context, n?.map Node.kind⟩] ended := by
  match h with
  | .passed closed => exact .passes kinds closed
  | .cut opens inside =>
    exact .cut kinds opens
      (inside.settled (by rw [openKinds_concat opens, kinds]) List.getLast?_concat) inside.kind
  | .left opens inside =>
    exact .left kinds opens
      (inside.settled (by rw [openKinds_concat opens, kinds]) List.getLast?_concat)

theorem VisitedParts.settled {keys : KeyTable} {ancestors : List Kind} {ks : List Key} {n m : Node}
    {calls opened : List (Call σ)} {ended : Bool}
    (h : VisitedParts keys ancestors ks n calls m ended) (kinds : ancestors = openKinds opened)
    (parent : ancestors.getLast? = some n.kind) : Settled opened calls [] ended := by
  match h with
  | .done => exact .nil opened
  | .absent _ others => exact others.settled kinds parent
  | .slot slot? items refills others =>
    have first := items.settled kinds parent slot?
    exact first.append (List.forall_mem_nil _) (others.settled kinds (refills.kind.symm ▸ parent))
  | .last slot? items _ => exact items.settled kinds parent slot?

theorem VisitedItems.settled {keys : KeyTable} {ancestors : List Kind} {k : Key}
    {slot : Slot} {index : Nat} {p : Node} {ns kept : List Node}
    {calls opened : List (Call σ)} {ended : Bool}
    (h : VisitedItems keys ancestors k slot index ns calls kept ended)
    (kinds : ancestors = openKinds opened) (parent : ancestors.getLast? = some p.kind)
    (hslot : p.slot? k = some slot) : Settled opened calls [] ended := by
  match h with
  | .done => exact .nil opened
  | .item visited takes others =>
    exact (visited.settled kinds).append (takes.error?_eq_none hslot parent _)
      (others.settled kinds parent hslot)
  | .last visited takes =>
    exact (visited.settled kinds).forget (takes.error?_eq_none hslot parent _)

end

end SchemaLang
