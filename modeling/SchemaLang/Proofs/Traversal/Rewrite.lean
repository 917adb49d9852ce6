import SchemaLang.Proofs.Traversal.Rebuild
import SchemaLang.Proofs.Traversal.Steps

/-!
# Rewriting from the bottom up

A visitor that goes into every node, and answers on leaving by nothing but the node and where it
stands, rewrites a tree from the bottom up: each node is rebuilt from what has become of its parts,
and then answered itself.
-/

namespace SchemaLang

/-- The answer may be given for `n`, whose parts were dealt with, where it stands: a slot there that
admits `n` takes what becomes of it. -/
def Action.FitsAt (a : Action) (n : Node) (context : Context) : Prop :=
  ∀ {p : Node} {k : Key} {slot : Slot}, context.parent = some p.kind → context.key = some k →
    p.slot? k = some slot → slot.admits n = true → slot.Takes (a.result n)

/-- The visitor goes into every node, and answers on leaving by the node and where it stands. -/
structure Visitor.Rewrites {σ : Type} (v : Visitor σ) (answer : Node → Context → Action) :
    Prop where
  enter : ∀ n context s, (v.enter n context s).1 = .keep
  leave : ∀ n context s, (v.leave n context s).1 = answer n context
  goesOn : ∀ n context, (answer n context).isHalt = false
  fits : ∀ n context, (answer n context).FitsAt n context

namespace Node

/-- What becomes of a node at `context` if each node is answered, after its parts, by `answer`. -/
def rewrite (answer : Node → Context → Action) (context : Context) (n : Node) : Option Node :=
  let m := n.mapParts fun k place c =>
    if _ : c ∈ n.children then rewrite answer ⟨some k, place, context.ancestors ++ [n.kind]⟩ c
      else none
  (answer m context).result m
termination_by sizeOf n
decreasing_by exact sizeOf_lt_of_mem_children ‹_›

/-- The parts of the node, each of which stands below it, with what becomes of them. -/
def rewriteParts (answer : Node → Context → Action) (context : Context) (n : Node) : Node :=
  n.mapParts fun k place c => c.rewrite answer ⟨some k, place, context.ancestors ++ [n.kind]⟩

theorem rewrite_eq (answer : Node → Context → Action) (context : Context) (n : Node) :
    n.rewrite answer context =
      (answer (n.rewriteParts answer context) context).result (n.rewriteParts answer context) := by
  have same : (n.mapParts fun k place c =>
      if _ : c ∈ n.children then
        rewrite answer ⟨some k, place, context.ancestors ++ [n.kind]⟩ c
      else none) =
      n.rewriteParts answer context :=
    mapParts_congr fun c hc _ _ => dif_pos hc
  rw [rewrite]
  simp only [same]

end Node

namespace Walk

variable {σ α β : Type}

/-- While it is not ended, the walk gives `a` and does not end. -/
def Gives (w : Walk σ α) (a : α) : Prop := ∀ s, ∃ t, w ⟨s, false⟩ = (.ok a, ⟨t, false⟩)

private theorem gives_pure (a : α) : Gives (pure a : Walk σ α) a := fun s => ⟨s, rfl⟩

theorem Gives.bind {w : Walk σ α} {f : α → Walk σ β} {a : α} {b : β} (h : Gives w a)
    (hf : Gives (f a) b) : Gives (w >>= f) b := by
  intro s
  obtain ⟨t, ht⟩ := h s
  rw [bind_of_ok ht]
  exact hf t

/-- The walk makes of the part `c` of a node of kind `parent` what `g` makes of it, and that may be
where `c` was. -/
structure Makes (walk : Context → Node → Walk σ (Option Node)) (g : PartMap)
    (ancestors : List Kind) (parent : Kind) (c : Node) : Prop where
  gives : ∀ k place, Gives (walk ⟨some k, place, ancestors⟩ c) (g k place c)
  takes : ∀ {p : Node} {k : Key} {slot : Slot} (place : Option Nat), p.kind = parent →
    p.slot? k = some slot → slot.admits c = true → slot.Takes (g k place c)

section

variable {walk : Context → Node →
  Walk σ (Option Node)} {g : PartMap} {ancestors : List Kind} {parent : Kind}

private theorem gives_items {p : Node} {k : Key} {slot : Slot} (hp : p.kind = parent)
    (hslot : p.slot? k = some slot) {ns : List Node} (admits : ∀ c ∈ ns, slot.admits c = true)
    (makes : ∀ c ∈ ns, Makes walk g ancestors parent c) :
    ∀ index, Gives (items walk ancestors parent k slot index ns)
      ((ns.zipIdx index).flatMap fun c =>
      (g k (if slot.arity = .list then some c.2 else none) c.1).toList) := by
  induction ns with
  | nil => exact fun _ => gives_pure []
  | cons c cs ih =>
    intro index
    have first := makes c List.mem_cons_self
    have rest := ih (List.forall_mem_cons.1 admits).2 (List.forall_mem_cons.1 makes).2 (index + 1)
    have takes := first.takes (if slot.arity = .list then some index else none) hp hslot
      (admits c List.mem_cons_self)
    have settled : Gives (σ := σ) (settle parent k slot _) _ :=
      fun s => ⟨s, settle_of_takes takes _⟩
    exact (first.gives k _).bind <| settled.bind <| rest.bind <| gives_pure _

theorem gives_parts {ks : List Key} (hks : ks.Nodup) :
    ∀ {n : Node}, n.kind = parent → n.ForallAt ks (Makes walk g ancestors parent) →
      Gives (parts walk ancestors ks n) (n.refill g ks) := by
  induction ks with
  | nil => exact fun _ _ => gives_pure _
  | cons k ks ih =>
    intro n hn makes
    obtain ⟨hk, hks⟩ := List.nodup_cons.1 hks
    have others : n.ForallAt ks (Makes walk g ancestors parent) :=
      fun k' hk' => makes k' (List.mem_cons_of_mem k hk')
    unfold parts Node.refill
    cases hslot : n.slot? k with
    | none => exact ih hks hn others
    | some slot =>
      have accepts := (Node.proper_of_slot? hslot).accepts_children
      obtain ⟨_, refills⟩ := Node.exists_refills_fill hslot (slot.results g k)
      have first := gives_items hn hslot accepts.admits (makes k List.mem_cons_self slot hslot) 0
      rw [hn]
      exact first.bind (ih hks (refills.kind.trans hn) (others.fill hslot hk _))

end

variable {v : Visitor σ} {answer : Node → Context → Action}

/-- With room for the tree, the walk of it gives what it is rewritten to. -/
theorem gives_node (h : v.Rewrites answer) (limit : Nat) :
    ∀ {n : Node} {context : Context}, n.height ≤ limit →
      Gives (node v schemaKeys limit context n) (n.rewrite answer context) := by
  induction limit with
  | zero => exact fun room => absurd room (Nat.not_le_of_lt (Node.height_pos _))
  | succ limit ih =>
    intro n context room s
    have makes : ∀ c ∈ n.children, Makes (node v schemaKeys limit)
        (fun k place c => c.rewrite answer ⟨some k, place, context.ancestors ++ [n.kind]⟩)
        (context.ancestors ++ [n.kind]) n.kind c := by
      intro c hc
      have lower := Node.height_lt_of_mem_children hc
      refine ⟨fun k place => ih (by omega), fun place hp hslot admits => ?_⟩
      rw [Node.rewrite_eq]
      refine h.fits _ _ ?_ rfl hslot ((Node.keepsSorts_mapParts _).admits hslot admits)
      simp [Context.parent, hp]
    have parts := gives_parts (Node.nodup_schemaKeys n.kind) rfl (Node.forallAt_of_children makes _)
    rw [Node.refill_schemaKeys] at parts
    obtain ⟨t, parts⟩ := parts (v.enter n context s).2
    have opened : (v.enter n context s).1.opened? n = some n := by rw [h.enter]; rfl
    rw [node_opened opened, inside_left parts, h.leave, h.goesOn, n.rewrite_eq]
    exact ⟨_, rfl⟩

end Walk

theorem Node.visit_eq_rewrite {σ : Type} {v : Visitor σ} {answer : Node → Context → Action}
    (h : v.Rewrites answer) (s : σ) (n : Node) :
    (n.visit v s).1 = .ok (n.rewrite answer .root) := by
  have given : Walk.Gives (Walk.node v schemaKeys n.height .root n) (n.rewrite answer .root) :=
    Walk.gives_node h n.height (Nat.le_refl n.height)
  obtain ⟨t, ht⟩ := given s
  simp only [visit, visitWith, ht]

end SchemaLang
