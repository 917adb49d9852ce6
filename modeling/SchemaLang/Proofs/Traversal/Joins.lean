import Mathlib.Data.List.TakeWhile
import SchemaLang.Parser.Definition
import SchemaLang.Proofs.Codec.Joins
import SchemaLang.Proofs.Traversal.Protocol

/-!
# Joins under a walk

A walk puts back into a join whatever is left of its connections, however many these are. So a tree
whose joins are of two connections or more keeps that as long as two are left of each join that any
are taken out of, and may lose it by an answer that takes out one more.
-/

namespace SchemaLang

variable {σ : Type}

namespace Action

/-- Whether the answer takes the node out. -/
def isRemove : Action → Bool
  | .remove => true
  | _ => false

end Action

namespace Call

/-- Whether the call takes a connection out of its join, where so many nodes are around it. -/
def removesConnection (depth : Nat) (c : Call σ) : Bool :=
  c.context.key = some .connections ∧ c.context.depth = depth ∧ c.action.isRemove

/-- The calls inside the node that a call opens: those right after it with more nodes around. -/
def inner (c : Call σ) (calls : List (Call σ)) : List (Call σ) :=
  calls.takeWhile fun d => c.context.depth < d.context.depth

/-- How many connections the calls after it take out of the join that a call opens. -/
def removals (c : Call σ) (calls : List (Call σ)) : Nat :=
  (c.inner calls).countP (removesConnection (c.context.depth + 1))

/-- The join that the call opens. -/
def join? (c : Call σ) : Option ConnectionJoinType :=
  match c.opened? with
  | some (.type (.connectionJoin t)) => some t
  | _ => none

/-- Two or more connections are left of each join that the calls take any out of. -/
def LeaveTwo : List (Call σ) → Prop
  | [] => True
  | c :: calls =>
    (∀ t ∈ c.join?, 0 < c.removals calls → c.removals calls + 2 ≤ t.connections.length) ∧
      LeaveTwo calls

instance decidableLeaveTwo : (calls : List (Call σ)) → Decidable (LeaveTwo calls)
  | [] => .isTrue trivial
  | _ :: calls =>
    have := decidableLeaveTwo calls
    inferInstanceAs (Decidable (_ ∧ _))

private theorem removals_le_append (c : Call σ) (calls calls' : List (Call σ)) :
    c.removals calls ≤ c.removals (calls ++ calls') := by
  have hinner : (c.inner calls).Sublist (c.inner (calls ++ calls')) := by
    rw [inner, inner, List.takeWhile_append]
    split
    · exact (List.takeWhile_sublist _).trans (List.sublist_append_left _ _)
    · exact .refl _
  exact hinner.countP_le

/-- Where all calls leave two, the first ones do, which may take out less. -/
theorem LeaveTwo.of_append {calls calls' : List (Call σ)} (h : LeaveTwo (calls ++ calls')) :
    LeaveTwo calls ∧ LeaveTwo calls' := by
  induction calls with
  | nil => exact ⟨trivial, h⟩
  | cons c calls ih =>
    obtain ⟨first, rest⟩ := h
    refine ⟨⟨fun t ht removed => ?_, (ih rest).1⟩, (ih rest).2⟩
    have fewer := c.removals_le_append calls calls'
    have left : c.removals (calls ++ calls') + 2 ≤ t.connections.length :=
      first t ht (removed.trans_le fewer)
    omega

end Call

namespace Node

/-- Whether the joins within a node are good shows in its kind and in what is in its slots. -/
theorem joinsConnect_iff_contents {n : Node} : n.JoinsConnect ↔ ∀ s ∈ n.contents,
    (n.kind = .connectionJoinType → 2 ≤ s.2.children.length) ∧
    ∀ c ∈ s.2.children, c.JoinsConnect := by
  have inSlots : (∀ s ∈ n.contents, ∀ c ∈ s.2.children, c.JoinsConnect) ↔
      ∀ s ∈ n.slots, s.2.Forall JoinsConnect :=
    List.forall_mem_map
  have itself : (∀ t, n = .type (.connectionJoin t) → 2 ≤ t.connections.length) ↔
      ∀ s ∈ n.contents, n.kind = .connectionJoinType → 2 ≤ s.2.children.length := by
    cases n with
    | type t => cases t <;> simp [kind, TypeRef.kind, contents, slots, TypeRef.slots,
      Slot.list, Slot.content]
    | value v => cases v <;> simp [kind, Value.kind]
    | definition d => cases d <;> simp [kind, Definition.kind]
    | field owner d => cases owner <;> simp [kind, FieldOwner.kind]
    | _ x => simp [kind]
  rw [joinsConnect_iff, itself, ← inSlots]
  exact ⟨fun h s hs => ⟨h.1 s hs, h.2 s hs⟩,
    fun h => ⟨fun s hs => (h s hs).1, fun s hs => (h s hs).2⟩⟩

private theorem exists_connectionJoin {n : Node} (hkind : n.kind = .connectionJoinType) :
    ∃ t, n = .type (.connectionJoin t) := by
  cases n with
  | type t => cases t <;> simp_all [kind, TypeRef.kind]
  | value v => cases v <;> simp [kind, Value.kind] at hkind
  | definition d => cases d <;> simp [kind, Definition.kind] at hkind
  | field owner d => cases owner <;> simp [kind, FieldOwner.kind] at hkind
  | _ x => simp [kind] at hkind

/-- The only slot of a join is for its connections. -/
private theorem of_slot?_connectionJoin {t : ConnectionJoinType} {k : Key} {slot : Slot}
    (h : (type (.connectionJoin t)).slot? k = some slot) :
    k = .connections ∧ slot.children.length = t.connections.length := by
  have hmem := mem_slots_of_slot? h
  simp only [slots, TypeRef.slots, List.mem_singleton, Prod.mk.injEq] at hmem
  obtain ⟨rfl, rfl⟩ := hmem
  simp [Slot.list]

/-- A join that is filled with other connections is a join of these. -/
private theorem Refills.exists_connectionJoin {t : ConnectionJoinType} {ns : List Node} {m : Node}
    (h : (type (.connectionJoin t)).Refills .connections ns m) :
    ∃ t', m = .type (.connectionJoin t') ∧ t'.connections.length = ns.length := by
  obtain ⟨t', rfl⟩ := Node.exists_connectionJoin h.kind
  have hns : t'.connections.map PartSort.connection.node = ns := by
    simpa [Node.contents, slots, TypeRef.slots, Slot.list, Slot.content] using h.contents
  exact ⟨t', rfl, by simp [← hns]⟩

/-- A node keeps its joins good if one of its slots is filled with nodes whose joins are, and with
two or more of them if the node is a join itself. -/
theorem Refills.joinsConnect {n m : Node} {k : Key} {ns : List Node} (h : n.Refills k ns m)
    (hn : n.JoinsConnect) (two : n.kind = .connectionJoinType → 2 ≤ ns.length)
    (hns : ∀ c ∈ ns, c.JoinsConnect) : m.JoinsConnect := by
  rw [joinsConnect_iff_contents] at hn ⊢
  rw [h.kind, h.contents, List.forall_mem_map]
  intro s hs
  split
  · exact ⟨two, hns⟩
  · exact hn s hs

end Node

namespace Action

variable {n m : Node} {a : Action}

private theorem joinsConnect_of_opened? (h : a.opened? n = some m) (hn : n.JoinsConnect)
    (replacement : ∀ r, a = .replace r → r.JoinsConnect) : m.JoinsConnect := by
  cases a with
  | keep => cases h; exact hn
  | replace r => cases h; exact replacement m rfl
  | skip => cases h
  | remove => cases h
  | halt => cases h

private theorem joinsConnect_of_mem_result (hn : n.JoinsConnect)
    (replacement : ∀ r, a = .replace r → r.JoinsConnect) :
    ∀ m ∈ (a.result n).toList, m.JoinsConnect := by
  cases a with
  | replace r => exact List.forall_mem_singleton.2 (replacement r rfl)
  | remove => exact List.forall_mem_nil _
  | keep => exact List.forall_mem_singleton.2 hn
  | skip => exact List.forall_mem_singleton.2 hn
  | halt => exact List.forall_mem_singleton.2 hn

private theorem isRemove_of_opened? (h : a.opened? n = some m) : a.isRemove = false := by
  cases a <;> first | rfl | cases h

/-- Nothing is left of a node exactly if the answer takes it out. -/
theorem toNat_isRemove_add_length_result : a.isRemove.toNat + (a.result n).toList.length = 1 := by
  cases a <;> rfl

end Action

open Call

mutual

/-- The calls of a visit have as many nodes around as the node that is visited, or more. -/
theorem Visited.depth_le {keys : KeyTable} {context : Context} {n : Node} {calls : List (Call σ)}
    {n? : Option Node} {ended : Bool} (h : Visited keys context n calls n? ended) :
    ∀ c ∈ calls, context.depth ≤ c.context.depth := by
  have below {k : Kind} {d : Nat} (hd : (context.ancestors ++ [k]).length ≤ d) :
      context.depth ≤ d := by
    rw [List.length_append] at hd
    exact Nat.le_of_add_right_le hd
  match h with
  | .passed _ => exact List.forall_mem_singleton.2 (Nat.le_refl _)
  | .cut _ inside =>
    exact List.forall_mem_cons.2 ⟨Nat.le_refl _, fun c hc => below (inside.depth_le c hc)⟩
  | .left _ inside =>
    refine List.forall_mem_cons.2 ⟨Nat.le_refl _, List.forall_mem_append.2 ⟨fun c hc => ?_, ?_⟩⟩
    · exact below (inside.depth_le c hc)
    · exact List.forall_mem_singleton.2 (Nat.le_refl _)

theorem VisitedParts.depth_le {keys : KeyTable} {ancestors : List Kind} {ks : List Key}
    {n m : Node} {calls : List (Call σ)} {ended : Bool}
    (h : VisitedParts keys ancestors ks n calls m ended) :
    ∀ c ∈ calls, ancestors.length ≤ c.context.depth := by
  match h with
  | .done => exact List.forall_mem_nil _
  | .absent _ others => exact others.depth_le
  | .slot _ items _ others => exact List.forall_mem_append.2 ⟨items.depth_le, others.depth_le⟩
  | .last _ items _ => exact items.depth_le

theorem VisitedItems.depth_le {keys : KeyTable} {ancestors : List Kind} {k : Key} {slot : Slot}
    {index : Nat} {ns kept : List Node} {calls : List (Call σ)} {ended : Bool}
    (h : VisitedItems keys ancestors k slot index ns calls kept ended) :
    ∀ c ∈ calls, ancestors.length ≤ c.context.depth := by
  match h with
  | .done => exact List.forall_mem_nil _
  | .item visited _ others => exact List.forall_mem_append.2 ⟨visited.depth_le, others.depth_le⟩
  | .last visited _ => exact visited.depth_le

end

/-- The calls for the parts of a node take out none of the connections beside it. -/
theorem VisitedParts.countP_removesConnection {keys : KeyTable} {context : Context} {k : Kind}
    {ks : List Key} {n m : Node} {calls : List (Call σ)} {ended : Bool}
    (h : VisitedParts keys (context.ancestors ++ [k]) ks n calls m ended) :
    calls.countP (removesConnection context.depth) = 0 := by
  refine List.countP_eq_zero.2 fun c hc => ?_
  have deeper := h.depth_le c hc
  rw [List.length_append] at deeper
  have apart : c.context.depth ≠ context.depth := Nat.ne_of_gt deeper
  simp [removesConnection, apart]

/-- A connection is left unless one of the calls takes it out. -/
theorem Visited.countP_removesConnection {keys : KeyTable} {context : Context} {n : Node}
    {calls : List (Call σ)} {n? : Option Node} {ended : Bool}
    (h : Visited keys context n calls n? ended) (key : context.key = some .connections) :
    calls.countP (removesConnection context.depth) + n?.toList.length = 1 := by
  have own (side : Side) (m : Node) (s : σ) (a : Action) :
      [(⟨side, m, context, s, a⟩ : Call σ)].countP (removesConnection context.depth) =
        a.isRemove.toNat := by
    cases hremove : a.isRemove <;> simp [removesConnection, key, hremove]
  match h with
  | .passed _ =>
    rw [own]
    exact Action.toNat_isRemove_add_length_result
  | .cut opened inside =>
    rw [List.countP_cons, inside.countP_removesConnection]
    simp [removesConnection, Action.isRemove_of_opened? opened]
  | .left opened inside =>
    rw [List.countP_cons, List.countP_append, inside.countP_removesConnection, own]
    simpa [removesConnection, Action.isRemove_of_opened? opened] using
      Action.toNat_isRemove_add_length_result

/-- As many connections are left as the calls do not take out. -/
theorem VisitedItems.countP_removesConnection {keys : KeyTable} {ancestors : List Kind}
    {slot : Slot} {index : Nat} {ns kept : List Node} {calls : List (Call σ)} {ended : Bool}
    (h : VisitedItems keys ancestors .connections slot index ns calls kept ended) :
    calls.countP (removesConnection ancestors.length) + kept.length = ns.length := by
  match h with
  | .done => rfl
  | .item visited _ rest =>
    have first := visited.countP_removesConnection rfl
    have others := rest.countP_removesConnection
    dsimp only [Context.depth] at first
    rw [List.countP_append, List.length_append, List.length_cons]
    omega
  | .last visited _ =>
    have first := visited.countP_removesConnection rfl
    dsimp only [Context.depth] at first
    rw [List.length_append, List.length_cons]
    omega

private theorem Node.JoinsConnect.of_slot? {n : Node} {k : Key} {slot : Slot} (hn : n.JoinsConnect)
    (hslot : n.slot? k = some slot) : ∀ c ∈ slot.children, c.JoinsConnect :=
  (Node.joinsConnect_iff.1 hn).2 _ (Node.mem_slots_of_slot? hslot)

/-- Two or more connections are left of the node if it is a join that the calls take any out of. -/
def Node.LeftTwo (ancestors : List Kind) (calls : List (Call σ)) (n : Node) : Prop :=
  ∀ t, n = .type (.connectionJoin t) → 0 < calls.countP (removesConnection ancestors.length) →
    calls.countP (removesConnection ancestors.length) + 2 ≤ t.connections.length

/-- Of a join that is opened two or more connections are left. -/
theorem VisitedParts.leftTwo {keys : KeyTable} {context : Context} {ks : List Key} {n m r : Node}
    {s : σ} {a : Action} {calls : List (Call σ)} {ended : Bool}
    (h : VisitedParts keys (context.ancestors ++ [m.kind]) ks m calls r ended)
    (opened : a.opened? n = some m) (two : LeaveTwo (⟨.enter, n, context, s, a⟩ :: calls)) :
    m.LeftTwo (context.ancestors ++ [m.kind]) calls := by
  intro t ht removed
  let c : Call σ := ⟨.enter, n, context, s, a⟩
  have inside : c.inner calls = calls := by
    refine List.takeWhile_eq_self_iff.2 fun d hd => decide_eq_true ?_
    have deeper := h.depth_le d hd
    rw [List.length_append] at deeper
    exact deeper
  have removals : c.removals calls =
      calls.countP (removesConnection (context.ancestors ++ [m.kind]).length) := by
    rw [Call.removals, inside, List.length_append]
    rfl
  rw [← removals] at removed ⊢
  exact two.1 t (by simp [join?, opened?, opened, ht]) removed

/-- What is left of the parts in a slot of a join is enough, and leaves enough for what follows. -/
theorem VisitedItems.two_le {keys : KeyTable} {ancestors : List Kind} {k : Key} {n m : Node}
    {slot : Slot} {kept : List Node} {calls calls' : List (Call σ)} {ended : Bool}
    (h : VisitedItems keys ancestors k slot 0 slot.children calls kept ended)
    (hslot : n.slot? k = some slot) (refills : n.Refills k kept m) (hn : n.JoinsConnect)
    (two : n.LeftTwo ancestors (calls ++ calls')) :
    (n.kind = .connectionJoinType → 2 ≤ kept.length) ∧ m.LeftTwo ancestors calls' := by
  refine ⟨fun hkind => ?_, ?_⟩
  · obtain ⟨t, rfl⟩ := Node.exists_connectionJoin hkind
    obtain ⟨rfl, hlength⟩ := Node.of_slot?_connectionJoin hslot
    have count := h.countP_removesConnection
    have left := two t rfl
    have connects := Node.joinsConnect_connectionJoin.1 hn
    rw [List.countP_append] at left
    omega
  · rintro t' rfl removed
    obtain ⟨t, rfl⟩ := Node.exists_connectionJoin (n := n) refills.kind.symm
    obtain ⟨rfl, hlength⟩ := Node.of_slot?_connectionJoin hslot
    obtain ⟨t'', heq, hkept⟩ := refills.exists_connectionJoin
    cases heq
    have count := h.countP_removesConnection
    have left := two t rfl
    rw [List.countP_append] at left
    omega

mutual

theorem Visited.joinsConnect {keys : KeyTable} {context : Context} {n : Node}
    {calls : List (Call σ)} {n? : Option Node} {ended : Bool}
    (h : Visited keys context n calls n? ended) (hn : n.JoinsConnect)
    (replacements : ∀ c ∈ calls, ∀ r, c.action = .replace r → r.JoinsConnect)
    (two : LeaveTwo calls) : ∀ m ∈ n?.toList, m.JoinsConnect := by
  match h with
  | .passed _ =>
    exact Action.joinsConnect_of_mem_result hn (replacements _ List.mem_cons_self)
  | .cut opened inside =>
    obtain ⟨entering, others⟩ := List.forall_mem_cons.1 replacements
    have entered := Action.joinsConnect_of_opened? opened hn entering
    have left := inside.leftTwo opened two
    exact List.forall_mem_singleton.2 (inside.joinsConnect entered others two.2 left)
  | .left opened inside =>
    obtain ⟨entering, others⟩ := List.forall_mem_cons.1 replacements
    obtain ⟨others, leaving⟩ := List.forall_mem_append.1 others
    have entered := Action.joinsConnect_of_opened? opened hn entering
    rw [← List.cons_append] at two
    have left := inside.leftTwo opened two.of_append.1
    have rebuilt := inside.joinsConnect entered others two.of_append.1.2 left
    exact Action.joinsConnect_of_mem_result rebuilt (leaving _ List.mem_cons_self)

theorem VisitedParts.joinsConnect {keys : KeyTable} {ancestors : List Kind} {ks : List Key}
    {n m : Node} {calls : List (Call σ)} {ended : Bool}
    (h : VisitedParts keys ancestors ks n calls m ended) (hn : n.JoinsConnect)
    (replacements : ∀ c ∈ calls, ∀ r, c.action = .replace r → r.JoinsConnect)
    (two : LeaveTwo calls) (left : n.LeftTwo ancestors calls) : m.JoinsConnect := by
  match h with
  | .done => exact hn
  | .absent _ rest => exact rest.joinsConnect hn replacements two left
  | .slot hslot items refills rest =>
    obtain ⟨replacements, others⟩ := List.forall_mem_append.1 replacements
    have kept := items.joinsConnect (hn.of_slot? hslot) replacements two.of_append.1
    obtain ⟨enough, left⟩ := items.two_le hslot refills hn left
    exact rest.joinsConnect (refills.joinsConnect hn enough kept) others two.of_append.2 left
  | .last hslot items refills =>
    have kept := items.joinsConnect (hn.of_slot? hslot) replacements two
    rw [← List.append_nil calls] at left
    exact refills.joinsConnect hn (items.two_le hslot refills hn left).1 kept

theorem VisitedItems.joinsConnect {keys : KeyTable} {ancestors : List Kind} {k : Key}
    {slot : Slot} {index : Nat} {ns kept : List Node} {calls : List (Call σ)} {ended : Bool}
    (h : VisitedItems keys ancestors k slot index ns calls kept ended)
    (hns : ∀ n ∈ ns, n.JoinsConnect)
    (replacements : ∀ c ∈ calls, ∀ r, c.action = .replace r → r.JoinsConnect)
    (two : LeaveTwo calls) : ∀ m ∈ kept, m.JoinsConnect := by
  match h with
  | .done => exact hns
  | .item visited _ rest =>
    obtain ⟨hn, hns⟩ := List.forall_mem_cons.1 hns
    obtain ⟨replacements, others⟩ := List.forall_mem_append.1 replacements
    exact List.forall_mem_append.2 ⟨visited.joinsConnect hn replacements two.of_append.1,
      rest.joinsConnect hns others two.of_append.2⟩
  | .last visited _ =>
    obtain ⟨hn, hns⟩ := List.forall_mem_cons.1 hns
    exact List.forall_mem_append.2 ⟨visited.joinsConnect hn replacements two, hns⟩

end

namespace Node

/-- A walk that puts no bad join into the tree, and leaves two or more connections of each join that
it takes any out of, keeps every join in the tree one of two connections or more. -/
theorem joinsConnect_of_visitWith {keys : KeyTable} {limit : Nat} {v : Visitor σ} {s : σ}
    {n m : Node} (h : (n.visitWith keys limit v s).1 = .ok (some m)) (hn : n.JoinsConnect)
    (replacements : ∀ c ∈ n.calls keys limit v s, ∀ r, c.action = .replace r → r.JoinsConnect)
    (connections : LeaveTwo (n.calls keys limit v s)) : m.JoinsConnect := by
  obtain ⟨_, visited, -⟩ := exists_visited h
  exact visited.joinsConnect hn replacements connections m List.mem_cons_self

/-- A join of three, whose first connection is taken out and whose second is turned round
on entering it. -/
theorem joinsConnect_of_visitWith_turned :
    let hop : ConnectionType := ⟨⟨⟨"H", none⟩, none⟩, none, .incoming, .singular, none⟩
    let n : Node := .type (.connectionJoin ⟨[hop, hop, hop], none⟩)
    let turned : ConnectionType := { hop with direction := .outgoing }
    let v : Visitor Unit :=
      ⟨fun _ c _ =>
        (if c.index = some 0 then .remove
          else if c.index = some 1 then .replace (.type (.connection turned)) else .keep, ()),
       fun _ _ _ => (.keep, ())⟩
    let m : Node := .type (.connectionJoin ⟨[turned, hop], none⟩)
    (n.visitWith schemaKeys 4 v ()).1 = .ok (some m) ∧ n.JoinsConnect ∧
      (∀ c ∈ n.calls schemaKeys 4 v (), ∀ r, c.action = .replace r → r.JoinsConnect) ∧
      LeaveTwo (n.calls schemaKeys 4 v ()) ∧ m.JoinsConnect := by
  intro hop n turned v m
  have answered : (n.visitWith schemaKeys 4 v ()).1 = .ok (some m) := rfl
  have connects : n.JoinsConnect := by simp [n]
  have given : ∀ side n c s r, (v.callback side n c s).1 = .replace r →
      r = .type (.connection turned) := by
    rintro (_ | _) n c s r hr
    · simp only [v, Visitor.callback] at hr
      split_ifs at hr
      cases hr
      rfl
    · cases hr
  obtain ⟨_, -, run⟩ := exists_visited answered
  have replacements : ∀ c ∈ n.calls schemaKeys 4 v (), ∀ r,
      c.action = .replace r → r.JoinsConnect := by
    intro c hc r hr
    rw [run.action_of_mem c hc] at hr
    rw [given c.side c.node c.context c.state r hr]
    exact joinsConnect_connection turned
  exact ⟨answered, connects, replacements, by decide +kernel,
    joinsConnect_of_visitWith answered connects replacements (by decide +kernel)⟩

/-- A parsed join of two may become a join of one, though nothing is put in the place of any node:
the first connection is taken out on entering it. -/
theorem not_joinsConnect_of_visit :
    let hop : ConnectionType := ⟨⟨⟨"H", none⟩, none⟩, none, .incoming, .singular, none⟩
    let joined (hops : List ConnectionType) : Document :=
      ⟨[.object ⟨none, ⟨"T", none⟩, [], [],
        [⟨none, ⟨"a", none⟩, [], .connectionJoin ⟨hops, none⟩, [], none⟩], none⟩],
       none⟩
    let v : Visitor Unit :=
      ⟨fun _ c _ => (if c.key = some .connections ∧ c.index = some 0 then .remove else .keep, ()),
       fun _ _ _ => (.keep, ())⟩
    parseDocument ⟨"type T \x7b a: <-- H <-- H \x7d", "GraphQL"⟩ { noLocation := true } =
      .ok (joined [hop, hop]) ∧ (document (joined [hop, hop])).JoinsConnect ∧
      (∀ side n c s r, (v.callback side n c s).1 ≠ .replace r) ∧
      ((document (joined [hop, hop])).visit v ()).1 = .ok (some (document (joined [hop]))) ∧
      ¬ (document (joined [hop])).JoinsConnect := by
  intro hop joined v
  have parsed : parseDocument ⟨"type T \x7b a: <-- H <-- H \x7d", "GraphQL"⟩
      { noLocation := true } = .ok (joined [hop, hop]) := by
    decide +kernel
  have high : (document (joined [hop, hop])).height = 7 := by
    simp [joined, hop, height_eq, children, slots, TypeRef.slots, Definition.slots,
      Slot.list, Slot.optional, Slot.required, PartSort.connection, PartSort.namedType,
      PartSort.name, PartSort.field, PartSort.type, PartSort.definition]
  have answered :
      ((document (joined [hop, hop])).visitWith schemaKeys 7 v ()).1 =
        .ok (some (document (joined [hop]))) := rfl
  have replacesNothing : ∀ side n c s r, (v.callback side n c s).1 ≠ .replace r := by
    rintro (_ | _) n c s r
    · simp only [v, Visitor.callback]
      split <;> simp
    · simp [v, Visitor.callback]
  exact ⟨parsed, by simp [joined], replacesNothing, by rw [visit, high, answered], by simp [joined]⟩

end Node

end SchemaLang
