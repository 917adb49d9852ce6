import SchemaLang.Proofs.Documents
import SchemaLang.Proofs.Slices.Order
import SchemaLang.Proofs.Traversal.Preorder

/-!
# Walks and the order of the source

The nodes of a parsed document lie in the source as their forms do: the parts of a node inside of
it, and those in front apart from those behind. So every node is entered once. The starts of the
nodes rise as they are entered unless there is a mutation or a query of a type with directives,
which are entered before the type and stand behind it.
-/

namespace SchemaLang

variable {locate : Nat → Nat → Option Loc} {c c' : Cursor} {lo mid hi : Nat}

/-- A form that has a first token takes up room. -/
theorem Form.Starts.lt_lastStop {Q : Token → Prop} {F : Form} (hF : F.Starts Q)
    (h : F.Spans locate c c') (hc : c.InOrder) : c.current.span.start < c'.lastStop := by
  induction F generalizing c c' with
  | token t significant =>
    obtain ⟨rfl, hm⟩ := h
    rw [hm.2]
    exact hc.current.2.2 (Token.ne_endOfInput_of_isSignificant significant)
  | described d t significant =>
    obtain ⟨-, rfl, hm⟩ := h
    rw [hm.2]
    exact hc.current.2.2 (Token.ne_endOfInput_of_isSignificant significant)
  | empty => exact hF.elim
  | seq a b iha _ =>
    obtain ⟨m, ha, hb⟩ := h
    exact Nat.lt_of_lt_of_le (iha hF ha hc)
      ((hc.precedes_of_spans ha).inOrder.precedes_of_spans hb).lastStop
  | located loc a ih => exact ih hF h.1 hc
  | bracketable a _ => exact hF.elim

/-- The forms are spanned one after the other between two positions. -/
inductive Consecutive (locate : Nat → Nat → Option Loc) : Nat → List Form → Nat → Prop
  | nil {lo hi : Nat} (le : lo ≤ hi) : Consecutive locate lo [] hi
  | cons {lo hi : Nat} {k k' : Cursor} {F : Form} {Fs : List Form} (inOrder : k.InOrder)
    (le : lo ≤ k.current.span.start) (anchored : F.IsAnchored) (spans : F.Spans locate k k')
    (rest : Consecutive locate k'.lastStop Fs hi) : Consecutive locate lo (F :: Fs) hi

namespace Consecutive

theorem mono {Fs : List Form} {lo' : Nat} (h : Consecutive locate lo Fs hi) (hle : lo' ≤ lo) :
    Consecutive locate lo' Fs hi := by
  cases h with
  | nil le => exact .nil (Nat.le_trans hle le)
  | cons inOrder le anchored spans rest =>
    exact .cons inOrder (Nat.le_trans hle le) anchored spans rest

theorem append {Fs Gs : List Form} (h : Consecutive locate lo Fs mid)
    (h' : Consecutive locate mid Gs hi) : Consecutive locate lo (Fs ++ Gs) hi := by
  induction h with
  | nil le => exact h'.mono le
  | cons inOrder le anchored spans _ ih => exact .cons inOrder le anchored spans (ih h')

end Consecutive

theorem Consecutive.of_moves (hc : c.InOrder) (hm : c.Moves c') (hlo : lo ≤ c.current.span.start) :
    Consecutive locate lo [] c'.lastStop := by
  refine .nil ?_
  rw [hm.2]
  exact Nat.le_trans hlo hc.current.2.1

/-- A position is in front of what a form spans. -/
def Form.StartsBehind (F : Form) (lo : Nat) (c : Cursor) : Prop :=
  lo ≤ c.lastStop ∨ lo ≤ c.current.span.start ∧ F.Starts fun _ => True

theorem Form.StartsBehind.le {F : Form} (h : F.StartsBehind lo c) (hc : c.InOrder) :
    lo ≤ c.current.span.start :=
  h.elim (fun h => Nat.le_trans h hc.current.1) And.left

/-- The parts of a form are spanned one after the other, behind what was taken before, or behind
the first token. -/
theorem Form.IsAnchored.consecutive {F : Form} (hF : F.IsAnchored) (h : F.Spans locate c c')
    (hc : c.InOrder) (hlo : F.StartsBehind lo c) : Consecutive locate lo F.parts c'.lastStop := by
  induction F generalizing c c' lo with
  | token t _ => exact .of_moves hc h.2 (hlo.le hc)
  | described d t _ => exact .of_moves hc h.2.2 (hlo.le hc)
  | empty =>
    obtain rfl := h
    exact .nil (hlo.resolve_right And.right)
  | seq a b iha ihb =>
    obtain ⟨m, ha, hb⟩ := h
    have first := iha hF.1 ha hc hlo
    exact first.append (ihb hF.2 hb (hc.precedes_of_spans ha).inOrder (.inl (Nat.le_refl _)))
  | located loc a _ => exact .cons hc (hlo.le hc) hF h (.nil (Nat.le_refl _))
  | bracketable a ih =>
    have hlo : lo ≤ c.lastStop := hlo.resolve_right And.right
    rcases h with h | ⟨m, m', ⟨-, hm⟩, ha, -, hm'⟩
    · exact ih hF h hc (.inl hlo)
    · have opening := hc.precedes_of_moves hm
      have inside := opening.inOrder.precedes_of_spans ha
      have closing := inside.inOrder.precedes_of_moves hm'
      have parts := ih hF ha opening.inOrder (.inl (Nat.le_trans hlo opening.lastStop))
      simpa using parts.append (.nil closing.lastStop)

/-- The nodes lie one after the other between two positions, and so do the parts of each of them
inside of it. -/
inductive Laid : Nat → List Node → Nat → Prop
  | nil {lo hi : Nat} (le : lo ≤ hi) : Laid lo [] hi
  | cons {lo hi : Nat} {n : Node} {ns : List Node} {l : Loc} (loc : n.loc = some l)
    (le : lo ≤ l.start)
    (lt : l.start < l.stop) (parts : Laid l.start n.sourceParts l.stop) (rest : Laid l.stop ns hi) :
    Laid lo (n :: ns) hi

/-- Locations tell where a node starts and stops. -/
def Tells (locate : Nat → Nat → Option Loc) : Prop :=
  ∀ start stop, ∃ l, locate start stop = some l ∧ l.start = start ∧ l.stop = stop

/-- What the node is written as shows where it and its parts lie. -/
def Node.IsLaidOut (locate : Nat → Nat → Option Loc) (n : Node) : Prop :=
  ∀ (F : Form) (k k' : Cursor), n.IsWrittenAs F → F.IsAnchored → k.InOrder → F.Spans locate k k' →
    ∃ l, n.loc = some l ∧ l.start = k.current.span.start ∧ l.stop = k'.lastStop ∧ l.start < l.stop ∧
      Laid l.start n.sourceParts l.stop

theorem Consecutive.laid {ns : List Node} {Fs : List Form} (h : Consecutive locate lo Fs hi)
    (written : AreWrittenAs ns Fs) (laid : ∀ n ∈ ns, n.IsLaidOut locate) : Laid lo ns hi := by
  induction h generalizing ns with
  | nil le =>
    cases written
    exact .nil le
  | cons inOrder le anchored spans _ ih =>
    cases written with
    | cons first rest =>
      obtain ⟨hn, hns⟩ := List.forall_mem_cons.1 laid
      obtain ⟨l, loc, start, stop, lt, parts⟩ := hn _ _ _ first anchored inOrder spans
      exact .cons loc (start ▸ le) lt parts (stop ▸ ih rest hns)

private theorem Node.isLaidOut (tells : Tells locate) {n : Node} (hn : ∀ d, n ≠ .document d) :
    n.IsLaidOut locate := by
  induction n using inductParts with
  | step n ih =>
    intro F k k' written anchored inOrder spans
    obtain ⟨body, rfl, parts⟩ := exists_body written hn
    obtain ⟨l, hl, start, stop⟩ := tells k.current.span.start k'.lastStop
    have lt := anchored.1.lt_lastStop spans.1 inOrder
    refine ⟨l, spans.2.trans hl, start, stop, by omega, ?_⟩
    have inside := anchored.2.consecutive spans.1 inOrder (.inr ⟨Nat.le_refl _, anchored.1⟩)
    rw [start, stop]
    refine inside.laid parts fun c hc => ?_
    have hc := n.sourceParts_perm.mem_iff.1 hc
    exact ih c hc (ne_document_of_mem_children hc)

namespace Laid

variable {n m : Node} {ns : List Node}

theorem le (h : Laid lo ns hi) : lo ≤ hi := by
  induction h with
  | nil le => exact le
  | cons _ le lt _ _ _ ih => omega

/-- Every node within nodes that lie between two positions lies there, and its parts
inside of it. -/
theorem of_within (h : Laid lo ns hi) (hn : n ∈ ns) (hm : n.Within m) :
    ∃ l, m.loc = some l ∧ lo ≤ l.start ∧ l.start < l.stop ∧ l.stop ≤ hi ∧
    Laid l.start m.sourceParts l.stop := by
  induction h generalizing n m with
  | nil => nomatch hn
  | @cons lo hi first ns l loc le lt parts rest ihparts ihrest =>
    rcases List.mem_cons.1 hn with rfl | hn
    · rcases hm.eq_or_exists with rfl | ⟨c, hc, hm⟩
      · exact ⟨l, loc, le, lt, rest.le, parts⟩
      · obtain ⟨k, hk, start, room, stop, inside⟩ := ihparts (n.sourceParts_perm.mem_iff.2 hc) hm
        exact ⟨k, hk, Nat.le_trans le start, room, Nat.le_trans stop rest.le, inside⟩
    · obtain ⟨k, hk, start, room, stop, inside⟩ := ihrest hn hm
      exact ⟨k, hk, by omega, room, stop, inside⟩

/-- Of nodes that lie one after the other each stops where the next ones start or before. -/
theorem pairwise (h : Laid lo ns hi) :
    ns.Pairwise fun m n => ∀ l ∈ m.loc, ∀ k ∈ n.loc, l.stop ≤ k.start := by
  induction h with
  | nil => exact .nil
  | @cons lo hi first ns l loc le lt parts rest _ ih =>
    refine .cons (fun m hm l' hl' k hk => ?_) ih
    obtain ⟨k', hk', start, -⟩ := rest.of_within hm .refl
    obtain rfl := Option.some.inj (loc.symm.trans hl')
    obtain rfl := Option.some.inj (hk'.symm.trans hk)
    exact start

private theorem of_mem_preorder (h : Laid lo ns hi) (hm : m ∈ ns.flatMap Node.preorder) :
    ∃ l, m.loc = some l ∧ lo ≤ l.start ∧ l.start < l.stop ∧ l.stop ≤ hi := by
  obtain ⟨n, hn, hm⟩ := List.mem_flatMap.1 hm
  obtain ⟨l, loc, start, lt, stop, -⟩ := h.of_within hn (Node.mem_preorder.1 hm)
  exact ⟨l, loc, start, lt, stop⟩

/-- A node and those within it, by themselves. -/
theorem single {l : Loc} (loc : n.loc = some l) (lt : l.start < l.stop)
    (parts : Laid l.start n.sourceParts l.stop) : Laid l.start [n] l.stop :=
  .cons loc (Nat.le_refl _) lt parts (.nil (Nat.le_refl _))

/-- No node is found twice in nodes that lie one after the other. -/
theorem nodup_preorder (h : Laid lo ns hi) : (ns.flatMap Node.preorder).Nodup := by
  induction h with
  | nil => exact .nil
  | @cons lo hi n ns l loc le lt parts rest ihparts ihrest =>
    have inside : (n.children.flatMap Node.preorder).Nodup :=
      (n.sourceParts_perm.flatMap_right Node.preorder).nodup_iff.1 ihparts
    have itself : n ∉ n.children.flatMap Node.preorder := by
      intro hmem
      obtain ⟨c, hc, hn⟩ := List.mem_flatMap.1 hmem
      exact Node.not_within_of_mem_children hc (Node.mem_preorder.1 hn)
    have apart : ∀ a ∈ n.preorder, ∀ b ∈ ns.flatMap Node.preorder, a ≠ b := by
      rintro a ha _ hb rfl
      obtain ⟨k, hk, -, room, stop⟩ := (single loc lt parts).of_mem_preorder (by simpa using ha)
      obtain ⟨k', hk', start, -⟩ := rest.of_mem_preorder hb
      obtain rfl := Option.some.inj (hk.symm.trans hk')
      omega
    rw [List.flatMap_cons, List.nodup_append]
    exact ⟨Node.preorder_eq n ▸ List.nodup_cons.2 ⟨itself, inside⟩, ihrest, apart⟩

end Laid

/-- Nodes that start one after the other, or together. -/
def StartInOrder (ns : List Node) : Prop :=
  ns.Pairwise fun m n => ∀ l ∈ m.loc, ∀ k ∈ n.loc, l.start ≤ k.start

namespace Laid

variable {n m : Node} {ns : List Node}

/-- Where no directives stand last, nodes start one after the other in the order of a walk. -/
theorem startInOrder (h : Laid lo ns hi)
    (none : ∀ n ∈ ns, ∀ m, n.Within m → ¬ m.HasDirectivesLast) :
    StartInOrder (ns.flatMap Node.preorder) := by
  induction h with
  | nil => exact .nil
  | @cons lo hi n ns l loc le lt parts rest ihparts ihrest =>
    obtain ⟨noneInside, noneBehind⟩ := List.forall_mem_cons.1 none
    have same : n.sourceParts = n.children := Node.sourceParts_eq_children (noneInside n .refl)
    have inside : StartInOrder (n.children.flatMap Node.preorder) :=
      same ▸ ihparts fun c hc m hm => noneInside m (.of_mem_children (same ▸ hc) hm)
    have first : ∀ b ∈ n.children.flatMap Node.preorder, ∀ k ∈ n.loc, ∀ k' ∈
        b.loc, k.start ≤ k'.start := by
      intro b hb k hk k' hk'
      obtain ⟨lb, hlb, start, -⟩ := parts.of_mem_preorder (same.symm ▸ hb)
      obtain rfl := Option.some.inj (loc.symm.trans hk)
      obtain rfl := Option.some.inj (hlb.symm.trans hk')
      exact start
    have behind : ∀ a ∈ n.preorder, ∀ b ∈ ns.flatMap Node.preorder, ∀ k ∈ a.loc, ∀ k' ∈
        b.loc, k.start ≤ k'.start := by
      intro a ha b hb k hk k' hk'
      obtain ⟨la, hla, -, room, stop⟩ := (single loc lt parts).of_mem_preorder (by simpa using ha)
      obtain ⟨lb, hlb, start, -⟩ := rest.of_mem_preorder hb
      obtain rfl := Option.some.inj (hla.symm.trans hk)
      obtain rfl := Option.some.inj (hlb.symm.trans hk')
      omega
    rw [List.flatMap_cons]
    refine List.pairwise_append.2 ⟨?_, ihrest noneBehind, behind⟩
    rw [Node.preorder_eq]
    exact .cons first inside

/-- Where directives stand last, nodes do not: a directive comes before the type that it
stands behind. -/
theorem not_startInOrder (h : Laid lo ns hi) (hn : n ∈ ns) (hm : n.Within m)
    (last : m.HasDirectivesLast) : ¬ StartInOrder (ns.flatMap Node.preorder) := by
  intro inOrder
  obtain ⟨_, -, -, -, -, parts⟩ := h.of_within hn hm
  obtain ⟨t, x, inSource, inWalk⟩ := Node.exists_turned last
  have walked : StartInOrder [.directive x, .type t] := by
    refine inOrder.sublist (inWalk.trans (m.children_sublist_preorder.trans ?_))
    exact hm.preorder_sublist.trans (Node.preorder_sublist_flatMap hn)
  obtain ⟨k, hk, -, room, -⟩ := parts.of_within (inSource.subset List.mem_cons_self) .refl
  obtain ⟨k', hk', -⟩ :=
    parts.of_within (inSource.subset (List.mem_cons_of_mem _ List.mem_cons_self)) .refl
  have stands : k.stop ≤ k'.start :=
    List.pairwise_pair.1 (parts.pairwise.sublist inSource) k hk k' hk'
  have entered : k'.start ≤ k.start := List.pairwise_pair.1 walked k' hk' k hk
  omega

end Laid

theorem tells_locate {o : ParseOptions} (s : Source) (located : o.noLocation = false) :
    Tells (o.locate s) := by
  intro start stop
  simp [ParseOptions.locate, located]

/-- A document that conforms has a first token. -/
theorem Document.starts_form {d : Document} {depth : Nat} (h : d.Conforms depth) :
    d.form.Starts fun _ => True := by
  obtain ⟨x, xs, hxs⟩ := List.exists_cons_of_ne_nil h.definitions_ne_nil
  rw [Document.form, hxs]
  exact (Parser.starts_definition x).imp fun _ _ => trivial

/-- The nodes of a document that was parsed with locations lie where these say. -/
theorem laid_of_parseDocument {s : Source} {o : ParseOptions} {d : Document}
    (h : parseDocument s o = .ok d) (located : o.noLocation = false) :
    ∃ lo hi, Laid lo [.document d] hi := by
  obtain ⟨conforms, -, c, m, hc, hstop, spans, -, hloc⟩ := isSpelledBy_of_parseDocument h
  have inOrder : c.InOrder := Source.inOrder_lexemes hc hstop
  have anchored := Document.isAnchored_form conforms
  have starts := Document.starts_form conforms
  obtain ⟨l, hl, start, stop⟩ := tells_locate s located c.current.span.start m.current.span.stop
  have ending := (inOrder.precedes_of_spans spans).inOrder.current
  have lt := starts.lt_lastStop spans inOrder
  have definitions := anchored.consecutive spans inOrder (.inr ⟨Nat.le_refl _, starts⟩)
  have widened := definitions.append (.nil (Nat.le_trans ending.1 ending.2.1))
  rw [List.append_nil, ← start, ← stop] at widened
  refine ⟨l.start, l.stop,
    .single (hloc.trans hl) (by omega) (widened.laid d.areWrittenAs fun c hc => ?_)⟩
  exact Node.isLaidOut (tells_locate s located) (Node.ne_document_of_mem_children hc)

/-- A visitor that always goes on, in a document that was parsed with locations, enters every node
once. The nodes start in the order in which they are entered unless there is a mutation or a query
of a type with directives. -/
theorem startInOrder_entered_iff {σ : Type} {s : Source} {o : ParseOptions} {d : Document}
    (h : parseDocument s o = .ok d) (located : o.noLocation = false) {v : Visitor σ}
    (hv : v.Continues) (state : σ) :
    ((Node.document d).visit v state).1 = .ok (some (.document d)) ∧
      (∀ m, m ∈ (Node.document d).entered v state ↔ (Node.document d).Within m) ∧
      ((Node.document d).entered v state).Nodup ∧
      (∀ m ∈ (Node.document d).entered v state, m.loc.isSome = true) ∧
      (StartInOrder ((Node.document d).entered v state) ↔
        ∀ m, (Node.document d).Within m → ¬ m.HasDirectivesLast) := by
  obtain ⟨lo, hi, laid⟩ := laid_of_parseDocument h located
  obtain ⟨answered, order⟩ := Node.entered_of_continues hv state (.document d)
  have single : [Node.document d].flatMap Node.preorder = (Node.document d).preorder :=
    List.flatMap_singleton ..
  rw [order, ← single]
  refine ⟨answered, fun m => ?_, laid.nodup_preorder, fun m hm => ?_,
    fun inOrder m hm last => ?_, fun none => ?_⟩
  · rw [single]
    exact Node.mem_preorder
  · obtain ⟨l, loc, -⟩ := laid.of_mem_preorder hm
    rw [loc]
    rfl
  · exact laid.not_startInOrder List.mem_cons_self hm last inOrder
  · exact laid.startInOrder (List.forall_mem_singleton.2 none)

/-- A mutation of a type without directives, and a query of fields with one. -/
theorem startInOrder_entered_iff_operations :
    let s : Source := ⟨"mutation m: T query q @d \x7b a: [T] \x7d", "GraphQL"⟩
    let v : Visitor Unit := ⟨fun _ _ _ => (.keep, ()), fun _ _ _ => (.keep, ())⟩
    ∃ d, parseDocument s {} = .ok d ∧ v.Continues ∧
      ((Node.document d).visit v ()).1 = .ok (some (.document d)) ∧
      (∀ m, m ∈ (Node.document d).entered v () ↔ (Node.document d).Within m) ∧
      ((Node.document d).entered v ()).Nodup ∧
      (∀ m ∈ (Node.document d).entered v (), m.loc.isSome = true) ∧
      (StartInOrder ((Node.document d).entered v ()) ↔ ∀ m, (Node.document d).Within m →
      ¬ m.HasDirectivesLast) := by
  intro s v
  have goesOn : v.Continues := ⟨fun _ _ _ => rfl, fun _ _ _ => rfl⟩
  have parsed : (parseDocument s {}).isOk = true := by
    decide +kernel
  cases hd : parseDocument s {} with
  | error e =>
    rw [hd] at parsed
    exact nomatch parsed
  | ok d => exact ⟨d, rfl, goesOn, startInOrder_entered_iff hd rfl goesOn ()⟩

/-- The directive of a mutation of a type is entered before the type, and starts behind it. -/
theorem not_startInOrder_entered :
    let v : Visitor Unit := ⟨fun _ _ _ => (.keep, ()), fun _ _ _ => (.keep, ())⟩
    let stands (start stop : Nat) : Option Loc := some ⟨start, stop, none⟩
    let type : NamedType := ⟨⟨"T", stands 12 13⟩, stands 12 13⟩
    let directive : Directive := ⟨⟨"d", stands 15 16⟩, [], stands 14 16⟩
    let d : Document :=
      ⟨[.mutation ⟨none, ⟨"m", stands 9 10⟩, [], [directive], .type (.named type), stands 0 16⟩],
       stands 0 16⟩
    parseDocument ⟨"mutation m: T @d", "GraphQL"⟩ { noSource := true } = .ok d ∧ v.Continues ∧
      ¬ StartInOrder ((Node.document d).entered v ()) := by
  intro v stands type directive d
  have parsed : parseDocument ⟨"mutation m: T @d", "GraphQL"⟩ { noSource := true } = .ok d := by
    decide +kernel
  have goesOn : v.Continues := ⟨fun _ _ _ => rfl, fun _ _ _ => rfl⟩
  have within : ∀ x ∈ d.definitions, (Node.document d).Within (.definition x) := fun x hx =>
    .child .refl (by simpa [Node.children, Node.slots, Slot.list, PartSort.definition] using hx)
  have parts : [.directive directive, .type (.named type)].Sublist
      (Node.definition d.definitions[0]).children := by
    decide +kernel
  have walked : [.directive directive, .type (.named type)].Sublist
      ((Node.document d).entered v ()) := by
    rw [(Node.entered_of_continues goesOn () (.document d)).2]
    exact parts.trans
      ((Node.children_sublist_preorder _).trans (within _ List.mem_cons_self).preorder_sublist)
  refine ⟨parsed, goesOn, fun inOrder => ?_⟩
  have entered := List.pairwise_pair.1 (inOrder.sublist walked) _ rfl _ rfl
  simp at entered

end SchemaLang
