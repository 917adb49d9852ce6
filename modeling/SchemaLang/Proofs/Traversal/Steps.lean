import SchemaLang.Proofs.Traversal.Kept

/-!
# Steps of a walk

What a walk does with one node, by the answers of its visitor, and with one part after it was
walked. Once the visitor has ended the walk nothing more happens.
-/

namespace SchemaLang

namespace Action

/-- Whether the answer ends the walk. -/
def isHalt : Action → Bool
  | .halt => true
  | _ => false

/-- The node with whose parts the walk goes on after this answer on entering `n`, if it does. -/
def opened? (n : Node) : Action → Option Node
  | .keep => some n
  | .replace m => some m
  | .skip => none
  | .remove => none
  | .halt => none

/-- What this answer makes of `n` if the walk does not go on with the parts. -/
def result (n : Node) : Action → Option Node
  | .keep => some n
  | .replace m => some m
  | .skip => some n
  | .remove => none
  | .halt => some n

end Action

/-- What may become of a part in a slot: a node that may stand there, or nothing if the part need
not be there. -/
def Slot.Takes (slot : Slot) : Option Node → Prop
  | some n => slot.admits n = true
  | none => slot.arity ≠ .required

namespace Slot.Takes

variable {slot : Slot} {n? : Option Node} (h : slot.Takes n?)

include h

theorem admits : ∀ n ∈ n?.toList, slot.admits n = true := by
  intro n hn
  obtain rfl : n? = some n := Option.mem_toList.1 hn
  exact h

theorem length : n?.toList.length ≤ 1 ∧ (slot.arity = .required → n?.toList.length = 1) := by
  cases n? with
  | some n => exact ⟨Nat.le_refl 1, fun _ => rfl⟩
  | none => exact ⟨Nat.zero_le 1, fun required => absurd required h⟩

end Slot.Takes

namespace Walk

variable {σ α β : Type}

theorem bind_eq_ok {w : Walk σ α} {f : α → Walk σ β} {p p' : Progress σ} {b : β}
    (h : (w >>= f) p = (.ok b, p')) : ∃ a q, w p = (.ok a, q) ∧ f a q = (.ok b, p') := by
  simp only [Bind.bind] at h
  cases hw : w p with
  | mk result q =>
    rw [hw] at h
    cases result with
    | error e => cases h
    | ok a => exact ⟨a, q, rfl, h⟩

theorem bind_of_ok {w : Walk σ α} {f : α → Walk σ β} {p q : Progress σ} {a : α}
    (h : w p = (.ok a, q)) : (w >>= f) p = f a q := by
  simp only [Bind.bind, h]

theorem settle_of_takes {parent : Kind} {k : Key} {slot : Slot} {n? : Option Node}
    (h : slot.Takes n?) (p : Progress σ) : settle parent k slot n? p = (.ok n?, p) := by
  cases n? with
  | some n => exact settle_of_admits h p
  | none =>
    have needless : slot.arity ≠ .required := h
    simp only [settle]
    cases ha : slot.arity with
    | required => exact absurd ha needless
    | optional => rfl
    | list => rfl

theorem settle_eq_ok {parent : Kind} {k : Key} {slot : Slot} {n? kept : Option Node}
    {p p' : Progress σ} (h : settle parent k slot n? p = (.ok kept, p')) :
    slot.Takes n? ∧ kept = n? ∧ p' = p := by
  cases n? with
  | some n =>
    simp only [settle] at h
    split at h
    · cases h
      exact ⟨‹_›, rfl, rfl⟩
    · cases h
  | none =>
    simp only [settle] at h
    cases ha : slot.arity <;> rw [ha] at h <;> cases h
    · exact ⟨by simp [Slot.Takes, ha], rfl, rfl⟩
    · exact ⟨by simp [Slot.Takes, ha], rfl, rfl⟩

section

variable {v : Visitor σ} {keys : KeyTable} {limit : Nat} {context : Context} {n m : Node} {s : σ}

theorem node_passed (h : (v.enter n context s).1.opened? n = none) :
    node v keys (limit + 1) context n ⟨s, false⟩ =
      (.ok ((v.enter n context s).1.result n),
      ⟨(v.enter n context s).2, (v.enter n context s).1.isHalt⟩) := by
  rw [node]
  cases ha : (v.enter n context s).1 <;> rw [ha] at h <;>
    simp_all [Action.opened?, Action.result, Action.isHalt, bind, halted, call, halt, pure]

theorem node_opened (h : (v.enter n context s).1.opened? n = some m) :
    node v keys (limit + 1) context n ⟨s, false⟩ =
      inside v keys (node v keys limit) context m ⟨(v.enter n context s).2, false⟩ := by
  rw [node]
  cases ha : (v.enter n context s).1 <;> rw [ha] at h <;>
    simp_all [Action.opened?, bind, halted, call]

variable {walk : Context → Node → Walk σ (Option Node)} {q : Progress σ}

theorem inside_eq_ok {n? : Option Node} {p p' : Progress σ}
    (h : inside v keys walk context n p = (.ok n?, p')) :
    ∃ m q, parts walk (context.ancestors ++ [n.kind]) (keys n.kind) n p = (.ok m, q) := by
  obtain ⟨m, q, hparts, -⟩ := bind_eq_ok h
  exact ⟨m, q, hparts⟩

theorem inside_cut {p : Progress σ}
    (h : parts walk (context.ancestors ++ [n.kind]) (keys n.kind) n p = (.ok m, ⟨s, true⟩)) :
    inside v keys walk context n p = (.ok (some m), ⟨s, true⟩) := by
  rw [inside, bind_of_ok h]
  rfl

theorem inside_left {p : Progress σ}
    (h : parts walk (context.ancestors ++ [n.kind]) (keys n.kind) n p = (.ok m, ⟨s, false⟩)) :
    inside v keys walk context n p =
      (.ok ((v.leave m context s).1.result m),
      ⟨(v.leave m context s).2, (v.leave m context s).1.isHalt⟩) := by
  rw [inside, bind_of_ok h]
  cases ha : (v.leave m context s).1 <;>
    simp_all [Action.result, Action.isHalt, bind, halted, call, halt, pure]

theorem node_ended (v : Visitor σ) (keys : KeyTable) (limit : Nat) (context : Context)
    (n : Node) (s : σ) : node v keys limit context n ⟨s, true⟩ = (.ok (some n), ⟨s, true⟩) := by
  cases limit <;> rfl

variable {ancestors : List Kind} (ended : ∀ context n s, walk context n ⟨s, true⟩ =
  (.ok (some n), ⟨s, true⟩))

include ended

theorem items_ended (parent : Kind) (k : Key) {slot : Slot} (s : σ) {ns : List Node} :
    ∀ index, (∀ n ∈ ns, slot.admits n = true) →
      items walk ancestors parent k slot index ns ⟨s, true⟩ = (.ok ns, ⟨s, true⟩) := by
  induction ns with
  | nil => exact fun _ _ => rfl
  | cons n ns ih =>
    intro index admits
    have rest := ih (index + 1) fun m hm => admits m (List.mem_cons_of_mem n hm)
    rw [items, bind_of_ok (ended _ n s),
      bind_of_ok (settle_of_admits (admits n List.mem_cons_self) _), bind_of_ok rest]
    rfl

theorem parts_ended (ks : List Key) (n : Node) (s : σ) :
    parts walk ancestors ks n ⟨s, true⟩ = (.ok n, ⟨s, true⟩) := by
  induction ks with
  | nil => rfl
  | cons k ks ih =>
    unfold parts
    cases h : n.slot? k with
    | none => exact ih
    | some slot =>
      have fits : n.Fits slot := Node.fits_of_mem_slots (Node.mem_slots_of_slot? h)
      have kept : items walk ancestors n.kind k slot 0 slot.children ⟨s, true⟩ =
          (.ok slot.children, ⟨s, true⟩) :=
        items_ended ended n.kind k s 0 fits.admits
      exact (bind_of_ok kept).trans (fits.fill.symm ▸ ih)

end

end Walk

end SchemaLang
