import SchemaLang.Traversal.Slot

/-!
# Nodes within a node

A node is within another one if it is that node, or one of its parts, or a part of
those, at any depth.
-/

namespace SchemaLang

namespace Slot

variable {α : Type} {sort : PartSort α} {P : Node → Prop}

/-- Every part in the slot has a property. -/
def Forall (s : Slot) (P : Node → Prop) : Prop := ∀ c ∈ s.children, P c

@[simp] theorem forall_required {a : α} {put : α → Node} :
    (required sort a put).Forall P ↔ P (sort.node a) := List.forall_mem_singleton

@[simp] theorem forall_optional {a? : Option α} {put : Option α → Node} :
    (optional sort a? put).Forall P ↔ ∀ a ∈ a?, P (sort.node a) := by
  simp [Forall, optional]

@[simp] theorem forall_list {as : List α} {put : List α → Node} :
    (list sort as put).Forall P ↔ ∀ a ∈ as, P (sort.node a) := by
  simp [Forall, list]

end Slot

namespace Node

theorem forall_mem_children {n : Node} {P : Node → Prop} :
    (∀ c ∈ n.children, P c) ↔ ∀ s ∈ n.slots, s.2.Forall P := by
  constructor
  · intro h s hs c hc
    exact h c (List.mem_flatMap.2 ⟨s, hs, hc⟩)
  · intro h c hc
    obtain ⟨s, hs, hc⟩ := List.mem_flatMap.1 hc
    exact h s hs c hc

/-- The node itself, its parts, their parts, and so on. -/
inductive Within (root : Node) : Node → Prop
  | refl : Within root root
  | child {n c : Node} (h : Within root n) (hc : c ∈ n.children) : Within root c

namespace Within

variable {root n c : Node}

theorem trans {m : Node} (h : root.Within n) (hm : n.Within m) : root.Within m := by
  induction hm with
  | refl => exact h
  | child _ hc ih => exact ih.child hc

theorem of_mem_children (hc : c ∈ root.children) (h : c.Within n) : root.Within n :=
  (Within.refl.child hc).trans h

/-- Whatever is within a node is the node itself or within one of its parts. -/
theorem eq_or_exists (h : root.Within n) : n = root ∨ ∃ c ∈ root.children, c.Within n := by
  induction h with
  | refl => exact .inl rfl
  | @child n m _ hm ih =>
    rcases ih with rfl | ⟨c, hc, hn⟩
    · exact .inr ⟨m, hm, .refl⟩
    · exact .inr ⟨c, hc, hn.child hm⟩

/-- What holds of a node, and of the parts of whatever it holds of, holds of every node within. -/
theorem induct {P : Node → Prop} (h : root.Within n) (hroot : P root)
    (hstep : ∀ m, P m → ∀ s ∈ m.slots, s.2.Forall P) : P n := by
  induction h with
  | refl => exact hroot
  | @child n c _ hc ih => exact forall_mem_children.2 (hstep n ih) c hc

end Within

end Node

end SchemaLang
