import Mathlib.Data.Option.Basic
import SchemaLang.Source

/-!
# Character boundaries

A byte offset is a boundary of a text if the text can be cut there. What lies between two
boundaries can be taken out of the text; nothing can be taken out at an offset within a character
or past the end.
-/

namespace SchemaLang.Text

/-- A character ends at byte `n`, or the text starts there. -/
def IsBoundary (n : Nat) (cs : List Char) : Prop :=
  ∃ before after, cs = before ++ after ∧ byteLength before = n

theorem isBoundary_append (before after : List Char) :
    IsBoundary (byteLength before) (before ++ after) :=
  ⟨before, after, rfl, rfl⟩

private theorem isBoundary_iff {n : Nat} {cs : List Char} :
    IsBoundary n cs ↔ (splitAtByte? n cs).isSome := by
  constructor
  · rintro ⟨before, after, rfl, rfl⟩
    rw [splitAtByte?_append]
    rfl
  · intro h
    obtain ⟨⟨before, after⟩, hsplit⟩ := Option.isSome_iff_exists.1 h
    obtain ⟨rfl, rfl⟩ := eq_append_of_splitAtByte? hsplit
    exact isBoundary_append before after

instance (n : Nat) (cs : List Char) : Decidable (IsBoundary n cs) :=
  decidable_of_iff _ isBoundary_iff.symm

theorem IsBoundary.le_byteLength {n : Nat} {cs : List Char} (h : IsBoundary n cs) :
    n ≤ byteLength cs := by
  obtain ⟨before, after, rfl, rfl⟩ := h
  rw [byteLength_append]
  exact Nat.le_add_right _ _

/-- A boundary of the rest of a text is one of the text. -/
theorem IsBoundary.append_left {n : Nat} {cs : List Char} (h : IsBoundary n cs)
    (before : List Char) : IsBoundary (byteLength before + n) (before ++ cs) := by
  obtain ⟨inside, after, rfl, rfl⟩ := h
  rw [← byteLength_append, ← List.append_assoc]
  exact isBoundary_append _ after

/-- Leaving out the bytes of a part of a text leaves the rest. -/
theorem dropBytes_append (before after : List Char) :
    dropBytes (byteLength before) (before ++ after) = after := by
  induction before with
  | nil => cases after <;> simp [dropBytes]
  | cons c cs ih =>
    have hc := c.utf8Size_pos
    rw [List.cons_append, dropBytes, byteLength_cons, if_neg (by omega), Nat.add_sub_cancel_left]
    exact ih

theorem slice?_append (before inside after : List Char) :
    slice? (byteLength before) (byteLength before + byteLength inside)
      (before ++ (inside ++ after)) = some inside := by
  have hguard : (guard (byteLength before ≤ byteLength before + byteLength inside) : Option Unit) =
      some () :=
    if_pos (Nat.le_add_right _ _)
  rw [slice?, hguard]
  simp only [splitAtByte?_append, Nat.add_sub_cancel_left, bind, Option.bind, pure]

/-- Between two boundaries in order there is some text. -/
theorem IsBoundary.exists_slice? {start stop : Nat} {cs : List Char} (hstart : IsBoundary start cs)
    (hstop : IsBoundary stop cs) (hle : start ≤ stop) :
    ∃ inside, slice? start stop cs = some inside := by
  obtain ⟨before, after, rfl, rfl⟩ := hstart
  obtain ⟨before', after', happend, rfl⟩ := hstop
  rcases List.append_eq_append_iff.1 happend with ⟨inside, rfl, rfl⟩ | ⟨between, rfl, rfl⟩
  · rw [byteLength_append]
    exact ⟨inside, slice?_append before inside after'⟩
  · -- The second boundary is not in front of the first one, so that both are the same.
    rw [byteLength_append] at hle ⊢
    have none : byteLength between = 0 := by omega
    have same := slice?_append before' [] (between ++ after)
    rw [none]
    exact ⟨[], by simpa using same⟩

theorem byteLength_of_single {cs : List Char} (h : ∀ c ∈ cs, c.utf8Size = 1) :
    byteLength cs = cs.length := by
  induction cs with
  | nil => rfl
  | cons c cs ih =>
    obtain ⟨hc, hcs⟩ := List.forall_mem_cons.1 h
    rw [byteLength_cons, hc, ih hcs, List.length_cons, Nat.add_comm]

theorem utf8Size_of_isDigit {d : Char} (h : d.isDigit) : d.utf8Size = 1 := by
  rw [Char.isDigit_iff_toNat] at h
  rw [Char.utf8Size_eq_one_iff, UInt32.le_iff_toNat_le]
  exact Nat.le_trans h.2 (by decide)

end SchemaLang.Text
