import SchemaLang.Proofs.Lexing.Faults
import SchemaLang.Proofs.Viability.Basic

/-!
# Faults of the text are no misfits

What keeps a text from being read as tokens lies in its characters. So a misfit is always one of the
grammar, at a token that was read.
-/

namespace SchemaLang

/-- Misfits are faults of the grammar. -/
theorem Category.IsMisfit.isGrammatical {cause : Cause} (h : cause.category.IsMisfit) :
    cause.IsGrammatical := by
  cases cause with
  | expected | unexpected | nestingTooDeep => exact trivial
  | _ => exact h.elim

theorem Cause.IsAt.not_isGrammatical {cause : Cause} {after : List Char} (h : cause.IsAt after) :
    ¬ cause.IsGrammatical := by
  cases cause with
  | expected | unexpected | nestingTooDeep => exact h.elim
  | _ => exact not_false

/-- The fault of a text lies in its characters. -/
theorem not_isGrammatical_of_fault {position : Nat} {cs : List Char} {e : SyntaxError}
    (h : (scan position cs).fault = some e) : ¬ e.cause.IsGrammatical := by
  fun_induction scan position cs with
  | case1 position cs f hread =>
    obtain rfl := Option.some.inj h
    obtain ⟨f, hscan, rfl⟩ := readToken_eq_error.1 hread
    obtain ⟨before, after, -, -, -, cause⟩ := standsIn_of_scanToken hscan
    exact cause.not_isGrammatical
  | case2 => exact absurd h.symm (Option.some_ne_none e)
  | case3 _ _ _ _ _ _ ih => exact ih h

/-- A misfit is no fault of a text. -/
theorem Category.IsMisfit.cause_ne {e f : SyntaxError} {position : Nat} {cs : List Char}
    (h : e.cause.category.IsMisfit) (hf : (scan position cs).fault = some f) :
    e.cause ≠ f.cause := by
  intro same
  exact not_isGrammatical_of_fault hf (same ▸ h.isGrammatical)

/-- A parse of a source that wants no locations meets misfits of the grammar only. -/
theorem Source.isBare_setting (s : Source) {o : ParseOptions} (ho : o.noLocation = true) :
    (s.setting o).IsBare where
  unlocated := s.locate_setting ho
  fault _ hf hmisfit := hmisfit.cause_ne hf rfl

end SchemaLang
