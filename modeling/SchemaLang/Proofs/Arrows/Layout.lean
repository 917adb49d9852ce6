import SchemaLang.Proofs.Printing.Lexes

/-!
# Names and punctuators in any layout

Names and punctuators may be written with any ignored text in front of each of them and behind the
last one. All that matters is that no name runs into what comes next. However they are laid out, the
text has these tokens and no others.
-/

namespace SchemaLang

/-- The text holds these names and punctuators, each behind some ignored text, and ignored text
behind the last one. -/
inductive LaidOut : List Token → List Char → Prop
  | nil {gap : List Char} (ignored : Ignored.IsGap gap []) : LaidOut [] gap
  | name {gap rest : List Char} {text : String} {ts : List Token}
    (ignored : Ignored.IsGap gap (text.toList ++ rest))
    (isName : IsName text) (breaks : Breaks rest) (tail : LaidOut ts rest) :
    LaidOut (.name text :: ts) (gap ++ (text.toList ++ rest))
  | punctuator {gap rest : List Char} {p : Punctuator} {ts : List Token}
    (ignored : Ignored.IsGap gap (p.char :: rest)) (tail : LaidOut ts rest) :
    LaidOut (.punctuator p :: ts) (gap ++ p.char :: rest)

/-- Ignored text starts with no digit. -/
theorem Ignored.IsGap.not_isDigit {gap rest : List Char} (h : IsGap gap rest)
    (hrest : ∀ c ∈ rest.head?, c.isDigit = false) :
    ∀ c ∈ (gap ++ rest).head?, c.isDigit = false := by
  cases h with
  | nil => exact hrest
  | separator hc =>
    rintro _ ⟨⟩
    simp only [isSeparator, Bool.or_eq_true, beq_iff_eq] at hc
    rcases hc with ((((rfl | rfl) | rfl) | rfl) | rfl) | rfl <;> rfl
  | comment =>
    rintro _ ⟨⟩
    rfl

namespace LaidOut

variable {ts : List Token} {cs : List Char}

/-- A dash in front is no part of a number. -/
theorem not_isDigit (h : LaidOut ts cs) : ∀ c ∈ cs.head?, c.isDigit = false := by
  cases h with
  | nil ignored =>
    rw [← List.append_nil cs]
    exact ignored.not_isDigit (by simp)
  | name ignored isName =>
    refine ignored.not_isDigit ?_
    obtain ⟨c, cs, hcs, hc, -⟩ := isName
    rw [hcs]
    rintro _ ⟨⟩
    exact not_isDigit_of_isNameStart hc
  | @punctuator _ _ p _ ignored =>
    refine ignored.not_isDigit ?_
    rintro _ ⟨⟩
    cases p <;> rfl

/-- The text has these tokens, whatever the ignored text is. -/
theorem exists_lexesWith (h : LaidOut ts cs) : ∃ notes, LexesWith notes cs ts := by
  induction h with
  | nil ignored =>
    rename_i gap
    rw [← List.append_nil gap]
    exact lexes_nil.exists_gap ignored
  | name ignored isName breaks _ ih =>
    obtain ⟨notes, tail⟩ := ih
    exact (tail.name isName breaks).exists_gap ignored
  | @punctuator _ _ p _ ignored tail ih =>
    obtain ⟨notes, lexes⟩ := ih
    exact (lexes.punctuator p fun _ => tail.not_isDigit).exists_gap ignored

theorem lexes (h : LaidOut ts cs) : Lexes cs ts := by
  obtain ⟨notes, lexes⟩ := h.exists_lexesWith
  exact lexes.lexes

end LaidOut

end SchemaLang
