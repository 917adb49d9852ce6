import SchemaLang.Token.Ignored

/-!
# Ignored text

What stands between tokens is made of separators and comments only. A comment begins with a `#` that
no other one follows, and goes up to the next line break, or to the end of the text.
-/

namespace SchemaLang.Ignored

/-- Ignored text, and the text behind it. -/
inductive IsGap : List Char → List Char → Prop
  | nil {rest : List Char} : IsGap [] rest
  | separator {c : Char} {gap rest : List Char} (separates : isSeparator c = true)
    (tail : IsGap gap rest) :
    IsGap (c :: gap) rest
  | comment {text gap rest : List Char} (line : ∀ c ∈ text, endsLine c = false)
    (single : text.head? ≠ some '#')
    (ends : ∀ c ∈ (gap ++ rest).head?, endsLine c = true) (tail : IsGap gap rest) :
    IsGap ('#' :: (text ++ gap)) rest

theorem endsLine_iff {c : Char} : endsLine c = true ↔ c = '\n' ∨ c = '\r' := by
  simp only [endsLine, Bool.or_eq_true, beq_iff_eq]

theorem isSeparator_of_endsLine {c : Char} (h : endsLine c = true) : isSeparator c = true := by
  rcases endsLine_iff.1 h with rfl | rfl
  · rfl
  · rfl

/-- A character that is not ignored ends ignored text. -/
theorem split_of_stop {c : Char} {rest : List Char} (hsep : ¬isSeparator c = true)
    (hsharp : ¬(c = '#' ∧ rest.head? ≠ some '#')) : split false (c :: rest) = ([], c :: rest) := by
  rw [split, if_neg hsep, if_neg hsharp]

/-- Ignored text ends at no single `#`. -/
theorem head?_of_split {inComment : Bool} {cs tail : List Char}
    (h : (split inComment cs).2 = '#' :: tail) : tail.head? = some '#' := by
  fun_induction split inComment cs with
  | case1 => cases h
  | case2 c cs gap rest hsplit ih =>
    rw [hsplit] at ih
    exact ih h
  | case3 c cs hc gap rest hsplit ih =>
    rw [hsplit] at ih
    exact ih h
  | case4 c cs _ hsharp gap rest hsplit ih =>
    rw [hsplit] at ih
    exact ih h
  | case5 c cs hseparator hsharp =>
    obtain ⟨rfl, rfl⟩ := List.cons.inj h
    exact Decidable.byContradiction fun hsingle => hsharp ⟨rfl, hsingle⟩

/-- Behind ignored text stands none. -/
theorem split_split (inComment : Bool) (cs : List Char) :
    split false (split inComment cs).2 = ([], (split inComment cs).2) := by
  fun_induction split inComment cs with
  | case1 => rfl
  | case2 c cs gap rest hsplit ih =>
    rw [hsplit] at ih
    exact ih
  | case3 c cs hc gap rest hsplit ih =>
    rw [hsplit] at ih
    exact ih
  | case4 c cs _ hsharp gap rest hsplit ih =>
    rw [hsplit] at ih
    exact ih
  | case5 c cs hseparator hsharp => exact split_of_stop hseparator hsharp

/-- A comment goes up to the next line break, which is ignored text again. -/
theorem split_true (cs : List Char) :
    split true cs =
      ((cs.takeWhile fun c => !endsLine c) ++ (split false (cs.dropWhile fun c => !endsLine c)).1,
        (split false (cs.dropWhile fun c => !endsLine c)).2) := by
  induction cs with
  | nil => rfl
  | cons c cs ih =>
    by_cases hc : endsLine c = true
    · simp only [List.takeWhile_cons, List.dropWhile_cons, hc, Bool.not_true,
        Bool.false_eq_true, if_false, List.nil_append]
      rw [split, split, if_pos (isSeparator_of_endsLine hc), hc]
      rfl
    · simp only [List.takeWhile_cons, List.dropWhile_cons, hc, Bool.not_false, if_true]
      rw [split, Bool.eq_false_iff.2 hc, Bool.not_false, ih]
      rfl

/-- The rest of a comment and the ignored text behind it. -/
def IsRestOfComment (cs gap rest : List Char) : Prop :=
  ∃ tail, gap = cs.takeWhile (fun c => !endsLine c) ++ tail ∧
    (∀ c ∈ (tail ++ rest).head?, endsLine c = true) ∧ IsGap tail rest

/-- What is split off is ignored text. -/
theorem isGap_split (inComment : Bool) (cs : List Char) :
    if inComment then IsRestOfComment cs (split inComment cs).1 (split inComment cs).2
    else IsGap (split inComment cs).1 (split inComment cs).2 := by
  fun_induction split inComment cs with
  | case1 inComment =>
    cases inComment with
    | true => exact ⟨[], rfl, by simp, .nil⟩
    | false => exact .nil
  | case2 c cs gap rest hsplit ih =>
    rw [hsplit] at ih
    by_cases hc : endsLine c
    · -- The line break ends the comment, and separates.
      rw [hc] at ih
      refine ⟨c :: gap, ?_, ?_, .separator (isSeparator_of_endsLine hc) ih⟩
      · simp [hc]
      · simp [hc]
    · rw [Bool.not_eq_true] at hc
      rw [hc] at ih
      obtain ⟨tail, rfl, hends, hgap⟩ := ih
      refine ⟨tail, ?_, hends, hgap⟩
      simp [hc]
  | case3 c cs hc gap rest hsplit ih =>
    rw [hsplit] at ih
    exact .separator hc ih
  | case4 c cs _ hsharp gap rest hsplit ih =>
    rw [hsplit] at ih
    obtain ⟨tail, rfl, hends, hgap⟩ := ih
    obtain ⟨rfl, hsingle⟩ := hsharp
    refine .comment (fun c hc => ?_) (fun hhead => hsingle ?_) hends hgap
    · have hc := List.all_eq_true.1 List.all_takeWhile c hc
      simpa using hc
    · cases cs with
      | nil => cases hhead
      | cons d ds =>
        by_cases hd : endsLine d
        · simp [hd] at hhead
        · simpa [hd] using hhead
  | case5 c cs hseparator hsharp => exact .nil

theorem isGap_of_split {cs gap rest : List Char} (h : split false cs = (gap, rest)) :
    IsGap gap rest := by
  have hgap := isGap_split false cs
  rw [h] at hgap
  exact hgap

end SchemaLang.Ignored
