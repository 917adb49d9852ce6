import SchemaLang.Proofs.Scanning

/-!
# The ways a token is read

Which token stands at the head of a text is decided by its first character, and by the second one
after a minus sign. `Scans` lists the cases with what each reads, so that a fact about tokens is
shown case by case: that each is valid, for one.
-/

namespace SchemaLang

/-- The token at the head of a text, by what it starts with. -/
inductive Scans : List Char → Scanned → Prop
  | endOfInput : Scans [] ⟨.endOfInput, [], []⟩
  | description (tail : List Char) : Scans ('#' :: tail) (.description ('#' :: tail))
  | string {contents : List Char} {r : StringLiteral.Reading}
    (scan : StringLiteral.scan 1 contents = .ok r) :
    Scans ('"' :: contents) ⟨.string (String.ofList r.value), '"' :: r.text, r.rest⟩
  | number {cs text rest : List Char} {isFloat : Bool} (starts : Number.starts cs = true)
    (scan : Number.scan cs = .ok (text, isFloat, rest)) :
    Scans cs
      ⟨if isFloat then .float (String.ofList text) else .int (String.ofList text), text, rest⟩
  | name {c : Char} {tail : List Char} (starts : isNameStart c = true) :
    Scans (c :: tail) (.name (c :: tail))
  | punctuator (p : Punctuator) {tail : List Char}
    (plain : Number.starts (p.char :: tail) = false) :
    Scans (p.char :: tail) ⟨.punctuator p, [p.char], tail⟩

/-- Where a number starts there is a character that starts nothing else. -/
theorem exists_cons_of_starts {cs : List Char} (h : Number.starts cs = true) :
    ∃ c tail, cs = c :: tail ∧ c ≠ '#' ∧ c ≠ '"' := by
  cases cs with
  | nil => exact nomatch h
  | cons c tail =>
    refine ⟨c, tail, rfl, ?_, ?_⟩
    · rintro rfl
      rw [starts_eq_isDigit (by decide)] at h
      exact nomatch h
    · rintro rfl
      rw [starts_eq_isDigit (by decide)] at h
      exact nomatch h

theorem scans_of_scanToken {cs : List Char} {s : Scanned} (h : scanToken cs = .ok s) :
    Scans cs s := by
  unfold scanToken at h
  split at h
  · cases h
    exact .endOfInput
  · rename_i c cs
    split at h
    · rename_i hc
      cases h
      cases hc
      exact .description cs
    · split at h
      · rename_i hc
        cases hc
        simp only [Scanned.string, bind, Except.bind] at h
        split at h
        · cases h
        · rename_i hr
          cases h
          exact .string hr
      · split at h
        · rename_i hstarts
          simp only [Scanned.number, bind, Except.bind] at h
          split at h
          · cases h
          · rename_i hr
            cases h
            exact .number hstarts hr
        · rename_i hplain
          split at h
          · rename_i hc
            cases h
            exact .name hc
          · split at h
            · rename_i p hp
              cases h
              obtain rfl := Punctuator.char_of_ofChar? hp
              exact .punctuator p (by simpa using hplain)
            · cases h

theorem Scans.scanToken {cs : List Char} {s : Scanned} (h : Scans cs s) : scanToken cs = .ok s := by
  cases h with
  | endOfInput => rfl
  | description tail => rfl
  | string hr =>
    simp [SchemaLang.scanToken, Scanned.string, hr, bind, Except.bind, pure, Except.pure]
  | number hstarts hr =>
    obtain ⟨c, tail, rfl, hsharp, hquote⟩ := exists_cons_of_starts hstarts
    simp [SchemaLang.scanToken, hsharp, hquote, hstarts, Scanned.number, hr, bind, Except.bind,
      pure, Except.pure]
  | @name c tail hc =>
    have hsharp : c ≠ '#' := by rintro rfl; exact absurd hc (by decide)
    have hquote : c ≠ '"' := by rintro rfl; exact absurd hc (by decide)
    have hminus : c ≠ '-' := by rintro rfl; exact absurd hc (by decide)
    rw [SchemaLang.scanToken, if_neg hsharp, if_neg hquote, starts_eq_isDigit hminus,
      not_isDigit_of_isNameStart hc, if_neg Bool.false_ne_true, if_pos hc]
  | @punctuator p tail hplain =>
    refine scanToken_punctuator p fun hp c hc => ?_
    subst hp
    rw [show Punctuator.dash.char = '-' from rfl, starts_minus] at hplain
    rw [Option.mem_def.1 hc] at hplain
    exact hplain

/-- What is read as a description is a line with no white space around it. -/
theorem isValid_description (cs : List Char) : (Scanned.description cs).token.IsValid := by
  have within : ∀ x, Ignored.endsLine x →
      x ∉ Text.trim ((cs.takeWhile fun c => !Ignored.endsLine c).drop 2) := by
    intro x ends mem
    have inside :=
      List.all_eq_true.1 (List.all_takeWhile (l := cs) (p := fun c => !Ignored.endsLine c)) x
      (List.mem_of_mem_drop (Text.mem_of_mem_trim mem))
    simp [ends] at inside
  simp only [Token.IsValid, Scanned.description, String.toList_ofList, IsDescriptionLine]
  exact ⟨⟨Text.trim_trim _, within _ (by decide)⟩, within _ (by decide)⟩

namespace Scans

/-- Only where nothing is left the end of the input is read. -/
theorem eq_nil {cs : List Char} {s : Scanned} (h : Scans cs s) (hs : s.token = .endOfInput) :
    cs = [] := by
  cases h with
  | endOfInput => rfl
  | @number _ _ _ isFloat => cases isFloat <;> exact nomatch hs
  | _ => exact nomatch hs

/-- Every token that is read has a text of its sort. -/
theorem isValid {cs : List Char} {s : Scanned} (h : Scans cs s) : s.token.IsValid := by
  cases h with
  | endOfInput | string | punctuator => trivial
  | description tail => exact isValid_description ('#' :: tail)
  | @number _ _ _ isFloat _ scan =>
    have isNumber := Number.isNumber_of_scan scan
    cases isFloat <;> exact isNumber
  | @name c tail starts =>
    refine ⟨c, tail.takeWhile isNameChar, ?_, starts,
      fun x hx => List.all_eq_true.1 List.all_takeWhile x hx⟩
    rw [String.toList_ofList, List.takeWhile_cons_of_pos (isNameChar_of_isNameStart starts)]

end Scans

end SchemaLang
