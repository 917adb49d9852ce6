import SchemaLang.Proofs.Vocabulary

/-!
# Reading numbers

A text that is a number is read as far as it goes when no character follows that could go on with
it, and what is read as a number is one. Both are shown part by part: sign, digits before the point,
fraction, exponent.
-/

namespace SchemaLang.Number

theorem someDigits_append {n : Nat} {ds rest : List Char} (hd : IsDigits ds)
    (hr : ∀ c ∈ rest.head?, c.isDigit = false) : someDigits n (ds ++ rest) = .ok (ds, rest) := by
  obtain ⟨htake, hdrop⟩ := takeWhile_append_of_stop hd.2 hr
  unfold someDigits
  rw [htake, hdrop]
  cases ds with
  | nil => exact absurd rfl hd.1
  | cons d ds => rfl

theorem isDigits_of_someDigits {n : Nat} {cs ds rest : List Char}
    (h : someDigits n cs = .ok (ds, rest)) : IsDigits ds := by
  refine ⟨(append_of_someDigits h).2, ?_⟩
  unfold someDigits at h
  split at h
  · simp at h
  · simp only [Except.ok.injEq, Prod.mk.injEq] at h
    obtain ⟨rfl, -⟩ := h
    intro d hd
    exact List.all_eq_true.1 List.all_takeWhile d hd

theorem sign_append {signs sign rest : List Char} (hs : sign = [] ∨ ∃ c ∈ signs, sign = [c])
    (hr : sign = [] → ∀ c ∈ rest.head?, c ∉ signs) :
    Number.sign signs (sign ++ rest) = (sign, rest) := by
  rcases hs with rfl | ⟨c, hc, rfl⟩
  · cases rest with
    | nil => rfl
    | cons d rest => simp [Number.sign, hr rfl d (by simp)]
  · simp [Number.sign, hc]

theorem sign_cases (signs cs : List Char) :
    (Number.sign signs cs).1 = [] ∨ ∃ c ∈ signs, (Number.sign signs cs).1 = [c] := by
  cases cs with
  | nil => exact .inl rfl
  | cons c cs =>
    by_cases h : c ∈ signs
    · exact .inr ⟨c, h, by simp [Number.sign, h]⟩
    · exact .inl (by simp [Number.sign, h])

theorem whole_append {n : Nat} {w rest : List Char} (hw : IsWhole w)
    (hr : ∀ c ∈ rest.head?, c.isDigit = false) : whole n (w ++ rest) = .ok (w, rest) := by
  rcases hw with rfl | ⟨hd, h0⟩
  · cases rest with
    | nil => rfl
    | cons c rest => simp [whole, hr c (by simp)]
  · cases w with
    | nil => exact absurd rfl hd.1
    | cons d ds =>
      have hne : d ≠ '0' := by simpa using h0
      rw [← someDigits_append hd hr]
      rw [List.cons_append, whole]
      · intro d' cs h; exact hne (List.cons.inj h).1
      · intro h; exact hne (List.cons.inj h).1

theorem isWhole_of_whole {n : Nat} {cs w rest : List Char} (h : whole n cs = .ok (w, rest)) :
    IsWhole w := by
  unfold whole at h
  split at h
  · split at h
    · simp at h
    · simp only [Except.ok.injEq, Prod.mk.injEq] at h
      exact .inl h.1.symm
  · simp only [Except.ok.injEq, Prod.mk.injEq] at h
    exact .inl h.1.symm
  · rename_i h0 h1
    have hd := isDigits_of_someDigits h
    refine .inr ⟨hd, ?_⟩
    have happ := (append_of_someDigits h).1
    cases w with
    | nil => simp
    | cons d ds =>
      intro hz
      obtain rfl : d = '0' := by simpa using hz
      cases hrest : ds ++ rest with
      | nil => rw [← happ] at h1; exact h1 (by simp [hrest])
      | cons e es => rw [← happ] at h0; exact h0 e es (by simp [hrest])

theorem fraction_append {n : Nat} {f rest : List Char} (hf : IsFraction f)
    (hr : ∀ c ∈ rest.head?, c.isDigit = false ∧ c ≠ '.') :
    fraction n (f ++ rest) = .ok (f, rest) := by
  rcases hf with rfl | ⟨ds, rfl, hd⟩
  · cases rest with
    | nil => rfl
    | cons c rest =>
      have hc := (hr c (by simp)).2
      rw [List.nil_append, fraction]
      intro cs h
      exact hc (List.cons.inj h).1
  · rw [List.cons_append, fraction, someDigits_append hd fun c hc => (hr c hc).1]
    rfl

theorem isFraction_of_fraction {n : Nat} {cs f rest : List Char}
    (h : fraction n cs = .ok (f, rest)) : IsFraction f := by
  unfold fraction at h
  split at h
  · rename_i cs'
    cases hd : someDigits (n + 1) cs' with
    | error e => simp [hd, Except.map] at h
    | ok p =>
      simp only [hd, Except.map, Except.ok.injEq, Prod.mk.injEq] at h
      exact .inr ⟨p.1, h.1.symm, isDigits_of_someDigits hd⟩
  · simp only [Except.ok.injEq, Prod.mk.injEq] at h
    exact .inl h.1.symm

private theorem exponent_append {n : Nat} {e rest : List Char} (he : IsExponent e)
    (hr : Breaks rest) : exponent n (e ++ rest) = .ok (e, rest) := by
  rcases he with rfl | ⟨letter, s, ds, rfl, hl, hs, hd⟩
  · cases rest with
    | nil => rfl
    | cons c rest =>
      have hc := (hr c (by simp)).1
      have hne : ¬(c = 'e' ∨ c = 'E') := by rintro (rfl | rfl) <;> exact absurd hc (by decide)
      simp only [List.nil_append, exponent, hne, if_false]
  · have hsign : sign ['+', '-'] (s ++ (ds ++ rest)) = (s, ds ++ rest) := by
      apply sign_append
      · rcases hs with rfl | rfl | rfl <;> simp
      · intro _ c hc
        cases ds with
        | nil => exact absurd rfl hd.1
        | cons d ds =>
          obtain rfl : d = c := by simpa using hc
          have := hd.2 d (by simp)
          intro hm
          rcases List.mem_cons.1 hm with rfl | hm
          · exact absurd this (by decide)
          · obtain rfl : d = '-' := by simpa using hm
            exact absurd this (by decide)
    have hdig := someDigits_append (n := n + 1 + s.length) hd hr.not_isDigit
    rw [List.append_assoc, List.cons_append, exponent, if_pos hl]
    simp only [hsign, hdig, Except.map]

theorem isExponent_of_exponent {n : Nat} {cs e rest : List Char}
    (h : exponent n cs = .ok (e, rest)) : IsExponent e := by
  cases cs with
  | nil => exact .inl (by simp_all [exponent])
  | cons c cs =>
    simp only [exponent] at h
    split at h
    · rename_i hc
      cases hd : someDigits (n + 1 + (sign ['+', '-'] cs).1.length) (sign ['+', '-'] cs).2 with
      | error e => simp [hd, Except.map] at h
      | ok p =>
        simp only [hd, Except.map, Except.ok.injEq, Prod.mk.injEq] at h
        refine .inr ⟨c, _, p.1, h.1.symm, hc, ?_, isDigits_of_someDigits hd⟩
        rcases sign_cases ['+', '-'] cs with hs | ⟨s, hs, he⟩
        · exact .inl hs
        · rcases List.mem_cons.1 hs with rfl | hs
          · exact .inr (.inl he)
          · obtain rfl : s = '-' := by simpa using hs
            exact .inr (.inr he)
    · simp only [Except.ok.injEq, Prod.mk.injEq] at h
      exact .inl h.1.symm

/-- No fraction and no exponent starts with a character that could go on with the part before it. -/
theorem head_of_parts {f e rest : List Char} (hf : IsFraction f) (he : IsExponent e)
    (hr : Breaks rest) : (∀ c ∈ (f ++ (e ++ rest)).head?, c.isDigit = false) ∧
    ∀ c ∈ (e ++ rest).head?, c.isDigit = false ∧ c ≠ '.' := by
  have htail : ∀ c ∈ (e ++ rest).head?, c.isDigit = false ∧ c ≠ '.' := by
    rcases he with rfl | ⟨letter, s, ds, rfl, hl, -, -⟩
    · exact fun c hc => ⟨hr.not_isDigit c hc, (hr c hc).2⟩
    · intro c hc
      obtain rfl : letter = c := by simpa using hc
      rcases hl with rfl | rfl <;> decide
  refine ⟨?_, htail⟩
  rcases hf with rfl | ⟨ds, rfl, -⟩
  · exact fun c hc => (htail c hc).1
  · intro c hc
    obtain rfl : '.' = c := by simpa using hc
    decide

/-- The first character of the digits before the point is no sign. -/
theorem head_of_isWhole {w : List Char} (hw : IsWhole w) (rest : List Char) :
    ∀ c ∈ (w ++ rest).head?, c.isDigit := by
  intro c hc
  rcases hw with rfl | ⟨hd, -⟩
  · obtain rfl : '0' = c := by simpa using hc
    decide
  · cases w with
    | nil => exact absurd rfl hd.1
    | cons d ds =>
      obtain rfl : d = c := by simpa using hc
      exact hd.2 d (by simp)

/-- A number is read as far as it goes. -/
theorem scan_append {text : String} {isFloat : Bool} {rest : List Char} (h : IsNumber text isFloat)
    (hr : Breaks rest) : scan (text.toList ++ rest) = .ok (text.toList, isFloat, rest) := by
  obtain ⟨s, w, f, e, htext, hs, hw, hf, he, hfl⟩ := h
  obtain ⟨hafter, htail⟩ := head_of_parts hf he hr
  have hsign : sign ['-'] (s ++ (w ++ (f ++ (e ++ rest)))) = (s, w ++ (f ++ (e ++ rest))) := by
    apply sign_append
    · rcases hs with rfl | rfl <;> simp
    · intro _ c hc hm
      obtain rfl : c = '-' := by simpa using hm
      exact absurd (head_of_isWhole hw _ _ hc) (by decide)
  have hfloat : decide (f ++ e ≠ []) = isFloat := by
    cases isFloat <;> simp_all
  rw [htext]
  simp only [List.append_assoc, scan, hsign, whole_append hw hafter, fraction_append hf htail,
    exponent_append he hr, bind, Except.bind, pure, Except.pure]
  rw [hfloat]

/-- What is read as a number is one. -/
theorem isNumber_of_scan {cs text rest : List Char} {isFloat : Bool}
    (h : scan cs = .ok (text, isFloat, rest)) : IsNumber (String.ofList text) isFloat := by
  simp only [scan, bind, Except.bind] at h
  split at h
  · simp at h
  · rename_i w hw
    split at h
    · simp at h
    · rename_i f hf
      split at h
      · simp at h
      · rename_i e he
        simp only [pure, Except.pure, Except.ok.injEq, Prod.mk.injEq] at h
        obtain ⟨rfl, rfl, -⟩ := h
        refine ⟨_, w.1, f.1, e.1, String.toList_ofList, ?_, isWhole_of_whole hw,
          isFraction_of_fraction hf, isExponent_of_exponent he,
          by simp [Classical.or_iff_not_imp_left]⟩
        rcases sign_cases ['-'] cs with hs | ⟨c, hc, hs⟩
        · exact .inl hs
        · obtain rfl : c = '-' := by simpa using hc
          exact .inr hs

end SchemaLang.Number
