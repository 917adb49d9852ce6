import SchemaLang.Proofs.Lexing.Bytes
import SchemaLang.Proofs.Lexing.Faults

/-!
# Both readers of numbers agree

Every part of a number is made of characters of one byte, so that the two readers count alike. Part
by part they find the same characters or the same fault.
-/

namespace SchemaLang.Bytewise

open Text

variable {cs rest : List Char} {start offset : Nat}

/-- The answer or the fault of a reader of characters, for a text that starts at byte `start`. -/
def placed {α β : Type} (start : Nat) (f : α → β) : Except SyntaxError α → Reads β
  | .ok a => pure (f a)
  | .error e => throw (e.shift start)

private theorem placed_bind_pure {α β γ : Type} (start : Nat) (f : α → β) (g : β → γ)
    (r : Except SyntaxError α) :
    (placed start f r >>= fun b => pure (g b)) = placed start (fun a => g (f a)) r := by
  cases r <;> rfl

/-- Two readers agree that go on alike from each answer they agree on. -/
theorem placed_bind {α β γ δ : Type} {f : α → β} {r : Except SyntaxError α}
    {g : β → Reads γ} {f' : δ → γ} {g' : α → Except SyntaxError δ}
    (h : ∀ a, r = .ok a → g (f a) = placed start f' (g' a)) :
    (placed start f r >>= g) = placed start f' (r >>= g') := by
  cases r with
  | error e => rfl
  | ok a => exact h a rfl

theorem placed_map {α β γ : Type} (start : Nat) (f : β → γ) (g : α → β) (r : Except SyntaxError α) :
    placed start f (r.map g) = placed start (fun a => f (g a)) r := by
  cases r <;> rfl

private theorem readDigits_eq (h : RestAt cs (start + offset) rest) :
    readDigits cs (start + offset) =
      placed start (fun p => start + offset + p.1.length) (Number.someDigits offset rest) := by
  have hdigits : ∀ c ∈ rest.takeWhile Char.isDigit, c.isDigit :=
    fun c hc => List.all_eq_true.1 List.all_takeWhile c hc
  have hend : runEnd cs Char.isDigit (start + offset) =
      start + offset + (rest.takeWhile Char.isDigit).length := by
    rw [runEnd_eq h isAsciiClass_isDigit, byteLength_of_single fun d hd =>
      utf8Size_of_isDigit (hdigits d hd)]
  rw [readDigits, hend, Number.someDigits]
  cases hds : rest.takeWhile Char.isDigit with
  | nil =>
    rw [List.length_nil, Nat.add_zero, if_pos rfl, after_eq h]
    rfl
  | cons d ds =>
    have hne : start + offset + (d :: ds).length ≠ start + offset := by
      rw [List.length_cons]
      omega
    rw [if_neg hne]
    rfl

/-- Behind a sign the text goes on. -/
theorem restAt_of_sign {signs : List Char} (h : RestAt cs start rest)
    (hsigns : ∀ c ∈ signs, isNumberChar c) :
    RestAt cs (start + (Number.sign signs rest).1.length) (Number.sign signs rest).2 := by
  rw [← Number.byteLength_of_isNumberChar (Number.isNumberChar_of_sign hsigns rest)]
  refine RestAt.advance ?_
  rwa [Number.append_of_sign]

private theorem length_sign (signs rest : List Char) :
    (Number.sign signs rest).1.length = if rest.head?.any (· ∈ signs) then 1 else 0 := by
  cases rest with
  | nil => rfl
  | cons c rest =>
    by_cases hc : c ∈ signs
    · simp [Number.sign, hc]
    · simp [Number.sign, hc]

private theorem whole_of_head_ne {n : Nat} (h : rest.head? ≠ some '0') :
    Number.whole n rest = Number.someDigits n rest := by
  unfold Number.whole
  split
  · exact absurd rfl h
  · exact absurd rfl h
  · rfl

private theorem readWhole_eq (h : RestAt cs (start + offset) rest) :
    readWhole cs (start + offset) =
      placed start (fun p => start + offset + p.1.length) (Number.whole offset rest) := by
  rw [readWhole, any_byte? h (isAsciiClass_eq (by decide))]
  by_cases hzero : rest.head? = some '0'
  · obtain ⟨tail, rfl⟩ : ∃ tail, rest = '0' :: tail := by
      cases rest with
      | nil => exact nomatch hzero
      | cons c tail => exact ⟨tail, by rw [Option.some.inj hzero]⟩
    have hnext := h.next (by decide)
    cases tail with
    | nil =>
      rw [byte?_of_nil hnext]
      rfl
    | cons d tail =>
      obtain ⟨b, hb, hleads⟩ := byte?_of_cons hnext
      rw [hb, Option.bind_some, hleads.ascii?]
      by_cases hd : d.isDigit = true
      · simp only [isAsciiClass_isDigit d hd, if_true, Number.whole, hd]
        rfl
      · by_cases hascii : d.toNat < 128
        · simp only [hascii, if_true, Number.whole, hd, Bool.false_eq_true, if_false]
          rfl
        · simp only [hascii, if_false, Number.whole, hd, Bool.false_eq_true]
          rfl
  · have hany : rest.head?.any (· == '0') = false := by
      cases rest with
      | nil => rfl
      | cons c tail => simpa using hzero
    rw [hany, if_neg Bool.false_ne_true, whole_of_head_ne hzero]
    exact readDigits_eq h

private theorem readFraction_eq (h : RestAt cs (start + offset) rest) :
    readFraction cs (start + offset) =
      placed start (fun p => (start + offset + p.1.length, !p.1.isEmpty))
        (Number.fraction offset rest) := by
  rw [readFraction, any_byte? h (isAsciiClass_eq (by decide))]
  cases rest with
  | nil => rfl
  | cons c tail =>
    by_cases hc : c = '.'
    · subst hc
      have hnext : RestAt cs (start + (offset + 1)) tail := h.next (by decide)
      have hdigits := readDigits_eq hnext
      rw [← Nat.add_assoc] at hdigits
      rw [List.head?_cons, if_pos (show (some '.').any (· == '.') = true from rfl), hdigits,
        placed_bind_pure, Number.fraction, placed_map]
      simp only [List.length_cons, List.isEmpty_cons, Bool.not_false, Nat.add_assoc, Nat.add_comm 1]
    · have hfraction : Number.fraction offset (c :: tail) = .ok ([], c :: tail) := by
        unfold Number.fraction
        split
        · rename_i heq
          exact absurd (List.cons.inj heq).1 hc
        · rfl
      rw [List.head?_cons, if_neg (by simpa using hc), hfraction]
      rfl

private theorem readExponent_eq (h : RestAt cs (start + offset) rest) :
    readExponent cs (start + offset) =
      placed start (fun p => (start + offset + p.1.length, !p.1.isEmpty))
        (Number.exponent offset rest) := by
  have hletters : IsAsciiClass fun c => c == 'e' || c == 'E' :=
    (isAsciiClass_eq (by decide)).or (isAsciiClass_eq (by decide))
  have hsigns : IsAsciiClass fun c => c == '+' || c == '-' :=
    (isAsciiClass_eq (by decide)).or (isAsciiClass_eq (by decide))
  rw [readExponent, any_byte? h hletters]
  cases rest with
  | nil => rfl
  | cons c tail =>
    rw [List.head?_cons, Number.exponent]
    by_cases hc : c = 'e' ∨ c = 'E'
    · have hascii : c.toNat < 128 := hletters c (by simpa using hc)
      have hnext : RestAt cs (start + (offset + 1)) tail := h.next hascii
      have hsigned := any_byte? hnext hsigns
      have hdigits : RestAt cs (start + (offset + 1 + (Number.sign ['+', '-'] tail).1.length))
          (Number.sign ['+', '-'] tail).2 := by
        rw [← Nat.add_assoc]
        exact restAt_of_sign hnext Number.isNumberChar_plus_minus
      have hstart :
          (if tail.head?.any (fun c => c == '+' || c == '-') = true then start + offset + 2
            else start + offset + 1) =
          start + (offset + 1 + (Number.sign ['+', '-'] tail).1.length) := by
        have hmem : ∀ d, decide (d ∈ ['+', '-']) = (d == '+' || d == '-') := by
          intro d
          rw [Bool.eq_iff_iff]
          simp
        rw [length_sign]
        simp only [hmem]
        split <;> omega
      rw [← Nat.add_assoc] at hsigned
      rw [if_pos (show (some c).any _ = true by simpa using hc), if_pos hc, hsigned]
      simp only [hstart, readDigits_eq hdigits, placed_bind_pure, placed_map, List.length_append,
        List.length_cons, List.cons_append, List.isEmpty_cons, Bool.not_false]
      congr 1
      funext p
      congr 1
      omega
    · rw [if_neg (show ¬(some c).any _ = true by simpa using hc), if_neg hc]
      rfl

private theorem scanned_number {s digits : List Char} (hs : Number.sign ['-'] cs = (s, digits)) :
    Scanned.number cs = (do
      let (w, cs) ← Number.whole s.length digits
      let (f, cs) ← Number.fraction (s.length + w.length) cs
      let (e, cs) ← Number.exponent (s.length + w.length + f.length) cs
      let text := String.ofList (s ++ w ++ f ++ e)
      return ⟨if f ++ e ≠ [] then .float text else .int text, s ++ w ++ f ++ e, cs⟩) := by
  simp only [Scanned.number, Number.scan, hs, bind_assoc, pure_bind, decide_eq_true_eq]

/-- Where a number starts, both readers find the same one or the same fault. -/
theorem lexNumber_eq (h : RestAt cs start rest) (hstarts : Number.starts rest = true) :
    lexNumber cs start =
      placed start (fun t => (t.token, ⟨start, start + byteLength t.text⟩))
        (Scanned.number rest) := by
  cases rest with
  | nil => cases hstarts
  | cons c tail =>
    obtain ⟨b, hb, hleads⟩ := byte?_of_cons h
    have hsign : (if isAscii (· == '-') b = true then start + 1 else start) =
        start + (Number.sign ['-'] (c :: tail)).1.length := by
      rw [hleads.isAscii (isAsciiClass_eq (by decide)), length_sign]
      by_cases hc : c = '-'
      · simp [hc]
      · simp [hc]
    have hafterSign := restAt_of_sign h Number.isNumberChar_minus
    have hlengthSign :=
      Number.byteLength_of_isNumberChar
        (Number.isNumberChar_of_sign Number.isNumberChar_minus (c :: tail))
    have appendSign := Number.append_of_sign ['-'] (c :: tail)
    generalize hs : Number.sign ['-'] (c :: tail) = signed at *
    obtain ⟨s, digits⟩ := signed
    rw [lexNumber, hb, scanned_number hs]
    show (readWhole cs _ >>= _) = _
    rw [hsign, readWhole_eq hafterSign]
    refine placed_bind fun ⟨w, afterWhole⟩ hw => ?_
    have hlengthWhole :=
      Number.byteLength_of_isNumberChar (isNumberChar_of_isWhole (Number.isWhole_of_whole hw))
    have appendWhole := (Number.append_of_whole hw).1
    have hafterWhole : RestAt cs (start + (s.length + w.length)) afterWhole := by
      rw [← Nat.add_assoc, ← hlengthWhole]
      refine RestAt.advance ?_
      rwa [appendWhole]
    show (readFraction cs (start + s.length + w.length) >>= _) = _
    rw [Nat.add_assoc, readFraction_eq hafterWhole]
    refine placed_bind fun ⟨f, afterFraction⟩ hf => ?_
    have hlengthFraction :=
      Number.byteLength_of_isNumberChar
        (isNumberChar_of_isFraction (Number.isFraction_of_fraction hf))
    have appendFraction := Number.append_of_fraction hf
    have hafterFraction : RestAt cs (start + (s.length + w.length + f.length)) afterFraction := by
      rw [← Nat.add_assoc, ← hlengthFraction]
      refine RestAt.advance ?_
      rwa [appendFraction]
    show (readExponent cs (start + (s.length + w.length) + f.length) >>= _) = _
    rw [Nat.add_assoc, readExponent_eq hafterFraction]
    refine placed_bind fun ⟨e, afterExponent⟩ he => ?_
    have hlengthExponent :=
      Number.byteLength_of_isNumberChar
        (isNumberChar_of_isExponent (Number.isExponent_of_exponent he))
    have appendExponent := Number.append_of_exponent he
    have hstop : start + (s.length + w.length + f.length) + e.length =
        start + byteLength (s ++ w ++ f ++ e) := by
      simp only [byteLength_append, hlengthSign, hlengthWhole, hlengthFraction,
        hlengthExponent, Nat.add_assoc]
    have htext : RestAt cs start ((s ++ w ++ f ++ e) ++ afterExponent) := by
      simp only [List.append_assoc, appendExponent, appendFraction, appendWhole, appendSign]
      exact h
    have hfloat : (!f.isEmpty || !e.isEmpty) = decide (f ++ e ≠ []) := by
      cases f <;> cases e <;> rfl
    show (slice cs start (start + (s.length + w.length + f.length) + e.length) >>= fun text =>
      pure (if !f.isEmpty || !e.isEmpty then Token.float (String.ofList text) else Token.int
        (String.ofList text),
        Span.mk start (start + (s.length + w.length + f.length) + e.length))) = _
    rw [hstop, slice_eq htext, pure_bind, hfloat]
    simp only [decide_eq_true_eq]
    rfl

end SchemaLang.Bytewise
