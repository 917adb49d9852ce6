import SchemaLang.Proofs.Lexing.Boundaries
import SchemaLang.Proofs.Number

/-!
# Where the faults of tokens lie

A fault that is met while a token is read lies at a character boundary of the text, behind
the start of the token or at it, with no CR between the two, and its cause speaks of the text
that stands there. Offsets within a number count its characters, which is right because all
of them take one byte.
-/

namespace SchemaLang

/-- The fault lies at a boundary of a text that starts at byte `offset`. -/
def SyntaxError.LiesIn (e : SyntaxError) (offset : Nat) (cs : List Char) : Prop :=
  ∃ n, Text.IsBoundary n cs ∧ e.position = offset + n

/-- What the cause of a fault in a token says of the text from its place on. -/
def Cause.IsAt (after : List Char) : Cause → Prop
  | .unexpectedCharacter c => after.head? = some c
  | .unterminatedString _ => ∀ c ∈ after.head?, Ignored.endsLine c = true
  | .invalidCharacterInString c => after.head? = some c
  | .invalidEscape written => written.toList <+: after
  | .leadingZero next => after.head? = some next ∧ next.isDigit = true
  | .missingDigit found => after.head? = found
  | .expected .. | .unexpected _ | .nestingTooDeep _ => False

/-- The fault lies behind some characters of a text that starts at byte `offset`, and none of
these is a CR. -/
def SyntaxError.StandsIn (e : SyntaxError) (offset : Nat) (cs : List Char) : Prop :=
  ∃ before after, cs = before ++ after ∧ '\r' ∉ before ∧
    e.position = offset + Text.byteLength before ∧ e.cause.IsAt after

namespace SyntaxError.StandsIn

variable {e : SyntaxError} {offset : Nat} {cs : List Char}

private theorem at_start (h : e.position = offset) (cause : e.cause.IsAt cs) :
    e.StandsIn offset cs :=
  ⟨[], cs, rfl, List.not_mem_nil, h, cause⟩

theorem behind {inner : Nat} (h : e.StandsIn inner cs) {before : List Char}
    (hbefore : '\r' ∉ before) (hinner : inner = offset + Text.byteLength before) :
    e.StandsIn offset (before ++ cs) := by
  obtain ⟨front, after, rfl, hfront, he, cause⟩ := h
  refine ⟨before ++ front, after, (List.append_assoc ..).symm, by simp [hbefore, hfront], ?_, cause⟩
  rw [he, hinner, Text.byteLength_append, Nat.add_assoc]

theorem liesIn (h : e.StandsIn offset cs) : e.LiesIn offset cs := by
  obtain ⟨before, after, rfl, -, he, -⟩ := h
  exact ⟨_, Text.isBoundary_append before after, he⟩

end SyntaxError.StandsIn

/-- What is made of an answer is a fault only if there is no answer. -/
theorem eq_error_of_map {α β : Type} {f : α → β} {r : Except SyntaxError α} {e : SyntaxError}
    (h : r.map f = .error e) : r = .error e := by
  cases r with
  | error e' => exact congrArg Except.error (Except.error.inj h)
  | ok a => exact nomatch h

/-- An answer that is given behind another one is no fault. -/
theorem eq_error_of_bind {α β : Type} {f : α → β} {r : Except SyntaxError α} {e : SyntaxError}
    (h : (r >>= fun a => pure (f a)) = .error e) : r = .error e := by
  cases r with
  | error e' => exact congrArg Except.error (Except.error.inj h)
  | ok a => exact nomatch h

namespace StringLiteral

theorem utf8Size_of_simpleEscape? {e c : Char} (h : simpleEscape? e = some c) : e.utf8Size = 1 := by
  unfold simpleEscape? at h
  split at h
  case h_9 => exact nomatch h
  all_goals rfl

private theorem utf8Size_of_hexDigit? {c : Char} {n : Nat} (h : hexDigit? c = some n) :
    c.utf8Size = 1 := by
  have hascii : c.toNat ≤ 127 := by
    unfold hexDigit? at h
    split at h
    · rename_i hc
      exact Nat.le_trans (show c.toNat ≤ 57 from hc.2) (by decide)
    · split at h
      · rename_i hc
        exact Nat.le_trans (show c.toNat ≤ 102 from hc.2) (by decide)
      · split at h
        · rename_i hc
          exact Nat.le_trans (show c.toNat ≤ 70 from hc.2) (by decide)
        · exact nomatch h
  rw [Char.utf8Size_eq_one_iff, UInt32.le_iff_toNat_le]
  exact hascii

/-- A character is given by its number with hexadecimal digits. -/
theorem exists_hexDigit?_of_unicodeEscape? {a b c d ch : Char}
    (h : unicodeEscape? a b c d = some ch) : ∀ x ∈ [a, b, c, d], ∃ n, hexDigit? x = some n := by
  unfold unicodeEscape? at h
  obtain ⟨i, ha, h⟩ := Option.bind_eq_some_iff.1 h
  obtain ⟨j, hb, h⟩ := Option.bind_eq_some_iff.1 h
  obtain ⟨k, hc, h⟩ := Option.bind_eq_some_iff.1 h
  obtain ⟨l, hd, -⟩ := Option.bind_eq_some_iff.1 h
  exact List.forall_mem_cons.2 ⟨⟨i, ha⟩,
    List.forall_mem_cons.2 ⟨⟨j, hb⟩,
      List.forall_mem_cons.2 ⟨⟨k, hc⟩, List.forall_mem_singleton.2 ⟨l, hd⟩⟩⟩⟩

/-- What stands for a character by its number is written with single bytes. -/
theorem utf8Size_of_unicodeEscape? {a b c d ch : Char} (h : unicodeEscape? a b c d = some ch) :
    a.utf8Size = 1 ∧ b.utf8Size = 1 ∧ c.utf8Size = 1 ∧ d.utf8Size = 1 := by
  have single : ∀ x ∈ [a, b, c, d], x.utf8Size = 1 := fun x hx =>
    (exists_hexDigit?_of_unicodeEscape? h x hx).elim fun _ => utf8Size_of_hexDigit?
  simpa using single

theorem byteLength_of_unicodeEscape? {a b c d ch : Char} (h : unicodeEscape? a b c d = some ch) :
    Text.byteLength ['\\', 'u', a, b, c, d] = 6 := by
  obtain ⟨ha, hb, hc, hd⟩ := utf8Size_of_unicodeEscape? h
  simp only [Text.byteLength_cons, ha, hb, hc, hd]
  rfl

private theorem ne_return_of_hexDigit? {c : Char} {n : Nat} (h : hexDigit? c = some n) :
    c ≠ '\r' := by
  rintro rfl
  cases h

private theorem not_mem_of_unicodeEscape? {a b c d ch : Char}
    (h : unicodeEscape? a b c d = some ch) : '\r' ∉ ['\\', 'u', a, b, c, d] := by
  have digits : '\r' ∉ [a, b, c, d] := fun hr =>
    (exists_hexDigit?_of_unicodeEscape? h _ hr).elim fun _ hn => ne_return_of_hexDigit? hn rfl
  exact List.not_mem_append (show '\r' ∉ ['\\', 'u'] by decide) digits

private theorem not_mem_of_simpleEscape? {e c : Char} (h : simpleEscape? e = some c) :
    '\r' ∉ ['\\', e] := by
  have other : e ≠ '\r' := by
    rintro rfl
    cases h
  simp [other.symm]

/-- A fault in a string lies behind its opening quote. -/
theorem standsIn_of_scan {n : Nat} {cs : List Char} {e : SyntaxError} (h : scan n cs = .error e) :
    e.StandsIn n cs := by
  fun_induction scan n cs with
  | case2 => cases h
  | case3 n a b c d rest ch hu ih =>
    have inner := ih (eq_error_of_map h)
    exact inner.behind (not_mem_of_unicodeEscape? hu) (by rw [byteLength_of_unicodeEscape? hu])
  | case5 n e rest _ ch he ih =>
    have inner := ih (eq_error_of_map h)
    refine inner.behind (not_mem_of_simpleEscape? he) ?_
    rw [Text.byteLength_cons, Text.byteLength_cons, utf8Size_of_simpleEscape? he]
    rfl
  | case10 n c rest _ _ _ _ inLine _ ih =>
    have inner := ih (eq_error_of_map h)
    have other : '\r' ∉ [c] := fun hc => inLine (.inr (List.mem_singleton.1 hc).symm)
    exact inner.behind other (by simp)
  -- All other cases are faults at the place that is looked at.
  | case1 =>
    cases h
    exact .at_start rfl (by simp [SyntaxError.ofCause, Cause.IsAt])
  | case4 n a b c d rest =>
    cases h
    exact .at_start rfl (by simp [SyntaxError.ofCause, Cause.IsAt])
  | case6 n e rest =>
    cases h
    refine .at_start rfl ?_
    by_cases he : e = 'u'
    · simpa [SyntaxError.ofCause, Cause.IsAt, he] using List.take_prefix 4 rest
    · simp [SyntaxError.ofCause, Cause.IsAt, he]
  | case7 =>
    cases h
    exact .at_start rfl (List.prefix_refl _)
  | case8 n c rest _ _ _ _ hbreak =>
    cases h
    exact .at_start rfl (by simpa [SyntaxError.ofCause, Cause.IsAt, Ignored.endsLine] using hbreak)
  | case9 =>
    cases h
    exact .at_start rfl rfl

end StringLiteral

namespace Number

private theorem utf8Size_of_isNumberChar {c : Char} (h : isNumberChar c) : c.utf8Size = 1 := by
  rcases Bool.or_eq_true_iff.1 h with hdigit | hother
  · exact Text.utf8Size_of_isDigit hdigit
  · have others : ∀ x ∈ ['+', '-', '.', 'e', 'E'], x.utf8Size = 1 := by
      simp only [List.forall_mem_cons]
      exact ⟨rfl, rfl, rfl, rfl, rfl, List.forall_mem_nil _⟩
    exact others c (List.elem_iff.1 hother)

theorem byteLength_of_isNumberChar {cs : List Char} (h : ∀ c ∈ cs, isNumberChar c) :
    Text.byteLength cs = cs.length :=
  Text.byteLength_of_single fun c hc => utf8Size_of_isNumberChar (h c hc)

/-- The fault of a broken number, behind what was read of the number. -/
def BreaksOff (e : SyntaxError) (offset : Nat) (cs : List Char) : Prop :=
  e.cause.category = .invalidNumber ∧ ∃ before after, cs = before ++ after ∧
    (∀ c ∈ before, isNumberChar c) ∧ e.position = offset + before.length ∧ e.cause.IsAt after

variable {e : SyntaxError} {n : Nat} {cs : List Char}

namespace BreaksOff

private theorem at_start (category : e.cause.category = .invalidNumber) (h : e.position = n)
    (cause : e.cause.IsAt cs) : BreaksOff e n cs :=
  ⟨category, [], cs, rfl, List.forall_mem_nil _, h, cause⟩

theorem behind {inner : Nat} (h : BreaksOff e inner cs) {before : List Char}
    (hbefore : ∀ c ∈ before, isNumberChar c) (hinner : inner = n + before.length) :
    BreaksOff e n (before ++ cs) := by
  obtain ⟨category, front, after, rfl, hfront, he, cause⟩ := h
  refine ⟨category, before ++ front, after, (List.append_assoc ..).symm,
    List.forall_mem_append.2 ⟨hbefore, hfront⟩, ?_, cause⟩
  rw [he, hinner, List.length_append, Nat.add_assoc]

private theorem standsIn (h : BreaksOff e n cs) : e.StandsIn n cs := by
  obtain ⟨-, before, after, rfl, hbefore, he, cause⟩ := h
  refine ⟨before, after, rfl, fun hreturn => absurd (hbefore _ hreturn) (by decide), ?_, cause⟩
  rw [byteLength_of_isNumberChar hbefore]
  exact he

end BreaksOff

private theorem breaksOff_of_someDigits (h : someDigits n cs = .error e) : BreaksOff e n cs := by
  unfold someDigits at h
  split at h
  · cases h
    exact .at_start rfl rfl rfl
  · exact nomatch h

private theorem breaksOff_of_whole (h : whole n cs = .error e) : BreaksOff e n cs := by
  unfold whole at h
  split at h
  · split at h
    · rename_i d cs hd
      cases h
      have inner : BreaksOff (.ofCause (n + 1) (.leadingZero d)) (n + 1) (d :: cs) :=
        .at_start rfl rfl ⟨rfl, hd⟩
      exact inner.behind (List.forall_mem_singleton.2 (by decide : isNumberChar '0')) rfl
    · exact nomatch h
  · exact nomatch h
  · exact breaksOff_of_someDigits h

private theorem breaksOff_of_fraction (h : fraction n cs = .error e) : BreaksOff e n cs := by
  unfold fraction at h
  split at h
  · have inner := breaksOff_of_someDigits (eq_error_of_map h)
    exact inner.behind (List.forall_mem_singleton.2 (by decide : isNumberChar '.')) rfl
  · exact nomatch h

theorem isNumberChar_of_sign {signs : List Char} (hsigns : ∀ c ∈ signs, isNumberChar c)
    (cs : List Char) : ∀ c ∈ (sign signs cs).1, isNumberChar c := by
  cases cs with
  | nil => exact List.forall_mem_nil _
  | cons c cs =>
    by_cases hc : c ∈ signs
    · simpa [sign, hc] using hsigns c hc
    · simp [sign, hc]

theorem isNumberChar_minus : ∀ c ∈ ['-'], isNumberChar c := List.forall_mem_singleton.2 rfl

theorem isNumberChar_plus_minus : ∀ c ∈ ['+', '-'], isNumberChar c :=
  List.forall_mem_cons.2 ⟨rfl, isNumberChar_minus⟩

private theorem breaksOff_of_exponent (h : exponent n cs = .error e) : BreaksOff e n cs := by
  unfold exponent at h
  split at h
  · exact nomatch h
  · rename_i c cs
    split at h
    · rename_i hletter
      have letter : isNumberChar c := by
        rcases hletter with rfl | rfl
        · rfl
        · rfl
      have signs := isNumberChar_of_sign isNumberChar_plus_minus cs
      have append := append_of_sign ['+', '-'] cs
      cases hs : sign ['+', '-'] cs with
      | mk s digits =>
        rw [hs] at h signs append
        have inner := breaksOff_of_someDigits (eq_error_of_map h)
        have outer : BreaksOff e n (c :: s ++ digits) := by
          refine inner.behind (List.forall_mem_cons.2 ⟨letter, signs⟩) ?_
          rw [List.length_cons]
          omega
        rwa [List.cons_append, append] at outer
    · exact nomatch h

/-- A fault in a number is one of the number, and lies at its start or behind it. -/
theorem breaksOff_of_scan (h : scan cs = .error e) : BreaksOff e 0 cs := by
  have signs := isNumberChar_of_sign isNumberChar_minus cs
  have append := append_of_sign ['-'] cs
  simp only [scan, bind, Except.bind] at h
  split at h
  · rename_i hw
    cases h
    have inner : BreaksOff e 0 _ := (breaksOff_of_whole hw).behind signs (Nat.zero_add _).symm
    rwa [append] at inner
  · rename_i w hw
    obtain ⟨w, afterWhole⟩ := w
    have chars := List.forall_mem_append.2 ⟨signs, isNumberChar_of_isWhole (isWhole_of_whole hw)⟩
    have appendWhole := (append_of_whole hw).1
    split at h
    · rename_i hf
      cases h
      have inner : BreaksOff e 0 _ :=
        (breaksOff_of_fraction hf).behind chars (by rw [List.length_append, Nat.zero_add])
      rwa [List.append_assoc, appendWhole, append] at inner
    · rename_i f hf
      obtain ⟨f, afterFraction⟩ := f
      have chars :=
        List.forall_mem_append.2 ⟨chars, isNumberChar_of_isFraction (isFraction_of_fraction hf)⟩
      have appendFraction := append_of_fraction hf
      split at h
      · rename_i he
        cases h
        have inner : BreaksOff e 0 _ := (breaksOff_of_exponent he).behind chars (by
          rw [List.length_append, List.length_append, Nat.zero_add])
        rwa [List.append_assoc, List.append_assoc, appendFraction, appendWhole, append] at inner
      · cases h

end Number

/-- What keeps a token from being read: a fault in a string, one in a number, or a character that
starts no token. -/
theorem scanToken_error_cases {cs : List Char} {e : SyntaxError} (h : scanToken cs = .error e) :
    (∃ contents, cs = '"' :: contents ∧ StringLiteral.scan 1 contents = .error e) ∨
      Number.scan cs = .error e ∨
      ∃ c tail, cs = c :: tail ∧ e = .ofCause 0 (.unexpectedCharacter c) := by
  unfold scanToken at h
  split at h
  · cases h
  · rename_i c cs
    split at h
    · cases h
    · split at h
      · rename_i hc
        exact .inl ⟨cs, by rw [hc], eq_error_of_bind h⟩
      · split at h
        · exact .inr (.inl (eq_error_of_bind h))
        · split at h
          · cases h
          · split at h
            · cases h
            · cases h
              exact .inr (.inr ⟨c, cs, rfl, rfl⟩)

/-- A fault of the token at the head of a text lies in the text. -/
theorem standsIn_of_scanToken {cs : List Char} {e : SyntaxError} (h : scanToken cs = .error e) :
    e.StandsIn 0 cs := by
  rcases scanToken_error_cases h with ⟨contents, rfl, hr⟩ | hr | ⟨c, tail, rfl, rfl⟩
  · exact (StringLiteral.standsIn_of_scan hr).behind (show '\r' ∉ ['"'] by decide) rfl
  · exact (Number.breaksOff_of_scan hr).standsIn
  · exact .at_start rfl rfl

theorem liesIn_of_scanToken {cs : List Char} {e : SyntaxError} (h : scanToken cs = .error e) :
    e.LiesIn 0 cs :=
  (standsIn_of_scanToken h).liesIn

end SchemaLang
