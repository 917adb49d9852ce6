import SchemaLang.Proofs.Lexing.Cases
import SchemaLang.Proofs.Lexing.Gaps
import SchemaLang.Proofs.Lexing.NumberAgreement
import SchemaLang.Proofs.Lexing.StringAgreement

/-!
# The two readers agree

At a character boundary the reader of bytes has an answer, and it is that of the reader of
characters. So no piece is taken out of the text at a wrong offset on the way to a token or a fault.
-/

namespace SchemaLang

namespace Text

private theorem isPrefix_bytes_iff {rest : List Char} :
    [0xef, 0xbb, 0xbf] <+: bytes rest ↔ rest.head? = some '\ufeff' := by
  have mark : String.utf8EncodeChar '\ufeff' = [0xef, 0xbb, 0xbf] := rfl
  rw [← mark]
  cases rest with
  | nil => exact iff_of_false (by simp [mark, bytes]) nofun
  | cons c rest =>
    constructor
    · rintro ⟨more, same⟩
      -- The first character that the bytes stand for is both of them.
      have decoded := congrArg (fun bs : List UInt8 => bs.toByteArray.utf8DecodeChar? 0) same
      rw [bytes_cons] at decoded
      simpa only [List.toByteArray_append, ByteArray.utf8DecodeChar?_utf8EncodeChar_append,
        Option.some.injEq, eq_comm, List.head?_cons] using decoded
    · intro first
      obtain rfl : c = '\ufeff' := Option.some.inj first
      exact ⟨bytes rest, rfl⟩

end Text

namespace Bytewise

open Text

variable {cs rest : List Char} {n : Nat} {c : Char}

private theorem unexpectedCharacter_eq {α : Type} (h : RestAt cs n (c :: rest)) :
    unexpectedCharacter (α := α) cs n = throw (.ofCause n (.unexpectedCharacter c)) := by
  rw [unexpectedCharacter, after_eq h]
  rfl

/-- The only separator of more than one byte is the byte order mark. -/
theorem eq_mark_of_isSeparator (hsep : Ignored.isSeparator c = true) (hc : ¬c.toNat < 128) :
    c = '\ufeff' := by
  simp only [Ignored.isSeparator, Bool.or_eq_true, beq_iff_eq] at hsep
  rcases hsep with ((((rfl | rfl) | rfl) | rfl) | rfl) | rfl
  · exact absurd (by decide) hc
  · exact absurd (by decide) hc
  · exact absurd (by decide) hc
  · exact absurd (by decide) hc
  · exact absurd (by decide) hc
  · rfl

/-- One step of the way over ignored text. -/
theorem skip_cons (h : RestAt cs n (c :: rest)) :
    skip cs n =
      if Ignored.isSeparator c then skip cs (n + c.utf8Size)
      else if c = '#' then
        if rest.head? = some '#' then pure n
        else skip cs (n + byteLength ((c :: rest).takeWhile fun c => !Ignored.endsLine c))
      else if c < ' ' then throw (.ofCause n (.unexpectedCharacter c))
      else pure n := by
  obtain ⟨b, hb, hleads⟩ := byte?_of_cons h
  rw [skip]
  split
  · rename_i hnone
    rw [hb] at hnone
    cases hnone
  · rename_i b' hb'
    obtain rfl := Option.some.inj (hb.symm.trans hb')
    rw [hleads.isAscii_eq, hleads.isAscii (isAsciiClass_eq (by decide)), h.drop_bytes]
    by_cases hsep : Ignored.isSeparator c = true
    · rw [if_pos hsep]
      by_cases hc : c.toNat < 128
      · rw [if_pos (by simp [hc, hsep]), utf8Size_eq_one_iff_toNat.2 hc]
      · obtain rfl := eq_mark_of_isSeparator hsep hc
        rw [if_neg (by simp), if_pos (isPrefix_bytes_iff.2 rfl)]
        rfl
    · have hmark : ¬[0xef, 0xbb, 0xbf] <+: bytes (c :: rest) := by
        intro hprefix
        obtain rfl : c = '\ufeff' := Option.some.inj (isPrefix_bytes_iff.1 hprefix)
        exact hsep rfl
      rw [if_neg hsep, if_neg (by simp [hsep]), if_neg hmark]
      by_cases hsharp : c = '#'
      · subst hsharp
        have hnext := any_byte? (h.next (by decide)) (isAsciiClass_eq (x := '#') (by decide))
        have hprogress : n <
            n + byteLength (('#' :: rest).takeWhile fun c => !Ignored.endsLine c) := by
          have hcons : ('#' :: rest).takeWhile (fun c => !Ignored.endsLine c) =
              '#' :: rest.takeWhile fun c => !Ignored.endsLine c := rfl
          have hpos := Char.utf8Size_pos '#'
          rw [hcons, byteLength_cons]
          omega
        rw [if_pos rfl, if_pos (beq_self_eq_true '#'), hnext, lineEnd_eq h, pure_bind,
          dif_pos hprogress]
        cases rest with
        | nil => rfl
        | cons d rest => simp
      · rw [if_neg (by simpa using hsharp), if_neg hsharp]
        by_cases hcontrol : c < ' '
        · rw [if_pos hcontrol, if_pos (hleads.lt_space_iff.2 hcontrol), unexpectedCharacter_eq h]
        · rw [if_neg hcontrol, if_neg (mt hleads.lt_space_iff.1 hcontrol)]

/-- The control character that stands behind ignored text. -/
def control? (rest : List Char) : Option Char := (Ignored.split false rest).2.head?.filter (· < ' ')

/-- The way over ignored text ends behind what is split off, unless a control character
stands there. -/
theorem skip_eq {cs rest : List Char} {n : Nat} (h : RestAt cs n rest) :
    skip cs n =
      match control? rest with
      | some c =>
      throw (.ofCause (n + byteLength (Ignored.split false rest).1) (.unexpectedCharacter c))
      | none => pure (n + byteLength (Ignored.split false rest).1) := by
  cases rest with
  | nil =>
    rw [skip]
    split
    · rfl
    · rename_i b hb
      rw [byte?_of_nil h] at hb
      cases hb
  | cons c rest =>
    rw [skip_cons h]
    by_cases hsep : Ignored.isSeparator c = true
    · have hsplit : Ignored.split false (c :: rest) =
          (c :: (Ignored.split false rest).1, (Ignored.split false rest).2) := by
        rw [Ignored.split, if_pos hsep]
      have hnext : RestAt cs (n + byteLength [c]) rest := RestAt.advance h
      rw [if_pos hsep, control?, hsplit]
      simp only [byteLength_cons, ← Nat.add_assoc]
      exact skip_eq hnext
    · rw [if_neg hsep]
      by_cases hsharp : c = '#'
      · rw [if_pos hsharp]
        by_cases hdouble : rest.head? = some '#'
        · rw [if_pos hdouble, control?, Ignored.split_of_stop hsep fun hc => hc.2 hdouble, hsharp]
          rfl
        · -- The comment is left behind at once.
          rw [if_neg hdouble]
          have hcomment : (c :: rest).takeWhile (fun c => !Ignored.endsLine c) =
              c :: rest.takeWhile fun c => !Ignored.endsLine c := by rw [hsharp]; rfl
          have hrest : RestAt cs (n + byteLength (c :: rest.takeWhile fun c => !Ignored.endsLine c))
              (rest.dropWhile fun c => !Ignored.endsLine c) := by
            refine RestAt.advance ?_
            rwa [List.cons_append, List.takeWhile_append_dropWhile]
          have hlength : (rest.dropWhile fun c => !Ignored.endsLine c).length <
              (c :: rest).length :=
            Nat.lt_succ_of_le (List.length_dropWhile_le _ _)
          have hsplit : Ignored.split false (c :: rest) =
              (c :: (Ignored.split true rest).1, (Ignored.split true rest).2) := by
            rw [Ignored.split, if_neg hsep, if_pos ⟨hsharp, hdouble⟩]
          rw [hcomment, control?, hsplit, Ignored.split_true]
          simp only [← List.cons_append, byteLength_append, ← Nat.add_assoc]
          exact skip_eq hrest
      · rw [if_neg hsharp, control?, Ignored.split_of_stop hsep fun hc => hsharp hc.1]
        by_cases hcontrol : c < ' '
        · have hfilter : (some c).filter (fun c => decide (c < ' ')) = some c := by simp [hcontrol]
          rw [if_pos hcontrol, List.head?_cons, hfilter]
          rfl
        · have hfilter : (some c).filter (fun c => decide (c < ' ')) = none := by
            simpa using hcontrol
          rw [if_neg hcontrol, List.head?_cons, hfilter]
          rfl
termination_by rest.length

private theorem lexDescription_eq {start : Nat} {tail : List Char}
    (h : RestAt cs start ('#' :: '#' :: tail)) : lexDescription cs start =
      let t := Scanned.description ('#' :: '#' :: tail)
      pure (t.token, ⟨start, start + byteLength t.text⟩) := by
  let line := tail.takeWhile fun c => !Ignored.endsLine c
  have htext : ('#' :: '#' :: tail).takeWhile (fun c => !Ignored.endsLine c) = '#' :: '#' :: line :=
    rfl
  have hstop : start + byteLength ('#' :: '#' :: line) = start + 2 + byteLength line := by
    rw [byteLength_cons, byteLength_cons, ← Nat.add_assoc, ← Nat.add_assoc]
    rfl
  have hinner : RestAt cs (start + 2) tail := (h.next (by decide)).next (by decide)
  have hline : RestAt cs (start + 2) (line ++ tail.dropWhile fun c => !Ignored.endsLine c) := by
    rwa [List.takeWhile_append_dropWhile]
  rw [lexDescription, lineEnd_eq h, pure_bind, htext, hstop, slice_eq hline, pure_bind, ← hstop]
  rfl

private theorem lexName_eq {start : Nat} {tail : List Char} (h : RestAt cs start (c :: tail))
    (hc : isNameStart c = true) : lexName cs start =
      let t := Scanned.name (c :: tail)
      pure (t.token, ⟨start, start + byteLength t.text⟩) := by
  have hascii := isAsciiClass_isNameStart c hc
  have htext : (c :: tail).takeWhile isNameChar = c :: tail.takeWhile isNameChar :=
    List.takeWhile_cons_of_pos (isNameChar_of_isNameStart hc)
  have hstop : start + 1 + byteLength (tail.takeWhile isNameChar) =
      start + byteLength (c :: tail.takeWhile isNameChar) := by
    rw [byteLength_cons, utf8Size_eq_one_iff_toNat.2 hascii, Nat.add_assoc]
  have hname : RestAt cs start ((c :: tail.takeWhile isNameChar) ++ tail.dropWhile isNameChar) := by
    rwa [List.cons_append, List.takeWhile_append_dropWhile]
  rw [lexName, runEnd_eq (h.next hascii) isAsciiClass_isNameChar, hstop, slice_eq hname, pure_bind]
  simp only [Scanned.name, htext]

private theorem punctuator?_eq {b : UInt8} {tail : List Char} (hleads : Leads b c)
    (h : RestAt cs n (c :: tail)) : punctuator? b (byte? cs (n + 1)) =
      (Punctuator.ofChar? c).filter fun p => p ≠ .dash || !tail.head?.any Char.isDigit := by
  rw [punctuator?, hleads.ascii?]
  by_cases hc : c.toNat < 128
  · rw [if_pos hc, any_byte? (h.next hc) isAsciiClass_isDigit]
    rfl
  · rw [if_neg hc]
    cases hp : Punctuator.ofChar? c with
    | none => rfl
    | some p =>
      refine absurd ?_ hc
      rw [← Punctuator.char_of_ofChar? hp]
      cases p <;> decide

private theorem starts_eq {tail : List Char} (hp : (Punctuator.ofChar? c).filter
    (fun p => p ≠ .dash || !tail.head?.any Char.isDigit) = none) :
    Number.starts (c :: tail) = (c == '-' || c.isDigit) := by
  by_cases hminus : c = '-'
  · subst hminus
    rw [starts_minus]
    by_cases hdigit : tail.head?.any Char.isDigit = true
    · rw [hdigit]
      rfl
    · rw [Bool.eq_false_iff.2 hdigit] at hp
      exact nomatch hp
  · rw [starts_eq_isDigit hminus]
    simp [hminus]

/-- Only a minus sign is kept from being a punctuator, and then a number starts. -/
theorem ofChar?_eq_none {tail : List Char} (hp : (Punctuator.ofChar? c).filter
    (fun p => p ≠ .dash || !tail.head?.any Char.isDigit) = none)
    (hnumber : ¬Number.starts (c :: tail) = true) : Punctuator.ofChar? c = none := by
  cases hchar : Punctuator.ofChar? c with
  | none => rfl
  | some p =>
    have hdash : p ≠ .dash := by
      rintro rfl
      obtain rfl : '-' = c := Punctuator.char_of_ofChar? hchar
      exact hnumber (starts_eq hp)
    rw [hchar] at hp
    simp [Option.filter, hdash] at hp

/-- Behind an opening quote both readers find the same string or the same fault. -/
theorem lexString_quote {start : Nat} {tail : List Char} (h : RestAt cs start ('"' :: tail)) :
    lexString cs start (start + 1) (start + 1) none =
      placed start (fun t => (t.token, ⟨start, start + byteLength t.text⟩))
        (Scanned.string tail) := by
  have hwithin : Within cs start 1 (start + 1) [] tail := ⟨h.next (by decide), rfl⟩
  have hstring : Scanned.string tail = (StringLiteral.scan 1 tail).map fun r =>
      ⟨.string (String.ofList r.value), '"' :: r.text, r.rest⟩ := by
    rw [Scanned.string]
    cases StringLiteral.scan 1 tail <;> rfl
  rw [hstring, placed_map]
  refine (lexString_eq hwithin).trans ?_
  simp only [Option.getD_none, List.nil_append, byteLength_cons, Nat.add_assoc]
  rfl

/-- Where no ignored text and no control character stands, both readers find the same token or
the same fault. -/
theorem scanToken_eq {start : Nat} {tail : List Char} (h : RestAt cs start (c :: tail))
    (hcontrol : ¬c < ' ') (hsharp : c = '#' → tail.head? = some '#') :
    scanToken cs start =
      placed start (fun t => (t.token, ⟨start, start + byteLength t.text⟩))
        (SchemaLang.scanToken (c :: tail)) := by
  obtain ⟨b, hb, hleads⟩ := byte?_of_cons h
  have hdash : IsAsciiClass fun c => c == '-' || c.isDigit :=
    (isAsciiClass_eq (by decide)).or isAsciiClass_isDigit
  rw [scanToken, hb]
  simp only [punctuator?_eq hleads h, hleads.isAscii hdash, hleads.isAscii isAsciiClass_isNameStart,
    hleads.isAscii (isAsciiClass_eq (x := '#') (by decide)),
    hleads.isAscii (isAsciiClass_eq (x := '"') (by decide)), beq_iff_eq]
  cases hp : (Punctuator.ofChar? c).filter fun p => p ≠ .dash || !tail.head?.any Char.isDigit with
  | some p =>
    obtain ⟨hchar, hplain⟩ := Option.filter_eq_some_iff.1 hp
    obtain rfl := Punctuator.char_of_ofChar? hchar
    have hnext : p = .dash → ∀ c ∈ tail.head?, c.isDigit = false := by
      rintro rfl c hc
      simpa [Option.mem_def.1 hc] using hplain
    have hsize : p.char.utf8Size = 1 := by cases p <;> rfl
    rw [scanToken_punctuator p hnext]
    show pure (Token.punctuator p, Span.mk start (start + 1)) =
      pure (Token.punctuator p, Span.mk start (start + (p.char.utf8Size + 0)))
    rw [hsize]
  | none =>
    have hstarts := starts_eq hp
    rw [SchemaLang.scanToken]
    by_cases hdescription : c = '#'
    · subst hdescription
      obtain ⟨rest, rfl⟩ : ∃ rest, tail = '#' :: rest := by
        cases tail with
        | nil => cases hsharp rfl
        | cons d rest => exact ⟨rest, by rw [Option.some.inj (hsharp rfl)]⟩
      exact lexDescription_eq h
    · simp only [if_neg hdescription]
      by_cases hquote : c = '"'
      · subst hquote
        rw [if_pos rfl, if_pos rfl]
        exact lexString_quote h
      · simp only [if_neg hquote]
        by_cases hnumber : Number.starts (c :: tail) = true
        · rw [if_pos hnumber, if_pos (hstarts ▸ hnumber)]
          exact lexNumber_eq h hnumber
        · rw [if_neg hnumber, if_neg (hstarts ▸ hnumber)]
          by_cases hname : isNameStart c = true
          · rw [if_pos hname, if_pos hname]
            exact lexName_eq h hname
          · rw [if_neg hname, if_neg hname, unexpectedCharacter_eq h, ofChar?_eq_none hp hnumber]
            rfl

/-- A control character starts no token. -/
theorem scanToken_control (tail : List Char) (h : c < ' ') :
    SchemaLang.scanToken (c :: tail) = .error (.ofCause 0 (.unexpectedCharacter c)) := by
  have hall : ∀ n < 32, Char.ofNat n ≠ '#' ∧ Char.ofNat n ≠ '"' ∧ Char.ofNat n ≠ '-' ∧
      (Char.ofNat n).isDigit = false ∧ isNameStart (Char.ofNat n) = false ∧
      Punctuator.ofChar? (Char.ofNat n) = none := by decide
  obtain ⟨hsharp, hquote, hminus, hdigit, hname, hchar⟩ := hall c.toNat (UInt32.lt_iff_toNat_lt.1 h)
  rw [Char.ofNat_toNat] at hsharp hquote hminus hdigit hname hchar
  rw [SchemaLang.scanToken, if_neg hsharp, if_neg hquote, starts_eq_isDigit hminus, hdigit,
    if_neg Bool.false_ne_true, hname, if_neg Bool.false_ne_true, hchar]

private theorem scanToken_nil {start : Nat} (h : RestAt cs start []) :
    scanToken cs start = pure (.endOfInput, ⟨start, start⟩) := by
  have hlength : byteLength cs = start := h.length
  rw [scanToken, byte?_of_nil h, hlength]

theorem shift_zero (e : SyntaxError) : e.shift 0 = e := by
  rw [SyntaxError.shift, Nat.zero_add]

/-- At a character boundary both readers find the same token or the same fault. -/
theorem readToken_eq (h : RestAt cs n rest) :
    readToken cs n = placed 0 (fun r => (r.token, r.span)) (SchemaLang.readToken n rest) := by
  have hstart : RestAt cs (n + byteLength (Ignored.split false rest).1)
      (Ignored.split false rest).2 := by
    refine RestAt.advance ?_
    rwa [Ignored.append_of_split]
  have hsharp : ∀ tail, (Ignored.split false rest).2 = '#' :: tail → tail.head? = some '#' :=
    fun _ => Ignored.head?_of_split
  rw [readToken, skip_eq h, control?, SchemaLang.readToken]
  generalize Ignored.split false rest = parts at *
  obtain ⟨gap, tail⟩ := parts
  cases tail with
  | nil =>
    refine (scanToken_nil hstart).trans ?_
    rfl
  | cons c tail =>
    by_cases hcontrol : c < ' '
    · have hfilter : (some c).filter (fun c => decide (c < ' ')) = some c := by simp [hcontrol]
      simp only [List.head?_cons, hfilter, scanToken_control tail hcontrol, placed, shift_zero]
      rfl
    · have hfilter : (some c).filter (fun c => decide (c < ' ')) = none := by simpa using hcontrol
      have hagree := scanToken_eq hstart hcontrol fun hc => hsharp tail (by rw [hc])
      simp only [List.head?_cons, hfilter, pure_bind]
      rw [hagree]
      cases SchemaLang.scanToken (c :: tail) with
      | error e => simp only [placed, shift_zero]
      | ok t => rfl

end Bytewise

end SchemaLang
