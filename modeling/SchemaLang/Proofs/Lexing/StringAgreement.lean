import SchemaLang.Proofs.Lexing.NumberAgreement
import SchemaLang.Proofs.Scanning

/-!
# Both readers of strings agree

The reader of bytes takes over the text between two escapes at once, and remembers where that text
began. The reader of characters takes over one character after the other. Their values are the same
wherever the escapes stand.
-/

namespace SchemaLang

namespace Text

/-- The first bytes of a text are characters if the first characters are single bytes. -/
theorem mapM_ascii?_take (k : Nat) (cs : List Char) :
    ((bytes cs).take k).mapM ascii? =
      (cs.take k).mapM fun c => if c.toNat < 128 then some c else none := by
  induction k generalizing cs with
  | zero => rfl
  | succ k ih =>
    cases cs with
    | nil => rfl
    | cons c cs =>
      obtain ⟨b, bs, hbytes, hleads, hsingle, -⟩ := exists_leads c
      rw [bytes_cons, hbytes, List.cons_append, List.take_succ_cons,
        List.take_succ_cons, List.mapM_cons, List.mapM_cons, hleads.ascii?]
      by_cases hc : c.toNat < 128
      · rw [hsingle hc, List.nil_append, ih]
      · rw [if_neg hc]
        rfl

end Text

namespace StringLiteral

private theorem ascii_of_simpleEscape? {e c : Char} (h : simpleEscape? e = some c) :
    e.toNat < 128 :=
  Text.utf8Size_eq_one_iff_toNat.1 (utf8Size_of_simpleEscape? h)

private theorem ascii_of_unicodeEscape? {a b c d ch : Char} (h : unicodeEscape? a b c d = some ch) :
    a.toNat < 128 ∧ b.toNat < 128 ∧ c.toNat < 128 ∧ d.toNat < 128 := by
  simp only [← Text.utf8Size_eq_one_iff_toNat]
  exact utf8Size_of_unicodeEscape? h

end StringLiteral

namespace Bytewise

open Text

variable {cs rest : List Char} {n start offset : Nat}

private theorem unicodeEscape?_of_four (a b c d : Char) (tail : List Char) :
    unicodeEscape? ((bytes (a :: b :: c :: d :: tail)).take 4) =
      StringLiteral.unicodeEscape? a b c d := by
  rw [unicodeEscape?, mapM_ascii?_take]
  cases h : StringLiteral.unicodeEscape? a b c d with
  | some ch =>
    obtain ⟨ha, hb, hc, hd⟩ := StringLiteral.ascii_of_unicodeEscape? h
    simp [ha, hb, hc, hd, h]
  | none =>
    simp only [List.take_succ_cons, List.take_zero, List.mapM_cons, List.mapM_nil]
    by_cases ha : a.toNat < 128
    · by_cases hb : b.toNat < 128
      · by_cases hc : c.toNat < 128
        · by_cases hd : d.toNat < 128
          · simp [ha, hb, hc, hd, h]
          · simp [ha, hb, hc, hd]
        · simp [ha, hb, hc]
      · simp [ha, hb]
    · simp [ha]

private theorem unicodeEscape?_of_short (h : rest.length < 4) :
    unicodeEscape? ((bytes rest).take 4) = none := by
  rw [unicodeEscape?, mapM_ascii?_take]
  match rest, h with
  | [], _ => rfl
  | [a], _ =>
    simp only [List.take_succ_cons, List.take_nil, List.mapM_cons, List.mapM_nil]
    split <;> rfl
  | [a, b], _ =>
    simp only [List.take_succ_cons, List.take_nil, List.mapM_cons, List.mapM_nil]
    split <;> split <;> rfl
  | [a, b, c], _ =>
    simp only [List.take_succ_cons, List.take_nil, List.mapM_cons, List.mapM_nil]
    split <;> split <;> split <;> rfl

/-- The letter behind a backslash, if it is one byte. -/
theorem letter_eq (h : RestAt cs n rest) :
    (byte? cs n).bind ascii? = rest.head?.filter fun c => c.toNat < 128 := by
  cases rest with
  | nil => rw [byte?_of_nil h]; rfl
  | cons c rest =>
    obtain ⟨b, hb, hleads⟩ := byte?_of_cons h
    have hfilter : (if c.toNat < 128 then some c else none) = (some c).filter fun c =>
        decide (c.toNat < 128) := by
      simp [Option.filter]
    rw [hb, Option.bind_some, hleads.ascii?, List.head?_cons, hfilter]

private theorem invalidEscape_eq {α : Type} (h : RestAt cs n rest) (shown : Nat) :
    invalidEscape (α := α) cs n shown =
      throw (.ofCause n (.invalidEscape (String.ofList (rest.take shown)))) := by
  rw [invalidEscape, after_eq h]
  rfl

/-- The letter behind a backslash starts an escape of two characters if it is a letter of one. -/
theorem letter_bind (h : RestAt cs n rest) :
    ((byte? cs n).bind ascii?).bind StringLiteral.simpleEscape? =
      rest.head?.bind StringLiteral.simpleEscape? := by
  rw [letter_eq h]
  cases rest with
  | nil => rfl
  | cons c rest =>
    rw [List.head?_cons]
    by_cases hc : c.toNat < 128
    · have hfilter : (some c).filter (fun c => decide (c.toNat < 128)) = some c := by simp [hc]
      rw [hfilter]
    · have hfilter : (some c).filter (fun c => decide (c.toNat < 128)) = none := by simpa using hc
      rw [hfilter, Option.bind_some]
      cases he : StringLiteral.simpleEscape? c with
      | none => rfl
      | some e => exact absurd (StringLiteral.ascii_of_simpleEscape? he) hc

private theorem letter_eq_u (h : RestAt cs n rest) :
    (byte? cs n).bind ascii? = some 'u' ↔ rest.head? = some 'u' := by
  rw [letter_eq h]
  cases rest with
  | nil => simp
  | cons c rest =>
    simp only [List.head?_cons, Option.filter_eq_some_iff, Option.some.injEq]
    constructor
    · exact fun h => h.1
    · rintro rfl
      exact ⟨rfl, by decide⟩

private theorem readEscape_unicode {a b c d : Char} {tail : List Char}
    (h : RestAt cs n ('\\' :: 'u' :: a :: b :: c :: d :: tail)) :
    readEscape cs n =
      match StringLiteral.unicodeEscape? a b c d with
      | some ch => pure (ch, 6)
      | none => throw (.ofCause n (.invalidEscape (String.ofList ['\\', 'u', a, b, c, d]))) := by
  have hletter := h.next (by decide)
  have hdigits : RestAt cs (n + 2) (a :: b :: c :: d :: tail) := hletter.next (by decide)
  rw [readEscape, letter_bind hletter, List.head?_cons, Option.bind_some]
  show (if (byte? cs (n + 1)).bind ascii? = some 'u' then _ else _) = _
  rw [if_pos ((letter_eq_u hletter).2 rfl), hdigits.drop_bytes, unicodeEscape?_of_four,
    invalidEscape_eq h]
  rfl

/-- An escape that is no number: of one letter, or none. -/
theorem readEscape_simple {e : Char} {tail : List Char} (h : RestAt cs n ('\\' :: e :: tail))
    (hshort : e = 'u' → tail.length < 4) :
    readEscape cs n =
      match StringLiteral.simpleEscape? e with
      | some ch => pure (ch, 2)
      | none =>
        throw (.ofCause n
            (.invalidEscape
              (String.ofList ('\\' :: e :: if e = 'u' then tail.take 4 else [])))) := by
  have hletter := h.next (by decide)
  rw [readEscape, letter_bind hletter, List.head?_cons, Option.bind_some]
  cases StringLiteral.simpleEscape? e with
  | some ch => rfl
  | none =>
    show (if (byte? cs (n + 1)).bind ascii? = some 'u' then _ else _) = _
    by_cases he : e = 'u'
    · subst he
      have hdigits : RestAt cs (n + 2) tail := hletter.next (by decide)
      rw [if_pos ((letter_eq_u hletter).2 rfl), hdigits.drop_bytes,
        unicodeEscape?_of_short (hshort rfl), invalidEscape_eq h]
      rfl
    · rw [if_neg (fun hu => he (Option.some.inj ((letter_eq_u hletter).1 hu))), invalidEscape_eq h]
      simp only [he, if_false]
      rfl

private theorem readEscape_end (h : RestAt cs n ['\\']) :
    readEscape cs n = throw (.ofCause n (.invalidEscape "\\")) := by
  have hletter := h.next (by decide)
  rw [readEscape, letter_bind hletter]
  show (if (byte? cs (n + 1)).bind ascii? = some 'u' then _ else _) = _
  rw [if_neg (fun hu => nomatch (letter_eq_u hletter).1 hu), invalidEscape_eq h]
  rfl

/-- One step through a string. -/
theorem lexString_cons {pos chunk : Nat} {cooked : Option (List Char)} {c : Char} {tail : List Char}
    (h : RestAt cs pos (c :: tail)) :
    lexString cs start pos chunk cooked =
      if c = '"' then do
        let text ← slice cs chunk pos
        return (.string (String.ofList (cooked.getD [] ++ text)), ⟨start, pos + 1⟩)
      else if c = '\n' ∨ c = '\r' then throw (.ofCause pos (.unterminatedString (pos - start)))
      else if c = '\\' then do
        let text ← slice cs chunk pos
        let (ch, length) ← readEscape cs pos
        if 0 < length then
          lexString cs start (pos + length) (pos + length) (some (cooked.getD [] ++ text ++ [ch]))
        else need none
      else if c < ' ' ∧ c ≠ '\t' then throw (.ofCause pos (.invalidCharacterInString c))
      else lexString cs start (pos + c.utf8Size) chunk cooked := by
  obtain ⟨b, hb, hleads⟩ := byte?_of_cons h
  rw [lexString]
  split
  · rename_i hnone
    rw [hb] at hnone
    cases hnone
  · rename_i b' hb'
    obtain rfl := Option.some.inj (hb.symm.trans hb')
    have hq : isAscii (· == '"') b = (c == '"') := hleads.isAscii (isAsciiClass_eq (by decide))
    have hn : isAscii Ignored.endsLine b = Ignored.endsLine c :=
      hleads.isAscii isAsciiClass_endsLine
    have hs : isAscii (· == '\\') b = (c == '\\') := hleads.isAscii (isAsciiClass_eq (by decide))
    have ht : isAscii (· == '\t') b = (c == '\t') := hleads.isAscii (isAsciiClass_eq (by decide))
    simp only [hq, hn, hs, ht, beq_iff_eq, dite_eq_ite]
    by_cases hquote : c = '"'
    · rw [if_pos hquote, if_pos hquote]
    · rw [if_neg hquote, if_neg hquote]
      have hends : Ignored.endsLine c = true ↔ c = '\n' ∨ c = '\r' := by simp [Ignored.endsLine]
      by_cases hline : c = '\n' ∨ c = '\r'
      · rw [if_pos hline, if_pos (hends.2 hline)]
      · rw [if_neg hline, if_neg (mt hends.1 hline)]
        by_cases hslash : c = '\\'
        · rw [if_pos hslash, if_pos hslash]
        · rw [if_neg hslash, if_neg hslash]
          by_cases htab : c = '\t'
          · rw [if_pos htab, if_neg (fun hcontrol => hcontrol.2 htab), htab]
            rfl
          · rw [if_neg htab]
            by_cases hcontrol : c < ' '
            · have hb128 : b.toNat < 128 :=
                hleads.lt_iff.2 (Nat.lt_trans (UInt32.lt_iff_toNat_lt.1 hcontrol) (by decide))
              rw [if_pos (hleads.lt_space_iff.2 hcontrol), if_pos ⟨hcontrol, htab⟩,
                hleads.toNat hb128, Char.ofNat_toNat]
            · have hplain : ¬(c < ' ' ∧ c ≠ '\t') := fun h => hcontrol h.1
              have hsingle : b < 0x80 ↔ c.toNat < 128 := UInt8.lt_iff_toNat_lt.trans hleads.lt_iff
              rw [if_neg (mt hleads.lt_space_iff.1 hcontrol), if_neg hplain]
              by_cases hc : c.toNat < 128
              · rw [if_pos (hsingle.2 hc), utf8Size_eq_one_iff_toNat.2 hc]
              · rw [if_neg (mt hsingle.1 hc), after_eq h, pure_bind]
                exact if_pos (Char.utf8Size_pos c)

private theorem lexString_nil {pos chunk : Nat} {cooked : Option (List Char)}
    (h : RestAt cs pos []) : lexString cs start pos chunk cooked =
      throw (.ofCause pos (.unterminatedString (pos - start))) := by
  rw [lexString]
  split
  · rfl
  · rename_i b hb
    rw [byte?_of_nil h] at hb
    cases hb

private theorem lexString_escape {pos chunk k : Nat} {cooked : Option (List Char)}
    {inside tail : List Char} {ch : Char} (h : RestAt cs pos ('\\' :: tail))
    (hslice : slice cs chunk pos = pure inside)
    (hescape : readEscape cs pos = pure (ch, k)) (hk : 0 < k) :
    lexString cs start pos chunk cooked =
      lexString cs start (pos + k) (pos + k) (some (cooked.getD [] ++ inside ++ [ch])) := by
  rw [lexString_cons h, if_neg (by decide), if_neg (by decide), if_pos rfl, hslice, pure_bind,
    hescape, pure_bind]
  exact if_pos hk

private theorem lexString_fault {pos chunk : Nat} {cooked : Option (List Char)}
    {inside tail : List Char} {e : SyntaxError} (h : RestAt cs pos ('\\' :: tail))
    (hslice : slice cs chunk pos = pure inside) (hescape : readEscape cs pos = throw e) :
    lexString cs start pos chunk cooked = throw e := by
  rw [lexString_cons h, if_neg (by decide), if_neg (by decide), if_pos rfl, hslice,
    pure_bind, hescape]
  rfl

/-- The reader of bytes stands within a string that starts at `start`: it has `inside` behind
the last escape. -/
structure Within (cs : List Char) (start offset chunk : Nat) (inside rest : List Char) : Prop where
  text : RestAt cs chunk (inside ++ rest)
  position : start + offset = chunk + byteLength inside

namespace Within

variable {chunk : Nat} {inside : List Char}

private theorem restAt (h : Within cs start offset chunk inside rest) :
    RestAt cs (start + offset) rest := by
  rw [h.position]
  exact h.text.advance

theorem slice (h : Within cs start offset chunk inside rest) :
    slice cs chunk (start + offset) = pure inside := by
  rw [h.position]
  exact slice_eq h.text

/-- Behind an escape the text starts anew. -/
theorem behind {front : List Char} {k : Nat}
    (h : Within cs start offset chunk inside (front ++ rest)) (hk : byteLength front = k) :
    Within cs start (offset + k) (start + offset + k) [] rest := by
  refine ⟨?_, by rw [byteLength_nil, Nat.add_zero, Nat.add_assoc]⟩
  rw [← hk]
  exact h.restAt.advance

theorem raw {c : Char} (h : Within cs start offset chunk inside (c :: rest)) :
    Within cs start (offset + c.utf8Size) chunk (inside ++ [c]) rest := by
  refine ⟨?_, ?_⟩
  · rw [List.append_assoc]
    exact h.text
  · rw [byteLength_append, ← Nat.add_assoc, h.position, Nat.add_assoc]
    rfl

end Within

private theorem length_lt_of_pattern {e : Char} {tail : List Char}
    (h : ∀ a b c d rest, e = 'u' → tail = a :: b :: c :: d :: rest → False) (he : e = 'u') :
    tail.length < 4 := by
  match tail, h with
  | [], _ => decide
  | [_], _ => simp
  | [_, _], _ => simp
  | [_, _, _], _ => simp
  | a :: b :: c :: d :: rest, h => exact (h a b c d rest he rfl).elim

/-- Both readers take an escape of `k` bytes for the same character, and agree if they
agree behind it. -/
theorem lexString_behind {chunk k : Nat} {cooked : Option (List Char)}
    {inside front tail : List Char} {ch : Char}
    (h : Within cs start offset chunk inside (('\\' :: front) ++ tail))
    (hsize : byteLength ('\\' :: front) = k) (hk : 0 < k)
    (hescape : readEscape cs (start + offset) = pure (ch, k))
    (ih : ∀ {chunk : Nat} {cooked : Option (List Char)} {inside : List Char},
      Within cs start (offset + k) chunk inside tail →
        lexString cs start (start + (offset + k)) chunk cooked =
          placed start (fun r => (.string (String.ofList (cooked.getD [] ++ inside ++ r.value)),
            ⟨start, start + (offset + k) + byteLength r.text⟩))
              (StringLiteral.scan (offset + k) tail)) :
    lexString cs start (start + offset) chunk cooked =
      placed start (fun r => (.string (String.ofList (cooked.getD [] ++ inside ++ r.value)),
        ⟨start, start + offset + byteLength r.text⟩))
        ((StringLiteral.scan (offset + k) tail).map
          (StringLiteral.Reading.push ch ('\\' :: front))) := by
  have hbehind : Within cs start (offset + k) (start + offset + k) [] tail := Within.behind h hsize
  rw [lexString_escape h.restAt h.slice hescape hk, placed_map, Nat.add_assoc]
  rw [Nat.add_assoc] at hbehind
  rw [ih hbehind]
  simp only [StringLiteral.Reading.push, byteLength_append, hsize, Option.getD_some,
    List.append_nil, List.append_assoc, List.singleton_append, Nat.add_assoc]

/-- The value of a string is what was cooked, the text since then, and what the other reader
finds behind it. -/
theorem lexString_eq {chunk : Nat} {cooked : Option (List Char)} {inside : List Char}
    (h : Within cs start offset chunk inside rest) :
    lexString cs start (start + offset) chunk cooked =
      placed start (fun r => (.string (String.ofList (cooked.getD [] ++ inside ++ r.value)),
        ⟨start, start + offset + byteLength r.text⟩)) (StringLiteral.scan offset rest) := by
  have hlength : ∀ n, start + n - start = n := Nat.add_sub_cancel_left start
  fun_induction StringLiteral.scan offset rest generalizing chunk cooked inside with
  | case1 n =>
    rw [lexString_nil h.restAt, hlength]
    rfl
  | case2 n rest =>
    rw [lexString_cons h.restAt, if_pos rfl, h.slice, pure_bind]
    show pure (Token.string (String.ofList _), Span.mk start (start + n + 1)) =
      pure (Token.string (String.ofList (_ ++ [])), Span.mk start (start + n + 1))
    rw [List.append_nil]
  | case3 n a b c d rest ch hu ih =>
    have hsize := StringLiteral.byteLength_of_unicodeEscape? hu
    have hescape : readEscape cs (start + n) = pure (ch, 6) := by
      rw [readEscape_unicode h.restAt, hu]
    exact lexString_behind h hsize (by decide) hescape ih
  | case4 n a b c d rest hu =>
    refine lexString_fault h.restAt h.slice ?_
    rw [readEscape_unicode h.restAt, hu]
    rfl
  | case5 n e rest hpattern ch he ih =>
    have hsize : byteLength ['\\', e] = 2 := by
      rw [byteLength_cons, byteLength_cons, StringLiteral.utf8Size_of_simpleEscape? he]
      rfl
    have hescape : readEscape cs (start + n) = pure (ch, 2) := by
      rw [readEscape_simple h.restAt (length_lt_of_pattern hpattern), he]
    exact lexString_behind h hsize (by decide) hescape ih
  | case6 n e rest hpattern he =>
    refine lexString_fault h.restAt h.slice ?_
    rw [readEscape_simple h.restAt (length_lt_of_pattern hpattern), he]
    rfl
  | case7 n => exact lexString_fault h.restAt h.slice (readEscape_end h.restAt)
  | case8 n c rest hquote _ _ _ hline =>
    rw [lexString_cons h.restAt, if_neg hquote, if_pos hline, hlength]
    rfl
  | case9 n c rest hquote _ hpair hsingle hline hcontrol =>
    have hslash := StringLiteral.ne_backslash hpair hsingle
    rw [lexString_cons h.restAt, if_neg hquote, if_neg hline, if_neg hslash, if_pos hcontrol]
    rfl
  | case10 n c rest hquote _ hpair hsingle hline hcontrol ih =>
    have hslash := StringLiteral.ne_backslash hpair hsingle
    have hstep := h.raw
    rw [lexString_cons h.restAt, if_neg hquote, if_neg hline, if_neg hslash, if_neg hcontrol,
      placed_map, Nat.add_assoc, ih hstep]
    simp only [StringLiteral.Reading.push, byteLength_cons, List.append_assoc,
      List.singleton_append, Nat.add_assoc]

end Bytewise

end SchemaLang
