import SchemaLang.Proofs.Lexing.Boundaries
import SchemaLang.Proofs.Lexing.Bytewise

/-!
# The bytes of a text

A character below 128 is one byte, which is its number. All bytes of another character are 128 or
more, so that a search for one of the first sort never stops within one of the second.
-/

namespace SchemaLang

namespace Text

theorem bytes_cons (c : Char) (cs : List Char) :
    bytes (c :: cs) = String.utf8EncodeChar c ++ bytes cs := rfl

theorem bytes_append (xs ys : List Char) : bytes (xs ++ ys) = bytes xs ++ bytes ys :=
  List.flatMap_append

theorem length_bytes (cs : List Char) : (bytes cs).length = byteLength cs := by
  induction cs with
  | nil => rfl
  | cons c cs ih =>
    rw [bytes_cons, List.length_append, String.length_utf8EncodeChar, ih, byteLength_cons]

theorem utf8Size_eq_one_iff_toNat {c : Char} : c.utf8Size = 1 ↔ c.toNat < 128 := by
  rw [Char.utf8Size_eq_one_iff, UInt32.le_iff_toNat_le]
  exact Nat.lt_succ_iff.symm

/-- A character is one byte with its number, or it is bytes that are no characters. -/
theorem utf8EncodeChar_cases (c : Char) :
    c.toNat < 128 ∧ String.utf8EncodeChar c = [UInt8.ofNat c.toNat] ∨
      128 ≤ c.toNat ∧ ∃ b bs, String.utf8EncodeChar c = b :: bs ∧ ∀ x ∈ b :: bs, 128 ≤ x.toNat := by
  by_cases hc : c.toNat < 128
  · refine .inl ⟨hc, String.utf8EncodeChar_eq_singleton (utf8Size_eq_one_iff_toNat.2 hc)⟩
  · refine .inr ⟨Nat.le_of_not_lt hc, ?_⟩
    have hv : ¬c.val.toNat ≤ 127 := fun h => hc (Nat.lt_succ_of_le h)
    simp only [String.utf8EncodeChar, if_neg hv]
    split
    · refine ⟨_, _, rfl, ?_⟩
      simp only [List.mem_cons, List.not_mem_nil, or_false, forall_eq_or_imp, forall_eq,
        UInt8.toNat_ofNat']
      omega
    · split
      · refine ⟨_, _, rfl, ?_⟩
        simp only [List.mem_cons, List.not_mem_nil, or_false, forall_eq_or_imp, forall_eq,
          UInt8.toNat_ofNat']
        omega
      · refine ⟨_, _, rfl, ?_⟩
        simp only [List.mem_cons, List.not_mem_nil, or_false, forall_eq_or_imp, forall_eq,
          UInt8.toNat_ofNat']
        omega

private theorem ascii?_ofNat {c : Char} (hc : c.toNat < 128) :
    ascii? (UInt8.ofNat c.toNat) = some c := by
  have hb : (UInt8.ofNat c.toNat).toNat = c.toNat := by
    rw [UInt8.toNat_ofNat']
    omega
  rw [ascii?, if_pos (UInt8.lt_iff_toNat_lt.2 (by rw [hb]; exact hc)), hb, Char.ofNat_toNat]

private theorem ascii?_of_le {b : UInt8} (hb : 128 ≤ b.toNat) : ascii? b = none := by
  rw [ascii?, if_neg]
  intro h
  have hlt : b.toNat < 128 := UInt8.lt_iff_toNat_lt.1 h
  omega

/-- A class of characters below 128. -/
def IsAsciiClass (q : Char → Bool) : Prop := ∀ c, q c = true → c.toNat < 128

theorem isAsciiClass_eq {x : Char} (hx : x.toNat < 128) : IsAsciiClass (· == x) := by
  intro c hc
  rw [beq_iff_eq] at hc
  rw [hc]
  exact hx

theorem IsAsciiClass.or {q q' : Char → Bool} (h : IsAsciiClass q) (h' : IsAsciiClass q') :
    IsAsciiClass fun c => q c || q' c := by
  intro c hc
  rcases Bool.or_eq_true_iff.1 hc with hc | hc
  · exact h c hc
  · exact h' c hc

theorem isAsciiClass_isDigit : IsAsciiClass Char.isDigit := by
  intro c hc
  rw [Char.isDigit_iff_toNat] at hc
  exact Nat.lt_of_le_of_lt hc.2 (by decide)

private theorem isAsciiClass_isAlpha : IsAsciiClass Char.isAlpha := by
  intro c hc
  unfold Char.isAlpha Char.isUpper Char.isLower at hc
  simp only [Bool.or_eq_true, Bool.and_eq_true, decide_eq_true_eq, ge_iff_le,
    UInt32.le_iff_toNat_le] at hc
  rcases hc with ⟨-, hc⟩ | ⟨-, hc⟩
  · exact Nat.lt_of_le_of_lt hc (by decide)
  · exact Nat.lt_of_le_of_lt hc (by decide)

theorem isAsciiClass_isNameStart : IsAsciiClass isNameStart :=
  (isAsciiClass_eq (by decide)).or isAsciiClass_isAlpha

theorem isAsciiClass_isNameChar : IsAsciiClass isNameChar :=
  (isAsciiClass_eq (by decide)).or (isAsciiClass_isAlpha.or isAsciiClass_isDigit)

theorem isAsciiClass_endsLine : IsAsciiClass Ignored.endsLine :=
  (isAsciiClass_eq (by decide)).or (isAsciiClass_eq (by decide))

/-- The first byte of a character: what it tells about the character. -/
structure Leads (b : UInt8) (c : Char) : Prop where
  ascii? : ascii? b = if c.toNat < 128 then some c else none
  lt_iff : b.toNat < 128 ↔ c.toNat < 128
  toNat : b.toNat < 128 → b.toNat = c.toNat

theorem exists_leads (c : Char) :
    ∃ b bs, String.utf8EncodeChar c = b :: bs ∧ Leads b c ∧ (c.toNat < 128 → bs = []) ∧
      (128 ≤ c.toNat → ∀ x ∈ b :: bs, 128 ≤ x.toNat) := by
  rcases utf8EncodeChar_cases c with ⟨hc, hbytes⟩ | ⟨hc, b, bs, hbytes, hall⟩
  · have hb : (UInt8.ofNat c.toNat).toNat = c.toNat := by
      rw [UInt8.toNat_ofNat']
      omega
    refine ⟨_, _, hbytes, ⟨?_, ?_, fun _ => hb⟩, fun _ => rfl,
      fun h => absurd hc (Nat.not_lt_of_le h)⟩
    · rw [ascii?_ofNat hc, if_pos hc]
    · rw [hb]
  · have hb := hall b List.mem_cons_self
    refine ⟨b, bs, hbytes, ⟨?_, ?_, fun h => absurd h (Nat.not_lt_of_le hb)⟩,
      fun h => absurd h (Nat.not_lt_of_le hc), fun _ => hall⟩
    · rw [ascii?_of_le hb, if_neg (Nat.not_lt_of_le hc)]
    · constructor
      · exact fun h => absurd h (Nat.not_lt_of_le hb)
      · exact fun h => absurd h (Nat.not_lt_of_le hc)

theorem Leads.isAscii {b : UInt8} {c : Char} (h : Leads b c) {q : Char → Bool}
    (hq : IsAsciiClass q) : isAscii q b = q c := by
  rw [Text.isAscii, h.ascii?]
  by_cases hc : c.toNat < 128
  · rw [if_pos hc]
    rfl
  · rw [if_neg hc]
    exact (Bool.eq_false_iff.2 fun h => hc (hq c h)).symm

theorem Leads.isAscii_eq {b : UInt8} {c : Char} (h : Leads b c) (q : Char → Bool) :
    Text.isAscii q b = (decide (c.toNat < 128) && q c) := by
  rw [Text.isAscii, h.ascii?]
  by_cases hc : c.toNat < 128
  · simp [hc]
  · simp [hc]

/-- The first byte of a control character is one. -/
theorem Leads.lt_space_iff {b : UInt8} {c : Char} (h : Leads b c) : b < 0x20 ↔ c < ' ' := by
  have hc : c < ' ' ↔ c.toNat < 32 := UInt32.lt_iff_toNat_lt
  have hb : b < 0x20 ↔ b.toNat < 32 := UInt8.lt_iff_toNat_lt
  rw [hb, hc]
  constructor
  · intro hb
    rwa [← h.toNat (by omega)]
  · intro hc
    rwa [h.toNat (h.lt_iff.2 (by omega))]

/-- The bytes of a class at the head of a text are the characters of the class there. -/
theorem length_takeWhile_bytes {q : Char → Bool} (hq : IsAsciiClass q) (cs : List Char) :
    ((bytes cs).takeWhile (isAscii q)).length = byteLength (cs.takeWhile q) := by
  induction cs with
  | nil => rfl
  | cons c cs ih =>
    obtain ⟨b, bs, hbytes, hleads, hsingle, -⟩ := exists_leads c
    rw [bytes_cons, hbytes]
    by_cases hc : q c = true
    · have hsize := utf8Size_eq_one_iff_toNat.2 (hq c hc)
      rw [hsingle (hq c hc), List.singleton_append,
        List.takeWhile_cons_of_pos (by rw [hleads.isAscii hq, hc]), List.takeWhile_cons_of_pos hc,
        List.length_cons, ih, byteLength_cons, hsize, Nat.add_comm]
    · rw [List.cons_append, List.takeWhile_cons_of_neg (by rw [hleads.isAscii hq]; exact hc),
        List.takeWhile_cons_of_neg hc]
      rfl

private theorem findIdx?_eq_takeWhile {α : Type} (p : α → Bool) (xs : List α) :
    (xs.findIdx? p).getD xs.length = (xs.takeWhile fun x => !p x).length := by
  induction xs with
  | nil => rfl
  | cons x xs ih =>
    by_cases hx : p x = true
    · simp [List.findIdx?_cons, hx]
    · simp only [List.findIdx?_cons, hx, Bool.false_eq_true, if_false, List.takeWhile_cons,
        Bool.not_false, if_true, List.length_cons, ← ih]
      cases xs.findIdx? p <;> rfl

/-- Up to the first byte of a class there are the characters up to the first one of the class. -/
theorem length_takeWhile_not_bytes {q : Char → Bool} (hq : IsAsciiClass q) (cs : List Char) :
    ((bytes cs).takeWhile fun b => !isAscii q b).length =
      byteLength (cs.takeWhile fun c => !q c) := by
  induction cs with
  | nil => rfl
  | cons c cs ih =>
    obtain ⟨b, bs, hbytes, hleads, hsingle, hlarge⟩ := exists_leads c
    have hsize : (b :: bs).length = c.utf8Size := by rw [← hbytes, String.length_utf8EncodeChar]
    rw [bytes_cons]
    by_cases hc : q c = true
    · rw [hbytes, List.cons_append,
        List.takeWhile_cons_of_neg (by rw [hleads.isAscii hq, hc]; decide),
        List.takeWhile_cons_of_neg (by rw [hc]; decide)]
      rfl
    · have hall : ∀ x ∈ b :: bs, (!isAscii q x) = true := by
        by_cases hascii : c.toNat < 128
        · intro x hx
          rw [hsingle hascii] at hx
          rw [List.mem_singleton.1 hx, hleads.isAscii hq]
          simpa using hc
        · intro x hx
          rw [isAscii, ascii?_of_le (hlarge (Nat.le_of_not_lt hascii) x hx)]
          rfl
      rw [hbytes, List.takeWhile_append_of_pos hall, List.takeWhile_cons_of_pos (by simpa using hc),
        List.length_append, hsize, ih, byteLength_cons]

/-- From byte `n` on the text is `rest`. -/
def RestAt (cs : List Char) (n : Nat) (rest : List Char) : Prop :=
  ∃ before, cs = before ++ rest ∧ byteLength before = n

namespace RestAt

variable {cs rest : List Char} {n : Nat} {c : Char}

theorem of_append {before : List Char} (h : cs = before ++ rest) :
    RestAt cs (byteLength before) rest :=
  ⟨before, h, rfl⟩

theorem advance {front : List Char} (h : RestAt cs n (front ++ rest)) :
    RestAt cs (n + byteLength front) rest := by
  obtain ⟨before, rfl, rfl⟩ := h
  exact ⟨before ++ front, (List.append_assoc _ _ _).symm, byteLength_append _ _⟩

/-- Behind a character of one byte the text goes on at the next one. -/
theorem next (h : RestAt cs n (c :: rest)) (hc : c.toNat < 128) : RestAt cs (n + 1) rest := by
  have hsize : byteLength [c] = 1 := utf8Size_eq_one_iff_toNat.2 hc
  have h : RestAt cs (n + byteLength [c]) rest := advance h
  rwa [hsize] at h

theorem length (h : RestAt cs n rest) : byteLength cs = n + byteLength rest := by
  obtain ⟨before, rfl, rfl⟩ := h
  exact byteLength_append _ _

theorem drop_bytes (h : RestAt cs n rest) : (bytes cs).drop n = bytes rest := by
  obtain ⟨before, rfl, rfl⟩ := h
  rw [bytes_append, ← length_bytes, List.drop_left]

private theorem getElem?_bytes (h : RestAt cs n rest) : (bytes cs)[n]? = (bytes rest).head? := by
  rw [← h.drop_bytes, List.head?_drop]

end RestAt

end Text

namespace Bytewise

open Text

variable {cs rest front : List Char} {n : Nat} {c : Char} {q : Char → Bool}

theorem byte?_of_nil (h : RestAt cs n []) : byte? cs n = none := h.getElem?_bytes

theorem byte?_of_cons (h : RestAt cs n (c :: rest)) : ∃ b, byte? cs n = some b ∧ Leads b c := by
  obtain ⟨b, bs, hbytes, hleads, -⟩ := exists_leads c
  refine ⟨b, ?_, hleads⟩
  rw [byte?, h.getElem?_bytes, bytes_cons, hbytes]
  rfl

/-- The byte at a place is in a class of single bytes if the character there is. -/
theorem any_byte? (h : RestAt cs n rest) (hq : IsAsciiClass q) :
    (byte? cs n).any (isAscii q) = rest.head?.any q := by
  cases rest with
  | nil => rw [byte?_of_nil h]; rfl
  | cons c rest =>
    obtain ⟨b, hb, hleads⟩ := byte?_of_cons h
    rw [hb]
    exact hleads.isAscii hq

theorem slice_eq (h : RestAt cs n (front ++ rest)) :
    slice cs n (n + byteLength front) = pure front := by
  obtain ⟨before, rfl, rfl⟩ := h
  rw [slice, slice?_append]
  rfl

theorem after_eq (h : RestAt cs n rest) : after cs n = pure rest := by
  rw [after, h.length]
  exact slice_eq (by rwa [List.append_nil])

theorem runEnd_eq (h : RestAt cs n rest) (hq : IsAsciiClass q) :
    runEnd cs q n = n + byteLength (rest.takeWhile q) := by
  rw [runEnd, h.drop_bytes, length_takeWhile_bytes hq]

theorem lineEnd_eq (h : RestAt cs n rest) :
    lineEnd cs n = pure (n + byteLength (rest.takeWhile fun c => !Ignored.endsLine c)) := by
  have hle : n ≤ byteLength cs := by
    rw [h.length]
    exact Nat.le_add_right _ _
  have hfind := findIdx?_eq_takeWhile (isAscii Ignored.endsLine) (bytes rest)
  rw [length_takeWhile_not_bytes isAsciiClass_endsLine, length_bytes] at hfind
  rw [lineEnd, if_pos hle, h.drop_bytes, ← hfind]
  cases (bytes rest).findIdx? (isAscii Ignored.endsLine) with
  | some i => rfl
  | none => rw [h.length]; rfl

end Bytewise

end SchemaLang
