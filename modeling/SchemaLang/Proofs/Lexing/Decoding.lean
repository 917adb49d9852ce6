import SchemaLang.Proofs.Lexing.StringAgreement
import SchemaLang.Proofs.Lexing.Tiling

/-!
# What a string stands for

A string is decoded from left to right, one character or one escape after the other, up to its
closing quote or to the first thing that does not fit. The rules of this are written down one by
one. Under them every text comes to just one outcome, and it is the one that both readers come to,
wherever the escapes stand in the text.
-/

namespace SchemaLang

namespace StringLiteral

open Text

/-- The escapes of one letter, and what they stand for. -/
def letters : List (Char × Char) :=
  [('"', '"'), ('\\', '\\'), ('/', '/'), ('b', '\x08'), ('f', '\x0c'), ('n', '\n'),
    ('r', '\r'), ('t', '\t')]

/-- The character is the hexadecimal digit of a number, in either case. -/
def IsHexDigit (c : Char) (n : Nat) : Prop :=
  n < 16 ∧ (c = Nat.digitChar n ∨ c = (Nat.digitChar n).toUpper)

instance (c : Char) (n : Nat) : Decidable (IsHexDigit c n) := inferInstanceAs (Decidable (_ ∧ _))

/-- The text makes an escape behind a backslash, and stands for the character. -/
inductive IsEscape : List Char → Char → Prop
  | letter {e ch : Char} (mem : (e, ch) ∈ letters) : IsEscape [e] ch
  | number {a b c d ch : Char} {i j k l : Nat} (first : IsHexDigit a i) (second : IsHexDigit b j)
    (third : IsHexDigit c k) (fourth : IsHexDigit d l)
    (number : ch.toNat = ((i * 16 + j) * 16 + k) * 16 + l) :
    IsEscape ['u', a, b, c, d] ch

/-- What the decoding comes to: a value and the position behind the closing quote, or the position
and the sort of the fault. -/
abbrev Outcome := Except (Nat × Category) (List Char × Nat)

/-- The decoding has come to `position` and has the value `v` so far; the rest of the text brings it
to the outcome. -/
inductive Decodes : Nat → List Char → List Char → Outcome → Prop
  /-- The first quote that is not escaped closes the string. -/
  | closed {position : Nat} {v rest : List Char} :
    Decodes position v ('"' :: rest) (.ok (v, position + 1))
  /-- At a line break, or at the end of the text, the string has no end. -/
  | unterminated {position : Nat} {v cs : List Char} (ends : ∀ c ∈ cs.head?, c = '\n' ∨ c = '\r') :
    Decodes position v cs (.error (position, .unterminatedString))
  /-- No other control character may stand in a string, but for the tab. -/
  | control {position : Nat} {v rest : List Char} {c : Char} (isControl : c < ' ')
    (other : c ≠ '\t' ∧ c ≠ '\n' ∧ c ≠ '\r') :
    Decodes position v (c :: rest) (.error (position, .invalidCharacterInString c))
  /-- A backslash starts no escape. -/
  | invalid {position : Nat} {v rest : List Char} (none : ∀ w ch, IsEscape w ch → ¬w <+: rest) :
    Decodes position v ('\\' :: rest)
      (.error (position,
        .invalidEscape
          (String.ofList ('\\' :: rest.take (if rest.head? = some 'u' then 5 else 1)))))
  /-- A backslash and what makes an escape behind it add the character it stands for. -/
  | escape {position : Nat} {v w rest : List Char} {ch : Char} {out : Outcome}
    (isEscape : IsEscape w ch)
    (next : Decodes (position + 1 + byteLength w) (v ++ [ch]) rest out) :
    Decodes position v ('\\' :: (w ++ rest)) out
  /-- Every other character adds itself. -/
  | raw {position : Nat} {v rest : List Char} {c : Char} {out : Outcome}
    (plain : c ≠ '"' ∧ c ≠ '\\')
    (noControl : c < ' ' → c = '\t') (next : Decodes (position + c.utf8Size) (v ++ [c]) rest out) :
    Decodes position v (c :: rest) out

variable {start position n : Nat} {v w cs rest : List Char} {c e ch : Char} {out : Outcome}

/-- The decoding always comes to something. -/
theorem exists_decodes (position : Nat) (v cs : List Char) : ∃ out, Decodes position v cs out := by
  induction hlength : cs.length using Nat.strongRecOn generalizing position v cs with
  | ind length ih =>
    subst hlength
    cases cs with
    | nil => exact ⟨_, .unterminated fun _ h => nomatch h⟩
    | cons c rest =>
      by_cases hquote : c = '"'
      · subst hquote
        exact ⟨_, .closed⟩
      by_cases hbackslash : c = '\\'
      · subst hbackslash
        by_cases hescape : ∃ w ch, IsEscape w ch ∧ w <+: rest
        · obtain ⟨w, ch, isEscape, tail, rfl⟩ := hescape
          have shorter : tail.length < ('\\' :: (w ++ tail)).length := by
            simp only [List.length_cons, List.length_append]
            omega
          obtain ⟨out, next⟩ := ih _ shorter (position + 1 + byteLength w) (v ++ [ch]) tail rfl
          exact ⟨out, .escape isEscape next⟩
        · exact ⟨_, .invalid fun w ch isEscape starts => hescape ⟨w, ch, isEscape, starts⟩⟩
      by_cases hline : c = '\n' ∨ c = '\r'
      · exact ⟨_, .unterminated fun d hd => Option.some.inj hd ▸ hline⟩
      by_cases hcontrol : c < ' ' ∧ c ≠ '\t'
      · exact ⟨_, .control hcontrol.1 ⟨hcontrol.2, not_or.1 hline⟩⟩
      · obtain ⟨out, next⟩ := ih _ (Nat.lt_succ_self _) (position + c.utf8Size) (v ++ [c]) rest rfl
        exact ⟨out,
          .raw ⟨hquote, hbackslash⟩ (fun control => by_contra fun h => hcontrol ⟨control, h⟩) next⟩

private theorem ne_u_of_mem_letters (h : (e, ch) ∈ letters) : e ≠ 'u' := by
  have hall : ∀ pair ∈ letters, pair.1 ≠ 'u' := by decide
  exact hall _ h

private theorem simpleEscape?_eq_some : simpleEscape? e = some ch ↔ (e, ch) ∈ letters := by
  unfold simpleEscape? letters
  split <;> simp_all [eq_comm]

private theorem hexDigit?_eq_some : hexDigit? c = some n ↔ IsHexDigit c n := by
  constructor
  · intro h
    have digit : ∀ m < 10, Char.ofNat (m + 48) = Nat.digitChar m := by decide
    have lower : ∀ m < 6, Char.ofNat (m + 97) = Nat.digitChar (m + 10) := by decide
    have upper : ∀ m < 6, Char.ofNat (m + 65) = (Nat.digitChar (m + 10)).toUpper := by decide
    unfold hexDigit? at h
    split at h
    · rename_i hc
      have hlow : 48 ≤ c.toNat := hc.1
      have hhigh : c.toNat ≤ 57 := hc.2
      obtain rfl : c.toNat - 48 = n := Option.some.inj h
      refine ⟨by omega, .inl ?_⟩
      rw [← digit _ (by omega), Nat.sub_add_cancel hlow, Char.ofNat_toNat]
    · split at h
      · rename_i hc
        have hlow : 97 ≤ c.toNat := hc.1
        have hhigh : c.toNat ≤ 102 := hc.2
        obtain rfl : c.toNat - 97 + 10 = n := Option.some.inj h
        refine ⟨by omega, .inl ?_⟩
        rw [← lower _ (by omega), Nat.sub_add_cancel hlow, Char.ofNat_toNat]
      · split at h
        · rename_i hc
          have hlow : 65 ≤ c.toNat := hc.1
          have hhigh : c.toNat ≤ 70 := hc.2
          obtain rfl : c.toNat - 65 + 10 = n := Option.some.inj h
          refine ⟨by omega, .inr ?_⟩
          rw [← upper _ (by omega), Nat.sub_add_cancel hlow, Char.ofNat_toNat]
        · exact nomatch h
  · rintro ⟨hn, h⟩
    have both : ∀ m < 16, hexDigit? (Nat.digitChar m) = some m ∧
        hexDigit? (Nat.digitChar m).toUpper = some m := by
      decide
    rcases h with rfl | rfl
    · exact (both n hn).1
    · exact (both n hn).2

/-- The character with a number, if it is one of a character. -/
theorem ofNumber_eq_some :
    (do guard n.isValidChar; return Char.ofNat n : Option Char) = some ch ↔ ch.toNat = n := by
  by_cases h : n.isValidChar
  · have htoNat : (Char.ofNat n).toNat = n := by
      rw [Char.ofNat, dif_pos h]
      rfl
    rw [guard, if_pos h]
    change some (Char.ofNat n) = some ch ↔ _
    refine ⟨fun hch => Option.some.inj hch ▸ htoNat, ?_⟩
    rintro rfl
    rw [Char.ofNat_toNat]
  · rw [guard, if_neg h]
    exact iff_of_false (fun hnone => nomatch hnone) fun hch => h (hch ▸ ch.valid)

/-- Four hexadecimal digits make an escape if their number is one of a character. -/
theorem unicodeEscape?_eq_some {a b c d : Char} :
    unicodeEscape? a b c d = some ch ↔ IsEscape ['u', a, b, c, d] ch := by
  have horner (i j k l : Nat) : 4096 * i + 256 * j + 16 * k + l =
    ((i * 16 + j) * 16 + k) * 16 + l := by omega
  constructor
  · intro h
    obtain ⟨i, ha, h⟩ := Option.bind_eq_some_iff.1 h
    obtain ⟨j, hb, h⟩ := Option.bind_eq_some_iff.1 h
    obtain ⟨k, hc, h⟩ := Option.bind_eq_some_iff.1 h
    obtain ⟨l, hd, h⟩ := Option.bind_eq_some_iff.1 h
    have number := ofNumber_eq_some.1 h
    rw [horner] at number
    exact .number (hexDigit?_eq_some.1 ha) (hexDigit?_eq_some.1 hb) (hexDigit?_eq_some.1 hc)
      (hexDigit?_eq_some.1 hd)
      number
  · intro h
    cases h with
    | number ha hb hc hd number =>
      rw [← horner] at number
      refine Option.bind_eq_some_iff.2 ⟨_, hexDigit?_eq_some.2 ha, ?_⟩
      refine Option.bind_eq_some_iff.2 ⟨_, hexDigit?_eq_some.2 hb, ?_⟩
      refine Option.bind_eq_some_iff.2 ⟨_, hexDigit?_eq_some.2 hc, ?_⟩
      exact Option.bind_eq_some_iff.2 ⟨_, hexDigit?_eq_some.2 hd, ofNumber_eq_some.2 number⟩

private theorem byteLength_of_isEscape (h : IsEscape w ch) : byteLength w = w.length := by
  cases h with
  | letter mem =>
    have hsize := utf8Size_of_simpleEscape? (simpleEscape?_eq_some.2 mem)
    rw [byteLength_cons, hsize]
    rfl
  | number ha hb hc hd number =>
    have hsize :=
      byteLength_of_unicodeEscape? (unicodeEscape?_eq_some.2 (.number ha hb hc hd number))
    rw [byteLength_cons] at hsize
    exact Nat.add_left_cancel (hsize.trans (Nat.add_comm 5 1))

private theorem scan_escape (n : Nat) (h : IsEscape w ch) (rest : List Char) :
    scan n ('\\' :: (w ++ rest)) =
      (scan (n + 1 + byteLength w) rest).map (.push ch ('\\' :: w)) := by
  rw [byteLength_of_isEscape h]
  cases h with
  | letter mem => exact scan_simple n rest (simpleEscape?_eq_some.2 mem) (ne_u_of_mem_letters mem)
  | number ha hb hc hd number =>
    have escape := unicodeEscape?_eq_some.2 (.number ha hb hc hd number)
    simp only [List.cons_append, List.nil_append, scan, escape]
    rfl

private theorem scan_invalid (n : Nat) (h : ∀ w ch, IsEscape w ch → ¬w <+: rest) :
    scan n ('\\' :: rest) = .error (.ofCause n
      (.invalidEscape
        (String.ofList ('\\' :: rest.take (if rest.head? = some 'u' then 5 else 1))))) := by
  cases rest with
  | nil => rfl
  | cons e tail =>
    have hletter : simpleEscape? e = none := by
      rw [Option.eq_none_iff_forall_ne_some]
      exact fun ch hch => h [e] ch (.letter (simpleEscape?_eq_some.1 hch)) ⟨tail, rfl⟩
    by_cases hu : e = 'u'
    · subst hu
      match tail, h with
      | [], _ => rfl
      | [_], _ => rfl
      | [_, _], _ => rfl
      | [_, _, _], _ => rfl
      | a :: b :: c :: d :: tail, h =>
        have hnumber : unicodeEscape? a b c d = none := by
          rw [Option.eq_none_iff_forall_ne_some]
          exact fun ch hch => h _ ch (unicodeEscape?_eq_some.1 hch) ⟨tail, rfl⟩
        simp only [scan, hnumber]
        rfl
    · rw [scan]
      · simp only [hletter, if_neg hu, List.head?_cons, Option.some.injEq]
        rfl
      · intro _ _ _ _ _ he _
        exact hu he

private theorem scan_unterminated (n : Nat) (ends : ∀ c ∈ cs.head?, c = '\n' ∨ c = '\r') :
    scan n cs = .error (.ofCause n (.unterminatedString n)) := by
  cases cs with
  | nil => rfl
  | cons c rest =>
    rcases ends c rfl with rfl | rfl
    · rfl
    · rfl

private theorem scan_control (n : Nat) (isControl : c < ' ')
    (other : c ≠ '\t' ∧ c ≠ '\n' ∧ c ≠ '\r') :
    scan n (c :: rest) = .error (.ofCause n (.invalidCharacterInString c)) := by
  have hquote : c ≠ '"' := by rintro rfl; exact absurd isControl (by decide)
  have hbackslash : c ≠ '\\' := by rintro rfl; exact absurd isControl (by decide)
  rw [scan]
  · rw [if_neg (not_or.2 other.2), if_pos ⟨isControl, other.1⟩]
  · exact fun h => hquote h
  · exact fun _ _ _ _ _ h => absurd h hbackslash
  · exact fun _ _ h => absurd h hbackslash
  · exact fun h => absurd h hbackslash

/-- What a reader of characters comes to, from `offset` bytes behind a start on and with the
value `v` so far. -/
def outcome (start offset : Nat) (v : List Char) : Except SyntaxError Reading → Outcome
  | .ok r => .ok (v ++ r.value, start + offset + byteLength r.text)
  | .error e => .error (start + e.position, e.cause.category)

private theorem outcome_push (start offset : Nat) (v text : List Char) (ch : Char)
    (r : Except SyntaxError Reading) : outcome start offset v (r.map (.push ch text)) =
      outcome start (offset + byteLength text) (v ++ [ch]) r := by
  cases r with
  | error e => rfl
  | ok r =>
    change Except.ok (v ++ ch :: r.value, start + offset + byteLength (text ++ r.text)) =
      Except.ok _
    rw [byteLength_append, ← List.append_cons]
    simp only [Nat.add_assoc]

/-- What the rules come to is what the reader comes to. -/
theorem eq_outcome_of_decodes (h : Decodes position v cs out) (start offset : Nat)
    (hposition : position = start + offset) :
    out = outcome start offset v (scan offset cs) := by
  induction h generalizing offset with
  | closed =>
    subst hposition
    change _ = Except.ok (_ ++ [], start + offset + 1)
    rw [List.append_nil]
  | unterminated ends =>
    subst hposition
    rw [scan_unterminated offset ends]
    rfl
  | control isControl other =>
    subst hposition
    rw [scan_control offset isControl other]
    rfl
  | invalid none =>
    subst hposition
    rw [scan_invalid offset none]
    rfl
  | @escape position v w rest ch out isEscape next ih =>
    have hsize : offset + byteLength ('\\' :: w) = offset + 1 + byteLength w := by
      rw [byteLength_cons, Nat.add_assoc]
      rfl
    rw [scan_escape offset isEscape, outcome_push, hsize]
    exact ih _ (by omega)
  | @raw position v rest c out plain noControl next ih =>
    have hline : ¬(c = '\n' ∨ c = '\r') := by
      rintro (rfl | rfl)
      · exact absurd (noControl (by decide)) (by decide)
      · exact absurd (noControl (by decide)) (by decide)
    have hcontrol : ¬(c < ' ' ∧ c ≠ '\t') := fun h => h.2 (noControl h.1)
    have hsize : offset + byteLength [c] = offset + c.utf8Size := rfl
    rw [scan_plain offset rest plain.1 plain.2 hline hcontrol, outcome_push, hsize]
    exact ih _ (by omega)

/-- Just one outcome follows from the rules, the one that the reader comes to. -/
theorem decodes_iff (start offset : Nat) (v cs : List Char) (out : Outcome) :
    Decodes (start + offset) v cs out ↔ out = outcome start offset v (scan offset cs) := by
  refine ⟨fun h => eq_outcome_of_decodes h start offset rfl, ?_⟩
  rintro rfl
  obtain ⟨out, h⟩ := exists_decodes (start + offset) v cs
  rwa [← eq_outcome_of_decodes h start offset rfl]

/-- An outcome for the string that starts at `start`, as the answer of a reader of tokens. -/
def Outcome.Is (start : Nat) (answer : Except SyntaxError (Token × Span)) : Outcome → Prop
  | .ok (value, stop) => answer = .ok (.string (String.ofList value), ⟨start, stop⟩)
  | .error (position, category) =>
    ∃ e, answer = .error e ∧ e.position = position ∧ e.cause.category = category

/-- The answer of the reader of characters, for the contents of a string that starts at `start`. -/
def answer (start : Nat) : Except SyntaxError Reading → Except SyntaxError (Token × Span)
  | .ok r => .ok (.string (String.ofList r.value), ⟨start, start + 1 + byteLength r.text⟩)
  | .error e => .error (e.shift start)

private theorem is_answer (start : Nat) (r : Except SyntaxError Reading) :
    (outcome start 1 [] r).Is start (answer start r) := by
  cases r with
  | ok r => rfl
  | error e => exact ⟨_, rfl, rfl, rfl⟩

end StringLiteral

private theorem Ignored.split_quote (contents : List Char) :
    split false ('"' :: contents) = ([], '"' :: contents) :=
  split_of_stop (by decide) fun sharp => absurd sharp.1 (by decide)

private theorem readToken_string (position : Nat) (contents : List Char) :
    (readToken position ('"' :: contents)).map (fun r => (r.token, r.span)) =
      StringLiteral.answer position (StringLiteral.scan 1 contents) := by
  rw [readToken_of_plain (Ignored.split_quote contents), scanToken, if_neg (by decide),
    if_pos rfl, Scanned.string]
  cases StringLiteral.scan 1 contents with
  | error e => rfl
  | ok r =>
    change Except.ok (_, Span.mk position (position + (1 + Text.byteLength r.text))) = _
    rw [← Nat.add_assoc]
    rfl

variable {s : Source} {before contents : List Char}

private theorem Bytewise.run_lexString (hs : s.chars = before ++ '"' :: contents) :
    (lexString s.chars (Text.byteLength before) (Text.byteLength before + 1)
      (Text.byteLength before + 1) none).run =
        some (StringLiteral.answer (Text.byteLength before) (StringLiteral.scan 1 contents)) := by
  have within : Within s.chars (Text.byteLength before) 1
      (Text.byteLength before + 1) [] contents :=
    ⟨(Text.RestAt.of_append hs).next (by decide), rfl⟩
  rw [lexString_eq within]
  cases StringLiteral.scan 1 contents with
  | error e => rfl
  | ok r => rfl

/-- Strings are decoded exactly. Wherever a quote stands, just one outcome follows from the rules;
it is the answer of the reader of characters and of the reader of bytes. Whatever text is quoted
there is read back. -/
theorem Source.tokenAt_string (hs : s.chars = before ++ '"' :: contents) :
    (∃ out,
      (∀ out', StringLiteral.Decodes (Text.byteLength before + 1) [] contents out' ↔ out' = out) ∧
      out.Is (Text.byteLength before)
        ((s.tokenAt (Text.byteLength before)).map fun r => (r.token, r.span)) ∧
      (Bytewise.lexString s.chars (Text.byteLength before) (Text.byteLength before + 1)
        (Text.byteLength before + 1) none).run =
          some ((s.tokenAt (Text.byteLength before)).map fun r => (r.token, r.span))) ∧
    ∀ text rest, '"' :: contents = (Text.quote text).toList ++ rest →
      s.tokenAt (Text.byteLength before) =
        .ok
          ⟨.string text,
            ⟨Text.byteLength before,
              Text.byteLength before + Text.byteLength (Text.quote text).toList⟩,
            [], rest⟩ := by
  rw [tokenAt_append hs, Bytewise.run_lexString hs, readToken_string]
  refine ⟨⟨_, StringLiteral.decodes_iff _ 1 [] contents, StringLiteral.is_answer _ _, rfl⟩,
    fun text rest quoted => ?_⟩
  rw [readToken_of_plain (Ignored.split_quote contents), quoted, scanToken_quote]

/-- Escapes beside each other and beside a character of two bytes, then an escape of a surrogate,
which is none. -/
theorem Source.tokenAt_string_escapes :
    let good : Source := ⟨"= \"é\\\"\\u00E9x\" y", "strings"⟩
    let bad : Source := ⟨"\"\\t\\ud800\"", "strings"⟩
    (good.chars = "= ".toList ++ '"' :: "é\\\"\\u00E9x\" y".toList ∧
      (good.tokenAt 2).map (fun r => (r.token, r.span)) = .ok (.string "é\"éx", ⟨2, 15⟩)) ∧
    (bad.chars = [] ++ '"' :: "\\t\\ud800\"".toList ∧
      ∃ e, (bad.tokenAt 0).map (fun r => (r.token, r.span)) = .error e ∧ e.position = 3 ∧
        e.cause.category = .invalidEscape "\\ud800") := by
  intro good bad
  constructor
  · have hs : good.chars = "= ".toList ++ '"' :: "é\\\"\\u00E9x\" y".toList := by decide
    have decodes : StringLiteral.Decodes 3 [] "é\\\"\\u00E9x\" y".toList
        (.ok (['é', '"', 'é', 'x'], 15)) := by
      have quote : StringLiteral.IsEscape ['"'] '"' := .letter (by decide)
      have number : StringLiteral.IsEscape ['u', '0', '0', 'E', '9'] 'é' :=
        .number (i := 0) (j := 0) (k := 14) (l := 9) (by decide) (by decide) (by decide)
          (by decide) (by decide)
      exact .raw (by decide) (by decide)
        (.escape quote (.escape number (.raw (by decide) (by decide) .closed)))
    obtain ⟨⟨out, unique, is, -⟩, -⟩ := Source.tokenAt_string hs
    rw [← (unique _).1 decodes] at is
    exact ⟨hs, is⟩
  · have hs : bad.chars = [] ++ '"' :: "\\t\\ud800\"".toList := by decide
    have decodes : StringLiteral.Decodes 1 [] "\\t\\ud800\"".toList
        (.error (3, .invalidEscape "\\ud800")) := by
      have tab : StringLiteral.IsEscape ['t'] '\t' := .letter (by decide)
      refine .escape tab (.invalid fun w ch isEscape starts => ?_)
      have starts : w <+: ['u', 'd', '8', '0', '0', '"'] := starts
      cases isEscape with
      | letter mem => exact StringLiteral.ne_u_of_mem_letters mem (List.cons_prefix_cons.1 starts).1
      | number ha hb hc hd number =>
        have escape := StringLiteral.unicodeEscape?_eq_some.2 (.number ha hb hc hd number)
        simp only [List.cons_prefix_cons] at starts
        obtain ⟨-, rfl, rfl, rfl, rfl, -⟩ := starts
        have none : StringLiteral.unicodeEscape? 'd' '8' '0' '0' = none := by decide
        exact nomatch none.symm.trans escape
    obtain ⟨⟨out, unique, is, -⟩, -⟩ := Source.tokenAt_string hs
    rw [← (unique _).1 decodes] at is
    exact ⟨hs, is⟩

end SchemaLang
