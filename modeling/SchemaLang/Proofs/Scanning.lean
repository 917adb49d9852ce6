import SchemaLang.Proofs.Number
import SchemaLang.Printer.Layout
import SchemaLang.Text.Quoted

/-!
# Reading single tokens

The text of every token is read back as that token when nothing follows that could go on with it. A
string is read back whatever its characters are, since quoting leaves none that could end it.
-/

namespace SchemaLang

namespace StringLiteral

/-- A backslash in front of a character with a simple escape is read as what it stands for. -/
theorem scan_simple {e c : Char} (n : Nat) (rest : List Char) (he : simpleEscape? e = some c)
    (hu : e ≠ 'u') : scan n ('\\' :: e :: rest) = (scan (n + 2) rest).map (.push c ['\\', e]) := by
  rw [scan]
  · rw [he]
  · intro _ _ _ _ _ h _
    exact hu h

/-- The four hexadecimal digits of a control character. -/
theorem unicodeEscape?_control {c : Char} (h : c < ' ') :
    unicodeEscape? '0' '0' (Nat.digitChar (c.toNat / 16)) (Nat.digitChar (c.toNat % 16)) =
      some c := by
  have hall : ∀ n < 32,
      unicodeEscape? '0' '0' (Nat.digitChar (n / 16)) (Nat.digitChar (n % 16)) =
        some (Char.ofNat n) := by
    decide
  rw [hall c.toNat h, Char.ofNat_toNat]

/-- What is no pair with a backslash in front and no lone backslash starts with none. -/
theorem ne_backslash {c : Char} {rest : List Char}
    (hpair : ∀ e tail, c = '\\' → rest = e :: tail → False)
    (hsingle : c = '\\' → rest = [] → False) : c ≠ '\\' := by
  intro hc
  cases rest with
  | nil => exact hsingle hc rfl
  | cons e tail => exact hpair e tail hc rfl

/-- A character that is no quote, no backslash, no line break and no control other than the tab
stands for itself. -/
theorem scan_plain {c : Char} (n : Nat) (rest : List Char) (hq : c ≠ '"') (hb : c ≠ '\\')
    (hn : ¬(c = '\n' ∨ c = '\r')) (hc : ¬(c < ' ' ∧ c ≠ '\t')) :
    scan n (c :: rest) = (scan (n + c.utf8Size) rest).map (.push c [c]) := by
  rw [scan]
  · rw [if_neg hn, if_neg hc]
  · intro h; exact hq h
  · intro _ _ _ _ _ h; exact absurd h hb
  · intro _ _ h; exact absurd h hb
  · intro h; exact absurd h hb

/-- A character that is no quote, no backslash and no control stands for itself. -/
theorem scan_raw {c : Char} (n : Nat) (rest : List Char) (hq : c ≠ '"') (hb : c ≠ '\\')
    (hc : ¬c < ' ') : scan n (c :: rest) = (scan (n + c.utf8Size) rest).map (.push c [c]) := by
  have hn : ¬(c = '\n' ∨ c = '\r') := by
    rintro (rfl | rfl) <;> exact hc (by decide)
  exact scan_plain n rest hq hb hn fun h => hc h.1

/-- A character has a simple escape, is another control and has its number for an escape, or
stands for itself. -/
theorem escapeChar_cases (c : Char) :
    (∃ e, Text.escapeChar c = ['\\', e] ∧ simpleEscape? e = some c ∧ e ≠ 'u' ∧ e ≠ '\n') ∨
      (c < ' ' ∧ Text.escapeChar c = ['\\', 'u', '0', '0'] ++ Text.hexByte c.toNat) ∨
      (Text.escapeChar c = [c] ∧ c ≠ '"' ∧ c ≠ '\\' ∧ ¬c < ' ') := by
  by_cases simple : c ∈ ['"', '\\', '\x08', '\x0c', '\n', '\r', '\t']
  · refine .inl ?_
    simp only [List.mem_cons, List.not_mem_nil, or_false] at simple
    rcases simple with rfl | rfl | rfl | rfl | rfl | rfl | rfl
    all_goals exact ⟨_, rfl, rfl, by decide, by decide⟩
  · refine .inr ?_
    simp only [List.mem_cons, List.not_mem_nil, or_false, not_or] at simple
    obtain ⟨quote, backslash, backspace, formFeed, lineFeed, carriageReturn, tab⟩ := simple
    rw [Text.escapeChar, if_neg quote, if_neg backslash, if_neg backspace, if_neg formFeed,
      if_neg lineFeed, if_neg carriageReturn, if_neg tab]
    by_cases control : c < ' '
    · exact .inl ⟨control, if_pos control⟩
    · exact .inr ⟨if_neg control, quote, backslash, control⟩

/-- A character that was escaped is read back, and the reading goes on after it. -/
theorem scan_escapeChar (n : Nat) (c : Char) (rest : List Char) :
    ∃ k, scan n (Text.escapeChar c ++ rest) =
      (scan (n + k) rest).map (.push c (Text.escapeChar c)) := by
  rcases escapeChar_cases c with ⟨e, escape, simple, plain, -⟩ | ⟨control, escape⟩ | ⟨itself, quote,
    backslash, control⟩
  · rw [escape]
    exact ⟨2, scan_simple n rest simple plain⟩
  · refine ⟨6, ?_⟩
    simp only [escape, Text.hexByte, List.cons_append, List.nil_append, scan,
      unicodeEscape?_control control]
  · rw [itself]
    exact ⟨c.utf8Size, scan_raw n rest quote backslash control⟩

/-- A quoted text is read back up to its closing quote. -/
theorem scan_quoted (n : Nat) (cs rest : List Char) :
    scan n (cs.flatMap Text.escapeChar ++ '"' :: rest) =
      .ok ⟨cs, cs.flatMap Text.escapeChar ++ ['"'], rest⟩ := by
  induction cs generalizing n with
  | nil => rfl
  | cons c cs ih =>
    obtain ⟨k, hk⟩ := scan_escapeChar n c (cs.flatMap Text.escapeChar ++ '"' :: rest)
    rw [List.flatMap_cons, List.append_assoc, hk, ih]
    simp [Except.map, Reading.push]

end StringLiteral

theorem not_isDigit_of_isNameStart {c : Char} (h : isNameStart c) : c.isDigit = false := by
  unfold isNameStart Char.isAlpha Char.isUpper Char.isLower at h
  simp only [Bool.or_eq_true, beq_iff_eq, Bool.and_eq_true, decide_eq_true_eq, ge_iff_le,
    UInt32.le_iff_toNat_le] at h
  have hd : ¬c.isDigit := by
    rw [Char.isDigit_iff_toNat]
    rintro ⟨h0, h9⟩
    rcases h with rfl | ⟨h, -⟩ | ⟨h, -⟩
    · exact absurd h9 (by decide)
    · exact absurd (Nat.le_trans h h9) (by decide)
    · exact absurd (Nat.le_trans h h9) (by decide)
  simpa using hd

private theorem starts_of_isDigit {c : Char} (h : c.isDigit) (cs : List Char) :
    Number.starts (c :: cs) := by
  unfold Number.starts
  split
  · rename_i he; rw [(List.cons.inj he).1] at h; exact absurd h (by decide)
  · rename_i he; rw [← (List.cons.inj he).1]; exact h
  · rename_i he; simp at he

theorem starts_eq_isDigit {c : Char} (h : c ≠ '-') (cs : List Char) :
    Number.starts (c :: cs) = c.isDigit := by
  rw [Number.starts]
  intro d ds he
  exact absurd he h

theorem starts_minus (cs : List Char) : Number.starts ('-' :: cs) = cs.head?.any Char.isDigit := by
  cases cs <;> rfl

theorem scanToken_name {text : String} {rest : List Char} (h : IsName text) (hr : Breaks rest) :
    scanToken (text.toList ++ rest) = .ok ⟨.name text, text.toList, rest⟩ := by
  have hall := isNameChar_of_isName h
  obtain ⟨c, cs, htext, hc, -⟩ := h
  obtain ⟨htake, hdrop⟩ := takeWhile_append_of_stop hall fun x hx => (hr x hx).1
  have hname : Scanned.name (text.toList ++ rest) = ⟨.name text, text.toList, rest⟩ := by
    rw [Scanned.name, htake, hdrop, String.ofList_toList]
  have hsharp : c ≠ '#' := by rintro rfl; exact absurd hc (by decide)
  have hquote : c ≠ '"' := by rintro rfl; exact absurd hc (by decide)
  have hminus : c ≠ '-' := by rintro rfl; exact absurd hc (by decide)
  rw [htext, List.cons_append] at hname ⊢
  rw [scanToken, if_neg hsharp, if_neg hquote, starts_eq_isDigit hminus,
    not_isDigit_of_isNameStart hc, if_neg Bool.false_ne_true, if_pos hc, hname]

/-- A number starts with a digit or with a minus sign, which a digit follows. -/
theorem starts_append {text : String} {isFloat : Bool} (h : IsNumber text isFloat)
    (rest : List Char) :
    ∃ c cs, text.toList ++ rest = c :: cs ∧ c ≠ '#' ∧ c ≠ '"' ∧ Number.starts (c :: cs) := by
  obtain ⟨s, w, f, e, htext, hs, hw, -⟩ := h
  have hdigit := Number.head_of_isWhole hw (f ++ (e ++ rest))
  have hne : w ≠ [] := by
    rcases hw with rfl | ⟨hd, -⟩
    · exact List.cons_ne_nil _ _
    · exact hd.1
  obtain ⟨d, ds, rfl⟩ := List.exists_cons_of_ne_nil hne
  have hd : d.isDigit := hdigit d (by simp)
  rcases hs with rfl | rfl
  · refine ⟨d, ds ++ (f ++ (e ++ rest)), by simp [htext], ?_, ?_, starts_of_isDigit hd _⟩
    · rintro rfl; exact absurd hd (by decide)
    · rintro rfl; exact absurd hd (by decide)
  · refine ⟨'-', d :: (ds ++ (f ++ (e ++ rest))), by simp [htext], by decide, by decide, ?_⟩
    rw [starts_minus, List.head?_cons]
    exact hd

theorem scanToken_number {text : String} {isFloat : Bool} {rest : List Char}
    (h : IsNumber text isFloat) (hr : Breaks rest) :
    scanToken (text.toList ++ rest) =
      .ok ⟨if isFloat then .float text else .int text, text.toList, rest⟩ := by
  have hscan := Number.scan_append h hr
  obtain ⟨c, cs, htext, hsharp, hquote, hstarts⟩ := starts_append h rest
  have hnumber : Scanned.number (text.toList ++ rest) =
      .ok ⟨if isFloat then .float text else .int text, text.toList, rest⟩ := by
    simp only [Scanned.number, hscan, bind, Except.bind, pure, Except.pure, String.ofList_toList]
  rw [htext] at hnumber ⊢
  rw [scanToken, if_neg hsharp, if_neg hquote, if_pos hstarts, hnumber]

theorem scanToken_quote (text : String) (rest : List Char) :
    scanToken ((Text.quote text).toList ++ rest) =
      .ok ⟨.string text, (Text.quote text).toList, rest⟩ := by
  have hscan := StringLiteral.scan_quoted 1 text.toList rest
  have htext : (Text.quote text).toList ++ rest =
      '"' :: (text.toList.flatMap Text.escapeChar ++ '"' :: rest) := by
    simp [Text.quote]
  rw [htext, scanToken, if_neg (by decide), if_pos rfl]
  simp only [Scanned.string, hscan, bind, Except.bind, pure, Except.pure, String.ofList_toList]
  simp [Text.quote]

theorem scanToken_punctuator (p : Punctuator) {rest : List Char}
    (h : p = .dash → ∀ c ∈ rest.head?, c.isDigit = false) :
    scanToken (p.char :: rest) = .ok ⟨.punctuator p, [p.char], rest⟩ := by
  have hstarts : Number.starts (p.char :: rest) = false := by
    by_cases hp : p = .dash
    · subst hp
      rw [show Punctuator.dash.char = '-' from rfl, starts_minus]
      cases rest with
      | nil => rfl
      | cons c cs => exact h rfl c rfl
    · have hminus : p.char ≠ '-' := by cases p <;> first | decide | exact absurd rfl hp
      rw [starts_eq_isDigit hminus]
      cases p <;> decide
  have hplain : p.char ≠ '#' ∧ p.char ≠ '"' ∧ isNameStart p.char = false := by cases p <;> decide
  rw [scanToken, if_neg hplain.1, if_neg hplain.2.1, hstarts, if_neg Bool.false_ne_true, hplain.2.2,
    if_neg Bool.false_ne_true, Punctuator.ofChar?_char]

/-- Up to its first CR a line holds no line break. -/
theorem Text.endsLine_of_mem_beforeReturn {line : List Char} (hn : '\n' ∉ line) :
    ∀ c ∈ Text.beforeReturn line, (!Ignored.endsLine c) = true := by
  intro c hc
  have noFeed : c ≠ '\n' := fun he => hn (he ▸ List.takeWhile_subset _ hc)
  have noReturn : (c != '\r') = true := List.all_eq_true.1 List.all_takeWhile c hc
  simp_all [Ignored.endsLine]

/-- From its first CR on, or from the line feed after it, a line starts with a line break. -/
theorem Text.endsLine_head_fromReturn (line rest : List Char) :
    ∀ c ∈ (Text.fromReturn line ++ '\n' :: rest).head?, (!Ignored.endsLine c) = false := by
  intro c hc
  cases hreturn : Text.fromReturn line with
  | nil =>
    rw [hreturn] at hc
    obtain rfl : '\n' = c := Option.some.inj hc
    rfl
  | cons d ds =>
    rw [hreturn] at hc
    obtain rfl : d = c := Option.some.inj hc
    have hd := List.head?_dropWhile_not (fun c => c != '\r') line
    rw [← Text.fromReturn, hreturn] at hd
    simp_all [Ignored.endsLine]

/-- A line of a description behind two sharps is read up to its first CR, or to the line
feed after it. -/
theorem scanToken_description {line : List Char} (hn : '\n' ∉ line) (rest : List Char) :
    ∃ text, Layout.descriptionLine line ++ rest = text ++ (Text.fromReturn line ++ '\n' :: rest) ∧
      scanToken (text ++ (Text.fromReturn line ++ '\n' :: rest)) =
        .ok ⟨.description (String.ofList (Text.trim (Text.beforeReturn line))), text,
          Text.fromReturn line ++ '\n' :: rest⟩ := by
  let text := '#' :: '#' :: if line.isEmpty then [] else ' ' :: Text.beforeReturn line
  have htrim : Text.trim (text.drop 2) = Text.trim (Text.beforeReturn line) := by
    cases line with
    | nil => rfl
    | cons c cs => exact Text.trim_cons_of_isBlank (by decide) _
  have hinside : ∀ c ∈ text, (!Ignored.endsLine c) = true := by
    cases line with
    | nil => exact List.forall_mem_cons.2 ⟨by decide, List.forall_mem_singleton.2 (by decide)⟩
    | cons d ds =>
      simp only [text, List.isEmpty_cons, Bool.false_eq_true, if_false, List.forall_mem_cons]
      exact ⟨by decide, by decide, by decide, Text.endsLine_of_mem_beforeReturn hn⟩
  obtain ⟨htake, hdrop⟩ :=
    takeWhile_append_of_stop hinside (Text.endsLine_head_fromReturn line rest)
  refine ⟨text, ?_, ?_⟩
  · have hwhole := Text.beforeReturn_append_fromReturn line
    cases line with
    | nil => rfl
    | cons c cs =>
      have htext : text ++ Text.fromReturn (c :: cs) = ['#', '#', ' '] ++ (c :: cs) :=
        congrArg (['#', '#', ' '] ++ ·) hwhole
      rw [← List.append_assoc, htext]
      simp [Layout.descriptionLine]
  · change scanToken ('#' :: _) = _
    rw [scanToken, if_pos rfl]
    change Except.ok (Scanned.description (text ++ (Text.fromReturn line ++ '\n' :: rest))) = _
    simp only [Scanned.description, htake, hdrop, htrim]

/-- What a token starts with does not separate tokens. -/
theorem isSeparator_of_scanToken {c : Char} {cs : List Char} {s : Scanned}
    (h : scanToken (c :: cs) = .ok s) : Ignored.isSeparator c = false := by
  cases hc : Ignored.isSeparator c with
  | false => rfl
  | true =>
    have hplain : c ≠ '#' ∧ c ≠ '"' ∧ c ≠ '-' ∧ c.isDigit = false ∧ isNameStart c = false ∧
        Punctuator.ofChar? c = none := by
      simp only [Ignored.isSeparator, Bool.or_eq_true, beq_iff_eq] at hc
      rcases hc with ((((rfl | rfl) | rfl) | rfl) | rfl) | rfl <;> decide
    obtain ⟨hsharp, hquote, hminus, hdigit, hname, hpunct⟩ := hplain
    rw [scanToken, if_neg hsharp, if_neg hquote, starts_eq_isDigit hminus, hdigit,
      hname, hpunct] at h
    simp at h

/-- A token that is read is the one at the head of the text behind what is ignored. -/
theorem readToken_eq_ok {position : Nat} {cs : List Char} {r : Reading} :
    readToken position cs = .ok r ↔ ∃ s, scanToken (Ignored.split false cs).2 = .ok s ∧
      r = ⟨s.token, ⟨position + Text.byteLength (Ignored.split false cs).1,
        position + Text.byteLength (Ignored.split false cs).1 + Text.byteLength s.text⟩,
        (Ignored.split false cs).1, s.rest⟩ := by
  simp only [readToken]
  cases scanToken (Ignored.split false cs).2 with
  | error e => simp
  | ok s => simp [eq_comm]

/-- A fault is the one of the text behind what is ignored. -/
theorem readToken_eq_error {position : Nat} {cs : List Char} {e : SyntaxError} :
    readToken position cs = .error e ↔ ∃ f, scanToken (Ignored.split false cs).2 = .error f ∧
      e = f.shift (position + Text.byteLength (Ignored.split false cs).1) := by
  simp only [readToken]
  cases scanToken (Ignored.split false cs).2 with
  | error f => simp [eq_comm]
  | ok s => simp

end SchemaLang
