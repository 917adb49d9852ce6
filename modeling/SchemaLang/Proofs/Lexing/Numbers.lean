import SchemaLang.Proofs.Lexing.Locality
import SchemaLang.Proofs.Lexing.Tiling

/-!
# Which number stands at a place

Where a digit stands, or a minus sign in front of one, there is a number or a broken one. What makes
a number broken is said here by its text alone, and where nothing does the number is the longest
text there that is one. A minus sign in front of anything else is a token by itself.
-/

namespace SchemaLang

namespace Number

/-- The text starts with a digit. -/
def StartsWithDigit (cs : List Char) : Prop := ∃ d tail, cs = d :: tail ∧ d.isDigit = true

/-- A digit stands here, or a minus sign in front of one. -/
def StandsHere (cs : List Char) : Prop :=
  StartsWithDigit cs ∨ ∃ tail, cs = '-' :: tail ∧ StartsWithDigit tail

/-- Neither digits stand here nor a sign with digits behind it. -/
def LacksExponent (cs : List Char) : Prop :=
  ∀ sign tail, (sign = [] ∨ sign = ['+'] ∨ sign = ['-']) → cs = sign ++ tail → ¬StartsWithDigit tail

/-- The text starts like a number, and then breaks one off. -/
inductive IsBroken : List Char → Prop
  /-- The part before the point is a zero, and a digit follows. -/
  | zero {sign rest : List Char} {d : Char} (signed : sign = [] ∨ sign = ['-'])
    (digit : d.isDigit = true) : IsBroken (sign ++ '0' :: d :: rest)
  /-- Behind the point there is no digit. -/
  | point {sign w rest : List Char} (signed : sign = [] ∨ sign = ['-']) (whole : IsWhole w)
    (none : ¬StartsWithDigit rest) : IsBroken (sign ++ w ++ '.' :: rest)
  /-- Behind the letter of the exponent, and its sign if it has one, there is no digit. -/
  | letter {sign w f rest : List Char} {letter : Char} (signed : sign = [] ∨ sign = ['-'])
    (whole : IsWhole w)
    (fraction : IsFraction f) (exponent : letter = 'e' ∨ letter = 'E') (none : LacksExponent rest) :
    IsBroken (sign ++ w ++ f ++ letter :: rest)

/-- There is no answer but a fault. -/
def Fails {α : Type} (r : Except SyntaxError α) : Prop := ∃ e, r = .error e

variable {n : Nat} {cs rest : List Char} {e : SyntaxError}

private theorem not_fails_ok {α : Type} (a : α) : ¬Fails (.ok a : Except SyntaxError α) :=
  fun ⟨_, h⟩ => nomatch h

private theorem fails_map {α β : Type} {f : α → β} {r : Except SyntaxError α} :
    Fails (r.map f) ↔ Fails r := by
  cases r with
  | error e => exact iff_of_true ⟨e, rfl⟩ ⟨e, rfl⟩
  | ok a => exact iff_of_false (not_fails_ok _) (not_fails_ok _)

/-- One reading after another fails if the first one does, or the other one behind it. -/
theorem fails_bind {α β : Type} {f : α → Except SyntaxError β} {r : Except SyntaxError α} :
    Fails (r >>= f) ↔ Fails r ∨ ∃ a, r = .ok a ∧ Fails (f a) := by
  cases r with
  | error e => exact iff_of_true ⟨e, rfl⟩ (.inl ⟨e, rfl⟩)
  | ok a =>
    refine ⟨fun h => .inr ⟨a, rfl, h⟩, ?_⟩
    rintro (h | ⟨_, h, hf⟩)
    · exact absurd h (not_fails_ok a)
    · exact Except.ok.inj h ▸ hf

private theorem startsWithDigit_cons {d : Char} : StartsWithDigit (d :: cs) ↔ d.isDigit = true := by
  refine ⟨?_, fun h => ⟨d, cs, rfl, h⟩⟩
  rintro ⟨_, _, h, hd⟩
  exact (List.cons.inj h).1 ▸ hd

private theorem not_startsWithDigit_nil : ¬StartsWithDigit [] := fun ⟨_, _, h, _⟩ => nomatch h

private theorem startsWithDigit_of_isWhole {w : List Char} (h : IsWhole w) (rest : List Char) :
    StartsWithDigit (w ++ rest) := by
  have first := head_of_isWhole h rest
  have hne : w ≠ [] := by
    rcases h with rfl | ⟨hd, -⟩
    · exact List.cons_ne_nil _ _
    · exact hd.1
  obtain ⟨d, ds, rfl⟩ := List.exists_cons_of_ne_nil hne
  exact ⟨d, ds ++ rest, rfl, first d rfl⟩

/-- A sign is read up to the first digit. -/
theorem sign_append_digits {signs s digits : List Char} (hsigns : ∀ c ∈ signs, c.isDigit = false)
    (hs : s = [] ∨ ∃ c ∈ signs, s = [c]) (h : StartsWithDigit digits) :
    sign signs (s ++ digits) = (s, digits) := by
  refine sign_append hs fun _ c hc hmem => ?_
  obtain ⟨d, _, rfl, hd⟩ := h
  obtain rfl : d = c := Option.some.inj hc
  rw [hsigns d hmem] at hd
  exact nomatch hd

private theorem sign_minus {s digits : List Char} (hs : s = [] ∨ s = ['-'])
    (h : StartsWithDigit digits) : sign ['-'] (s ++ digits) = (s, digits) :=
  sign_append_digits (List.forall_mem_singleton.2 rfl)
    (hs.imp_right fun hs => ⟨'-', List.mem_singleton_self _, hs⟩) h

private theorem fails_someDigits : Fails (someDigits n cs) ↔ ¬StartsWithDigit cs := by
  cases cs with
  | nil => exact iff_of_true ⟨_, rfl⟩ not_startsWithDigit_nil
  | cons d tail =>
    rw [startsWithDigit_cons, someDigits]
    by_cases hd : d.isDigit = true
    · rw [List.takeWhile_cons_of_pos hd]
      exact iff_of_false (not_fails_ok _) (not_not_intro hd)
    · rw [List.takeWhile_cons_of_neg hd]
      exact iff_of_true ⟨_, rfl⟩ hd

private theorem fails_whole :
    Fails (whole n cs) ↔ (∃ d tail, cs = '0' :: d :: tail ∧ d.isDigit = true) ∨
    ¬StartsWithDigit cs := by
  unfold whole
  split
  · rename_i d tail
    split
    · rename_i hd
      exact iff_of_true ⟨_, rfl⟩ (.inl ⟨d, tail, rfl, hd⟩)
    · rename_i hd
      refine iff_of_false (not_fails_ok _) ?_
      rintro (⟨_, _, h, hd'⟩ | h)
      · exact hd ((List.cons.inj (List.cons.inj h).2).1 ▸ hd')
      · exact h (startsWithDigit_cons.2 rfl)
  · refine iff_of_false (not_fails_ok _) ?_
    rintro (⟨_, _, h, -⟩ | h)
    · exact nomatch h
    · exact h (startsWithDigit_cons.2 rfl)
  · rename_i hpair hsingle
    rw [fails_someDigits]
    refine ⟨.inr, ?_⟩
    rintro (⟨d, tail, h, -⟩ | h)
    · exact absurd h (hpair d tail)
    · exact h

private theorem fails_fraction :
    Fails (fraction n cs) ↔ ∃ tail, cs = '.' :: tail ∧ ¬StartsWithDigit tail := by
  unfold fraction
  split
  · rename_i tail
    rw [fails_map, fails_someDigits]
    exact ⟨fun h => ⟨tail, rfl, h⟩, fun ⟨_, h, hd⟩ => (List.cons.inj h).2 ▸ hd⟩
  · rename_i hpoint
    exact iff_of_false (not_fails_ok _) fun ⟨tail, h, _⟩ => hpoint tail h

/-- The digits of an exponent start behind its sign. -/
theorem lacksExponent_iff : LacksExponent cs ↔ ¬StartsWithDigit (sign ['+', '-'] cs).2 := by
  have append := append_of_sign ['+', '-'] cs
  constructor
  · intro h
    refine h _ _ ?_ append.symm
    simpa using sign_cases ['+', '-'] cs
  · rintro h s tail hs rfl digit
    refine h ?_
    rwa [sign_append_digits (by simp) (by simpa using hs) digit]

private theorem fails_exponent : Fails (exponent n cs) ↔
    ∃ letter tail, cs = letter :: tail ∧ (letter = 'e' ∨ letter = 'E') ∧ LacksExponent tail := by
  cases cs with
  | nil =>
    refine iff_of_false (not_fails_ok _) ?_
    rintro ⟨letter, tail, h, -⟩
    exact List.cons_ne_nil letter tail h.symm
  | cons c tail =>
    rw [exponent]
    by_cases hc : c = 'e' ∨ c = 'E'
    · rw [if_pos hc]
      refine fails_map.trans (fails_someDigits.trans (lacksExponent_iff.symm.trans ?_))
      refine ⟨fun h => ⟨c, tail, rfl, hc, h⟩, ?_⟩
      rintro ⟨letter, tail', h, -, lacks⟩
      exact (List.cons.inj h).2 ▸ lacks
    · rw [if_neg hc]
      refine iff_of_false (not_fails_ok _) ?_
      rintro ⟨letter, tail', h, hl, -⟩
      exact hc ((List.cons.inj h).1 ▸ hl)

private theorem starts_iff : starts cs = true ↔ StandsHere cs := by
  cases cs with
  | nil =>
    refine iff_of_false Bool.false_ne_true ?_
    rintro (h | ⟨_, h, -⟩)
    · exact not_startsWithDigit_nil h
    · exact nomatch h
  | cons c tail =>
    by_cases hc : c = '-'
    · subst hc
      have minus : ¬StartsWithDigit ('-' :: tail) := by rw [startsWithDigit_cons]; decide
      rw [starts_minus]
      constructor
      · intro h
        cases tail with
        | nil => exact nomatch h
        | cons d ds => exact .inr ⟨_, rfl, d, ds, rfl, h⟩
      · rintro (h | ⟨_, h, d, ds, rfl, hdigit⟩)
        · exact absurd h minus
        · rw [(List.cons.inj h).2]
          exact hdigit
    · rw [starts_eq_isDigit hc, StandsHere, startsWithDigit_cons]
      refine ⟨.inl, ?_⟩
      rintro (h | ⟨_, h, -⟩)
      · exact h
      · exact absurd (List.cons.inj h).1 hc

/-- Where a number stands there is a sign or none, and then a digit. -/
theorem StandsHere.exists_sign (h : StandsHere cs) :
    ∃ s digits, cs = s ++ digits ∧ (s = [] ∨ s = ['-']) ∧ StartsWithDigit digits := by
  rcases h with h | ⟨tail, rfl, h⟩
  · exact ⟨[], cs, rfl, .inl rfl, h⟩
  · exact ⟨['-'], tail, rfl, .inr rfl, h⟩

/-- A number is not read to its end where one of its parts is not. -/
theorem fails_scan_iff_parts {s digits : List Char} (hs : sign ['-'] cs = (s, digits)) :
    Fails (scan cs) ↔ Fails (whole s.length digits) ∨
    ∃ w behind, whole s.length digits = .ok (w, behind) ∧
      (Fails (fraction (s.length + w.length) behind) ∨
        ∃ f behind', fraction (s.length + w.length) behind = .ok (f, behind') ∧
          Fails (exponent (s.length + w.length + f.length) behind')) := by
  have last {α β : Type} {r : Except SyntaxError α} {f : α → β} :
      Fails (r >>= fun a => pure (f a)) ↔ Fails r := by
    rw [fails_bind]
    exact ⟨fun h => h.resolve_right fun ⟨_, _, hf⟩ => not_fails_ok _ hf, .inl⟩
  simp only [scan, hs, fails_bind (r := whole _ _), fails_bind (r := fraction _ _),
    last, Prod.exists]

/-- A number that was begun is not read to its end if and only if it is broken. -/
theorem fails_scan (h : StandsHere cs) : Fails (scan cs) ↔ IsBroken cs := by
  constructor
  · obtain ⟨s, digits, rfl, signed, digit⟩ := h.exists_sign
    rw [fails_scan_iff_parts (sign_minus signed digit)]
    rintro (hw | ⟨w, behind, hw, hf | ⟨f, behind', hf, he⟩⟩)
    · rcases fails_whole.1 hw with ⟨d, tail, rfl, hd⟩ | none
      · exact .zero signed hd
      · exact absurd digit none
    · obtain ⟨tail, rfl, none⟩ := fails_fraction.1 hf
      rw [← (append_of_whole hw).1, ← List.append_assoc]
      exact .point signed (isWhole_of_whole hw) none
    · obtain ⟨letter, tail, rfl, hletter, none⟩ := fails_exponent.1 he
      rw [← (append_of_whole hw).1, ← append_of_fraction hf, ← List.append_assoc,
        ← List.append_assoc]
      exact .letter signed (isWhole_of_whole hw) (isFraction_of_fraction hf) hletter none
  · intro broken
    cases broken with
    | @zero s rest d signed hd =>
      rw [fails_scan_iff_parts (sign_minus signed (startsWithDigit_cons.2 rfl))]
      exact .inl (fails_whole.2 (.inl ⟨d, rest, rfl, hd⟩))
    | @point s w rest signed hw none =>
      have digit : StartsWithDigit (w ++ '.' :: rest) := startsWithDigit_of_isWhole hw _
      have hwhole : whole s.length (w ++ '.' :: rest) = .ok (w, '.' :: rest) :=
        whole_append hw (by simp)
      rw [List.append_assoc, fails_scan_iff_parts (sign_minus signed digit)]
      exact .inr ⟨w, _, hwhole, .inl (fails_fraction.2 ⟨rest, rfl, none⟩)⟩
    | @letter s w f rest letter signed hw hf hletter none =>
      have digit : StartsWithDigit (w ++ (f ++ letter :: rest)) := startsWithDigit_of_isWhole hw _
      have plain : letter.isDigit = false ∧ letter ≠ '.' := by
        rcases hletter with rfl | rfl
        · decide
        · decide
      have stops : ∀ c ∈ (f ++ letter :: rest).head?, c.isDigit = false := by
        rcases hf with rfl | ⟨ds, rfl, -⟩
        · simpa using plain.1
        · simp
      rw [List.append_assoc, List.append_assoc, fails_scan_iff_parts (sign_minus signed digit)]
      refine .inr ⟨w, _, whole_append hw stops, .inr ⟨f, letter :: rest, ?_, ?_⟩⟩
      · exact fraction_append hf (by simpa using plain)
      · exact fails_exponent.2 ⟨letter, rest, rfl, hletter, none⟩

/-- The text is a number that the other text starts with, and none that it starts with is longer. -/
structure IsLongest (cs text : List Char) : Prop where
  starts : text <+: cs
  isNumber : ∃ isFloat, IsNumber (String.ofList text) isFloat
  longest : ∀ text' isFloat, text' <+: cs → IsNumber (String.ofList text') isFloat →
    text'.length ≤ text.length

private theorem scan_of_isNumber {text : List Char} {isFloat : Bool}
    (h : IsNumber (String.ofList text) isFloat) : scan text = .ok (text, isFloat, []) := by
  simpa using scan_append h .nil

private theorem isNumber_iff_of_scan {text : List Char} {isFloat : Bool}
    (h : scan cs = .ok (text, isFloat, rest)) (isFloat' : Bool) :
    IsNumber (String.ofList text) isFloat' ↔ isFloat' = isFloat := by
  have is := isNumber_of_scan h
  refine ⟨fun is' => ?_, fun same => same ▸ is⟩
  have read := (scan_of_isNumber is').symm.trans (scan_of_isNumber is)
  exact (Prod.mk.inj (Prod.mk.inj (Except.ok.inj read)).2).1

/-- What is read as a number is the longest one there: a longer one would be read in its place. -/
theorem isLongest_of_scan {text : List Char} {isFloat : Bool}
    (h : scan cs = .ok (text, isFloat, rest)) : IsLongest cs text := by
  obtain ⟨append, -⟩ := append_of_scan h
  refine ⟨⟨rest, append⟩, ⟨isFloat, isNumber_of_scan h⟩, fun text' isFloat' starts is => ?_⟩
  by_contra longer
  obtain ⟨more, rfl⟩ : text <+: text' :=
    List.prefix_of_prefix_length_le ⟨rest, append⟩ starts (by omega)
  obtain ⟨behind, hbehind⟩ := starts
  obtain rfl : more ++ behind = rest := by simpa [← append] using hbehind
  have read := (scan_of_isNumber is).symm.trans (scan_local h (.of_append more behind))
  have none : [] = more := (Prod.mk.inj (Prod.mk.inj (Except.ok.inj read)).2).2
  rw [← none, List.append_nil] at longer
  exact longer (Nat.le_refl _)

end Number

namespace Number.StandsHere

variable {position : Nat} {cs : List Char} (h : Number.StandsHere cs)

include h

theorem split : Ignored.split false cs = ([], cs) := by
  rcases h with ⟨d, tail, rfl, hd⟩ | ⟨tail, rfl, -⟩
  · refine Ignored.split_of_stop (fun separates => ?_) fun sharp => ?_
    · simp only [Ignored.isSeparator, Bool.or_eq_true, beq_iff_eq] at separates
      rcases separates with ((((rfl | rfl) | rfl) | rfl) | rfl) | rfl <;>
        exact absurd hd (by decide)
    · rw [sharp.1] at hd
      exact absurd hd (by decide)
  · exact Ignored.split_of_stop (by decide) fun sharp => absurd sharp.1 (by decide)

private theorem readToken_of_fails {e : SyntaxError} (hscan : Number.scan cs = .error e) :
    readToken position cs = .error (e.shift position) := by
  obtain ⟨c, tail, rfl, hsharp, hquote⟩ := exists_cons_of_starts (Number.starts_iff.2 h)
  have scanned : scanToken (c :: tail) = .error e := by
    rw [scanToken, if_neg hsharp, if_neg hquote, if_pos (Number.starts_iff.2 h),
      Scanned.number, hscan]
    rfl
  rw [readToken_of_plain h.split, scanned]

private theorem readToken_of_scan {text rest : List Char} {isFloat : Bool}
    (hscan : Number.scan cs = .ok (text, isFloat, rest)) : readToken position cs =
      .ok ⟨if isFloat then .float (String.ofList text) else .int (String.ofList text),
        ⟨position, position + Text.byteLength text⟩, [], rest⟩ := by
  rw [readToken_of_plain h.split, (Scans.number (Number.starts_iff.2 h) hscan).scanToken]

end Number.StandsHere

/-- Numbers are read exactly. Where one stands, its fault is reported if and only if it is broken,
and otherwise the longest text that is a number is read, as a float if and only if it has a fraction
or an exponent. Any other minus sign is a token of one byte. -/
theorem Source.tokenAt_number {s : Source} {before cs : List Char} (hs : s.chars = before ++ cs) :
    (Number.StandsHere cs →
      ((∃ e, s.tokenAt (Text.byteLength before) = .error e ∧ e.cause.category = .invalidNumber) ↔
        Number.IsBroken cs) ∧
      (¬Number.IsBroken cs → ∃ text rest isFloat, cs = text ++ rest ∧ Number.IsLongest cs text ∧
        (∀ isFloat', IsNumber (String.ofList text) isFloat' ↔ isFloat' = isFloat) ∧
        s.tokenAt (Text.byteLength before) =
          .ok ⟨if isFloat then .float (String.ofList text) else .int (String.ofList text),
            ⟨Text.byteLength before, Text.byteLength before + Text.byteLength text⟩, [], rest⟩)) ∧
    (∀ tail, cs = '-' :: tail → ¬Number.StartsWithDigit tail →
      s.tokenAt (Text.byteLength before) =
        .ok ⟨.punctuator .dash, ⟨Text.byteLength before, Text.byteLength before + 1⟩,
          [], tail⟩) := by
  rw [Source.tokenAt_append hs]
  refine ⟨fun stands => ?_, ?_⟩
  · cases hscan : Number.scan cs with
    | error e =>
      have broken := (Number.fails_scan stands).1 ⟨e, hscan⟩
      have category := (Number.breaksOff_of_scan hscan).1
      rw [stands.readToken_of_fails hscan]
      exact ⟨iff_of_true ⟨_, rfl, category⟩ broken, absurd broken⟩
    | ok read =>
      obtain ⟨text, isFloat, rest⟩ := read
      have whole : ¬Number.IsBroken cs := by
        rw [← Number.fails_scan stands, hscan]
        exact Number.not_fails_ok _
      rw [stands.readToken_of_scan hscan]
      refine ⟨iff_of_false ?_ whole, fun _ => ⟨text, rest, isFloat, ?_, ?_, ?_, rfl⟩⟩
      · rintro ⟨e, h, -⟩
        cases h
      · exact (Number.append_of_scan hscan).1.symm
      · exact Number.isLongest_of_scan hscan
      · exact Number.isNumber_iff_of_scan hscan
  · rintro tail rfl plain
    have next : ∀ c ∈ tail.head?, c.isDigit = false := by
      intro c hc
      obtain ⟨ds, rfl⟩ := List.head?_eq_some_iff.1 hc
      simpa [Number.startsWithDigit_cons] using plain
    have scanned := scanToken_punctuator .dash fun _ => next
    have unskipped : Ignored.split false (Punctuator.dash.char :: tail) =
        ([], Punctuator.dash.char :: tail) :=
      Ignored.split_of_stop (by decide) fun sharp => absurd sharp.1 (by decide)
    have read : readToken (Text.byteLength before) (Punctuator.dash.char :: tail) = _ :=
      readToken_of_plain unskipped
    rw [scanned] at read
    exact read

/-- A number up to the letter behind its exponent, a zero in front of a digit, and the minus
sign of an arrow. -/
theorem Source.tokenAt_number_list :
    let s : Source := ⟨"[-0.50E+7x 01 -> ]", "GraphQL"⟩
    (s.chars = ['['] ++ "-0.50E+7x 01 -> ]".toList ∧ Number.StandsHere "-0.50E+7x 01 -> ]".toList ∧
      ¬Number.IsBroken "-0.50E+7x 01 -> ]".toList ∧
      ∃ text rest isFloat, "-0.50E+7x 01 -> ]".toList = text ++ rest ∧
        Number.IsLongest "-0.50E+7x 01 -> ]".toList text ∧
        (∀ isFloat', IsNumber (String.ofList text) isFloat' ↔ isFloat' = isFloat) ∧
        s.tokenAt 1 =
          .ok ⟨if isFloat then .float (String.ofList text) else .int (String.ofList text),
            ⟨1, 1 + Text.byteLength text⟩, [], rest⟩) ∧
    (s.chars = "[-0.50E+7x ".toList ++ "01 -> ]".toList ∧ Number.StandsHere "01 -> ]".toList ∧
      Number.IsBroken "01 -> ]".toList ∧ ∃ e, s.tokenAt 11 = .error e ∧
      e.cause.category = .invalidNumber) ∧
    (s.chars = "[-0.50E+7x 01 ".toList ++ "-> ]".toList ∧ ¬Number.StartsWithDigit "> ]".toList ∧
      s.tokenAt 14 = .ok ⟨.punctuator .dash, ⟨14, 15⟩, [], "> ]".toList⟩) := by
  intro s
  refine ⟨?_, ?_, ?_⟩
  · have hs : s.chars = ['['] ++ "-0.50E+7x 01 -> ]".toList := by decide
    have stands : Number.StandsHere "-0.50E+7x 01 -> ]".toList := Number.starts_iff.1 (by decide)
    have whole : ¬Number.IsBroken "-0.50E+7x 01 -> ]".toList := by
      rw [← Number.fails_scan stands]
      exact Number.not_fails_ok ("-0.50E+7".toList, true, "x 01 -> ]".toList)
    exact ⟨hs, stands, whole, ((Source.tokenAt_number hs).1 stands).2 whole⟩
  · have hs : s.chars = "[-0.50E+7x ".toList ++ "01 -> ]".toList := by decide
    have stands : Number.StandsHere "01 -> ]".toList := Number.starts_iff.1 (by decide)
    have broken : Number.IsBroken ([] ++ '0' :: '1' :: " -> ]".toList) :=
      .zero (.inl rfl) (by decide)
    exact ⟨hs, stands, broken, ((Source.tokenAt_number hs).1 stands).1.2 broken⟩
  · have hs : s.chars = "[-0.50E+7x 01 ".toList ++ "-> ]".toList := by decide
    have plain : ¬Number.StartsWithDigit "> ]".toList := by
      show ¬Number.StartsWithDigit ('>' :: _)
      rw [Number.startsWithDigit_cons]
      decide
    exact ⟨hs, plain, (Source.tokenAt_number hs).2 _ rfl plain⟩

end SchemaLang
