import SchemaLang.Proofs.Carets
import SchemaLang.Proofs.Viability.Causes

/-!
# When the short form of an error is one line

The short form of an error is a single line unless its message breaks it. A message that names a
character by its quoted form, or a token by its sort, has no line break in it. What it takes over
from the text as it stands may have one: the value of a string that does not fit, the character
where a digit is wanted, and the text that was taken for an escape.
-/

namespace SchemaLang

namespace Text

/-- A line ends within the text. -/
def HasBreak (text : String) : Prop := ∃ c ∈ text.toList, Ignored.endsLine c = true

-- There are finitely many characters: without its name, the instance found would go
-- through all of them.
instance (text : String) : Decidable (HasBreak text) :=
  List.decidableBEx (fun c => Ignored.endsLine c = true) text.toList

private theorem hasBreak_append {a b : String} : HasBreak (a ++ b) ↔ HasBreak a ∨ HasBreak b := by
  simp only [HasBreak, String.toList_append, List.mem_append, or_and_right, exists_or]

private theorem hasBreak_singleton {c : Char} :
    HasBreak (String.singleton c) ↔ Ignored.endsLine c = true := by
  simp [HasBreak]

/-- What has no break itself puts none around a text. -/
theorem hasBreak_between {before text after : String} (hbefore : ¬HasBreak before)
    (hafter : ¬HasBreak after) : HasBreak (before ++ text ++ after) ↔ HasBreak text := by
  rw [hasBreak_append, hasBreak_append, or_iff_left hafter, or_iff_right hbefore]

private theorem not_hasBreak_of_forall {text : String} {p : Char → Bool}
    (h : ∀ c ∈ text.toList, p c = true) (hp : p '\n' = false ∧ p '\r' = false) :
    ¬HasBreak text := by
  rintro ⟨c, hc, ends⟩
  rcases Ignored.endsLine_iff.1 ends with rfl | rfl
  · exact absurd (hp.1.symm.trans (h _ hc)) Bool.false_ne_true
  · exact absurd (hp.2.symm.trans (h _ hc)) Bool.false_ne_true

private theorem not_hasBreak_repr (n : Nat) : ¬HasBreak n.repr := by
  refine not_hasBreak_of_forall (p := Char.isDigit) (fun c hc => ?_) (by decide)
  rw [Nat.toList_repr] at hc
  exact Nat.isDigit_of_mem_toDigits (by decide) (by decide) hc

end Text

open Text

variable {s : Source} {e : SyntaxError} {t : Token} {cause : Cause} {after : List Char}

private theorem Location.not_hasBreak_text (l : Location) : ¬HasBreak l.text := by
  have colon : ¬HasBreak ":" := by decide
  simp only [text, toString, hasBreak_append, not_or]
  exact ⟨⟨not_hasBreak_repr l.line, colon⟩, not_hasBreak_repr l.column⟩

/-- A character is shown without a break, since controls are shown by their numbers. -/
theorem not_hasBreak_describeChar (c : Char) : ¬HasBreak (describeChar c) := by
  have controls : ∀ n < 32, ¬HasBreak ("\"\\u" ++ controlNumber (Char.ofNat n) ++ "\"") := by
    decide +kernel
  unfold describeChar
  split
  · rename_i control
    rcases control with below | rfl
    · rw [← Char.ofNat_toNat c]
      exact controls c.toNat below
    · decide +kernel
  · rename_i other
    rw [hasBreak_between (by decide) (by decide), hasBreak_singleton]
    intro ends
    rcases Ignored.endsLine_iff.1 ends with rfl | rfl
    · exact other (.inl (by decide))
    · exact other (.inl (by decide))

private theorem Expectation.IsProper.not_hasBreak_text {wanted : Expectation}
    (h : wanted.IsProper) : ¬HasBreak wanted.text := by
  cases wanted with
  | punctuator p => cases p <;> decide
  | keyword word =>
    have plain : ¬HasBreak word := not_hasBreak_of_forall (isNameChar_of_isName h) (by decide)
    exact mt (hasBreak_between (by decide) (by decide)).1 plain
  | name => decide
  | endOfInput => decide

private theorem Token.not_hasBreak_sort (t : Token) : ¬HasBreak t.sort := by
  cases t with
  | punctuator p => cases p <;> decide
  | _ =>
    simp only [sort]
    decide

private theorem Token.hasBreak_describe {text : String} (h : t.payload? = some text) :
    HasBreak t.describe ↔ HasBreak text := by
  have front : ¬HasBreak (t.sort ++ " \"") := by
    rw [hasBreak_append, not_or]
    exact ⟨t.not_hasBreak_sort, by decide⟩
  rw [describe, h]
  exact hasBreak_between front (by decide)

/-- Of the tokens only strings can have a break in what names them. -/
theorem Token.hasBreak_describe_iff (valid : t.IsValid) (plain : t.isDescription = false) :
    HasBreak t.describe ↔ ∃ value, t = .string value ∧ HasBreak value := by
  cases t with
  | punctuator p => exact iff_of_false (not_hasBreak_sort (.punctuator p)) nofun
  | name text =>
    have inLine : ¬HasBreak text := not_hasBreak_of_forall (isNameChar_of_isName valid) (by decide)
    exact iff_of_false (mt (hasBreak_describe rfl).1 inLine) nofun
  | int text | float text =>
    have inLine : ¬HasBreak text :=
      not_hasBreak_of_forall (isNumberChar_of_isNumber valid) (by decide)
    exact iff_of_false (mt (hasBreak_describe rfl).1 inLine) nofun
  | string value =>
    refine (hasBreak_describe rfl).trans ⟨fun broken => ⟨value, rfl, broken⟩, ?_⟩
    rintro ⟨_, same, broken⟩
    cases same
    exact broken
  | description => cases plain
  | endOfInput => exact iff_of_false (not_hasBreak_sort .endOfInput) nofun

/-- The category of a token that does not fit is a misfit. -/
theorem Category.isMisfit_ofMisfit (expected : List String) (t : Token) :
    (Category.ofMisfit expected t).IsMisfit := by
  cases t <;> exact trivial

/-- A message about a token breaks the line if it names a string with a break in it. -/
theorem Cause.IsAbout.hasBreak_message_iff (h : cause.IsAbout t) (valid : t.IsValid)
    (plain : t.isDescription = false) :
    HasBreak cause.message ↔ cause.category.IsMisfit ∧ ∃ value, t = .string value ∧
    HasBreak value := by
  rw [← Token.hasBreak_describe_iff valid plain]
  cases cause with
  | expected wanted found =>
    obtain ⟨proper, rfl⟩ := h
    have misfit : (expected wanted found).category.IsMisfit :=
      Category.isMisfit_ofMisfit [wanted.text] found
    rw [and_iff_right misfit]
    have front : ¬HasBreak ("Expected " ++ wanted.text ++ ", found ") := by
      rw [hasBreak_between (by decide) (by decide)]
      exact proper.not_hasBreak_text
    exact hasBreak_append.trans (or_iff_right front)
  | unexpected found =>
    obtain rfl := h
    have misfit : (unexpected found).category.IsMisfit := Category.isMisfit_ofMisfit [] found
    rw [and_iff_right misfit]
    exact hasBreak_append.trans (or_iff_right (by decide))
  | nestingTooDeep limit =>
    refine iff_of_false ?_ fun misfit => misfit.1
    exact mt (hasBreak_between (by decide) (by decide)).1 (not_hasBreak_repr limit)
  | _ => exact h.elim

/-- The category of a fault at a token. -/
theorem Cause.IsAbout.category_cases (h : cause.IsAbout t) :
    cause.category.IsMisfit ∨ ∃ limit, cause.category = .nestingTooDeep limit := by
  cases cause with
  | expected wanted found => exact .inl (Category.isMisfit_ofMisfit [wanted.text] found)
  | unexpected found => exact .inl (Category.isMisfit_ofMisfit [] found)
  | nestingTooDeep limit => exact .inr ⟨limit, rfl⟩
  | _ => exact h.elim

/-- A message about the text breaks the line where a digit is wanted, or if it takes over a
broken escape. -/
theorem Cause.IsAt.hasBreak_message_iff (h : cause.IsAt after) :
    HasBreak cause.message ↔
      (cause.category = .invalidNumber ∧ ∃ c ∈ after.head?, Ignored.endsLine c = true) ∨
        ∃ written, cause.category = .invalidEscape written ∧ written.toList <+: after ∧
        HasBreak written := by
  cases cause with
  | unexpectedCharacter c | invalidCharacterInString c =>
    refine iff_of_false
      (mt (hasBreak_between (by decide) (by decide)).1 (not_hasBreak_describeChar c)) ?_
    simp [category]
  | unterminatedString length =>
    refine iff_of_false (show ¬HasBreak "Unterminated string." by decide) ?_
    simp [category]
  | invalidEscape written =>
    have shown : HasBreak (message (.invalidEscape written)) ↔ HasBreak written :=
      hasBreak_between (by decide) (by decide)
    have here : written.toList <+: after := h
    simp [shown, category, here]
  | leadingZero next =>
    have digit : ¬Ignored.endsLine next = true := by
      intro ends
      rcases Ignored.endsLine_iff.1 ends with rfl | rfl
      · cases h.2
      · cases h.2
    have shown : ¬HasBreak (message (.leadingZero next)) :=
      mt (hasBreak_between (by decide) (by decide)).1 (mt hasBreak_singleton.1 digit)
    refine iff_of_false shown ?_
    simp [category, h.1, digit]
  | missingDigit found =>
    obtain rfl : after.head? = found := h
    cases after with
    | nil =>
      refine iff_of_false (show ¬HasBreak "Invalid number, expected digit but got: <EOF>." by
        decide) ?_
      simp [category]
    | cons c after =>
      refine (hasBreak_between (by decide) (by decide)).trans (hasBreak_singleton.trans ?_)
      simp [category]
  | _ => exact h.elim

/-- What puts a break into the message of an error. -/
inductive Source.BreaksMessage (s : Source) (e : SyntaxError) : Prop
  /-- A string that does not fit stands for a text with a break. -/
  | string {r : Reading} {value : String} (misfit : e.cause.category.IsMisfit)
    (read : s.tokenAt e.position = .ok r) (token : r.token = .string value)
    (broken : HasBreak value)
  /-- A line ends where a number wants a digit. -/
  | digit {c : Char} (number : e.cause.category = .invalidNumber)
    (here : (dropBytes e.position s.chars).head? = some c) (broken : Ignored.endsLine c = true)
  /-- A line ends within the text that was taken for an escape. -/
  | escape {written : String} (escape : e.cause.category = .invalidEscape written)
    (here : written.toList <+: dropBytes e.position s.chars) (broken : HasBreak written)

/-- The short form of an error is one line exactly if nothing that its message takes over from the
text has a break. -/
theorem hasBreak_oneLine_iff (h : s.Raises e) (hname : ¬HasBreak s.name) :
    HasBreak (e.diagnostic s).oneLine ↔ s.BreaksMessage e := by
  have front :
      ¬HasBreak ("Syntax Error " ++ s.name ++ " (" ++ (e.diagnostic s).location.text ++ ") ") := by
    simp only [hasBreak_append, not_or]
    exact ⟨⟨⟨⟨by decide, hname⟩, by decide⟩, Location.not_hasBreak_text _⟩, by decide⟩
  have message : HasBreak (e.diagnostic s).oneLine ↔ HasBreak e.cause.message :=
    hasBreak_append.trans (or_iff_right front)
  rw [message]
  cases h.meets with
  | lexeme l mem position about =>
    obtain ⟨r, read, token⟩ := Source.exists_tokenAt_of_mem_lexemes mem
    rw [about.hasBreak_message_iff (Source.isValid_of_mem_lexemes mem).token
      (Source.isDescription_of_mem_lexemes mem)]
    constructor
    · rintro ⟨misfit, value, string, broken⟩
      exact .string misfit (position ▸ read) (token.trans string) broken
    · intro breaks
      cases breaks with
      | string misfit read' string broken =>
        rw [position, read] at read'
        cases read'
        exact ⟨misfit, _, token.symm.trans string, broken⟩
      | digit number =>
        have misplaced := about.category_cases
        simp [number, Category.IsMisfit] at misplaced
      | escape escape =>
        have misplaced := about.category_cases
        simp [escape, Category.IsMisfit] at misplaced
  | text f hs read position cause =>
    have told := isAt_of_readToken hs read
    rw [← position, ← cause] at told
    rw [told.hasBreak_message_iff]
    constructor
    · rintro (⟨number, c, here, broken⟩ | ⟨written, escape, here, broken⟩)
      · exact .digit number here broken
      · exact .escape escape here broken
    · intro breaks
      cases breaks with
      | string misfit => exact absurd misfit.isGrammatical told.not_isGrammatical
      | digit number here broken => exact .inl ⟨number, _, here, broken⟩
      | escape escape here broken => exact .inr ⟨_, escape, here, broken⟩

/-- The message about a string names what the string stands for, and not how it is written. -/
theorem hasBreak_oneLine_iff_string :
    let s : Source := ⟨"type \"a\\nb\"", "t.graphqls"⟩
    let e : SyntaxError := ⟨5, .expected .name (.string "a\nb"), none⟩
    s.Raises e ∧ ¬HasBreak s.name ∧ s.BreaksMessage e ∧
        (HasBreak (e.diagnostic s).oneLine ↔ s.BreaksMessage e) := by
  intro s e
  have raised : s.Raises e := .document {} (by decide +kernel)
  have hname : ¬HasBreak s.name := by decide
  have read : s.tokenAt 5 = .ok ⟨.string "a\nb", ⟨5, 11⟩, [], []⟩ := by decide +kernel
  exact ⟨raised, hname, .string trivial read rfl (by decide), hasBreak_oneLine_iff raised hname⟩

/-- A number that ends with its point at the end of a line breaks the message. -/
theorem not_oneLine_of_raises :
    ¬∀ (s : Source) (e : SyntaxError), ¬HasBreak s.name → s.Raises e →
    ¬HasBreak (e.diagnostic s).oneLine := by
  intro h
  have raised : Source.Raises ⟨"1.\n", "GraphQL"⟩ ⟨2, .missingDigit (some '\n'), none⟩ :=
    .document {} (by decide +kernel)
  exact h _ _ (by decide) raised (by decide +kernel)

end SchemaLang
