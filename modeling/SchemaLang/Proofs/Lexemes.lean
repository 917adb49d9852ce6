import SchemaLang.Proofs.Lexing.Cases
import SchemaLang.Proofs.Parsing.Steps

/-!
# The lexemes of a source

What a parse of a source starts with: valid lexemes, of which the last and no other one is the end
of the input, unless there is a fault, and then none is. Descriptions are joined line by line and so
are descriptions again.
-/

namespace SchemaLang

theorem Token.isDescription_of_isSignificant {t : Token} (h : t.isSignificant = true) :
    t.isDescription = false := by
  cases t <;> simp_all [Token.isSignificant, Token.isDescription]

theorem Token.ne_endOfInput_of_isSignificant {t : Token} (h : t.isSignificant = true) :
    t ≠ .endOfInput := by
  rintro rfl
  simp [Token.isSignificant] at h

/-- Tokens of which the last one is the end of the input, unless a fault keeps it away. -/
def EndsOnce (fault : Option SyntaxError) (ts : List Token) : Prop :=
  ∃ init, (∀ t ∈ init, t ≠ .endOfInput) ∧ ts = init ++ if fault.isSome then [] else [.endOfInput]

theorem EndsOnce.cons {fault : Option SyntaxError} {t : Token} {ts : List Token}
    (ht : t ≠ .endOfInput) (h : EndsOnce fault ts) : EndsOnce fault (t :: ts) := by
  obtain ⟨init, hinit, rfl⟩ := h
  exact ⟨t :: init, List.forall_mem_cons.2 ⟨ht, hinit⟩, rfl⟩

/-- An end of the input is the last token, and there is no fault. -/
theorem EndsOnce.of_suffix {fault : Option SyntaxError} {ts us : List Token} (h : EndsOnce fault ts)
    (hs : .endOfInput :: us <:+ ts) : fault = none ∧ us = [] := by
  obtain ⟨init, hinit, rfl⟩ := h
  obtain ⟨front, hfront⟩ := hs
  cases fault with
  | some e =>
    refine absurd rfl (hinit .endOfInput ?_)
    simp only [Option.isSome_some, if_true, List.append_nil] at hfront
    rw [← hfront]
    exact List.mem_append_right _ List.mem_cons_self
  | none =>
    refine ⟨rfl, ?_⟩
    cases us using List.reverseRecOn with
    | nil => rfl
    | append_singleton us u _ =>
      have hlast : front ++ .endOfInput :: us = init := by
        rw [← List.cons_append, ← List.append_assoc] at hfront
        exact List.append_inj_left' hfront rfl
      refine absurd rfl (hinit .endOfInput ?_)
      rw [← hlast]
      exact List.mem_append_right _ List.mem_cons_self

theorem endsOnce_scan (position : Nat) (cs : List Char) :
    EndsOnce (scan position cs).fault ((scan position cs).readings.map Reading.token) := by
  fun_induction scan position cs with
  | case1 position cs e h => exact ⟨[], by simp, rfl⟩
  | case2 position cs r h hr => exact ⟨[], by simp, by simp [hr]⟩
  | case3 position cs r h hr rest ih => exact ih.cons hr

theorem isValid_of_mem_scan {position : Nat} {cs : List Char} :
    ∀ r ∈ (scan position cs).readings, r.token.IsValid := by
  fun_induction scan position cs with
  | case1 position cs e h => simp
  | case2 position cs r h hr => simp [hr, Token.IsValid]
  | case3 position cs r h hr rest ih =>
    obtain ⟨t, ht, rfl⟩ := readToken_eq_ok.1 h
    exact List.forall_mem_cons.2 ⟨(scans_of_scanToken ht).isValid, ih⟩

namespace Lexeme

/-- The tokens of the lexemes are those that are no descriptions. -/
theorem map_token_gather (pending : List String) (rs : List Reading) :
    (gather pending rs).map Lexeme.token =
      (rs.map Reading.token).filter fun t => !t.isDescription := by
  induction rs generalizing pending with
  | nil => rfl
  | cons r rs ih =>
    obtain ⟨token, span, gap, rest⟩ := r
    cases token <;> simp [gather, Token.isDescription, ih]

/-- The lines of a description, each without a line feed. -/
def AreLines (lines : List String) : Prop :=
  ∀ line ∈ lines, IsDescriptionLine line.toList ∧ '\n' ∉ line.toList

/-- The text of one or more lines has these lines. -/
theorem splitOn_toList_intercalate {lines : List String} (hne : lines ≠ [])
    (h : ∀ line ∈ lines, '\n' ∉ line.toList) :
    ("\n".intercalate lines).toList.splitOn '\n' = lines.map String.toList := by
  rw [String.toList_intercalate]
  refine List.splitOn_intercalate '\n' ?_ ?_
  · simpa using h
  · simpa using hne

private theorem conformsDescription_joinLines {lines : List String} (h : AreLines lines) :
    ConformsDescription (joinLines lines) := by
  cases lines with
  | nil => simp [joinLines, ConformsDescription]
  | cons line lines =>
    intro text htext l hl
    obtain rfl : "\n".intercalate (line :: lines) = text := by simpa [joinLines] using htext
    rw [splitOn_toList_intercalate (List.cons_ne_nil _ _) fun l hl => (h l hl).2] at hl
    obtain ⟨line', hline, rfl⟩ := List.mem_map.1 hl
    exact (h line' hline).1

private theorem isValid_of_mem_gather {pending : List String} {rs : List Reading}
    (hpending : AreLines pending) (hrs : ∀ r ∈ rs, r.token.IsValid) :
    ∀ l ∈ gather pending rs, l.IsValid := by
  induction rs generalizing pending with
  | nil => simp [gather]
  | cons r rs ih =>
    obtain ⟨token, span, gap, rest⟩ := r
    obtain ⟨hr, hrest⟩ := List.forall_mem_cons.1 hrs
    have hnil : AreLines [] := by simp [AreLines]
    cases token with
    | description line =>
      have hlines : AreLines (pending ++ [line]) := by
        intro l hl
        rcases List.mem_append.1 hl with hl | hl
        · exact hpending l hl
        · rw [List.mem_singleton.1 hl]
          exact hr
      exact ih hlines hrest
    | _ => exact List.forall_mem_cons.2 ⟨⟨hr, conformsDescription_joinLines hpending⟩,
      ih hnil hrest⟩

end Lexeme

namespace Source

/-- The tokens of a source, the end included if there is no fault. -/
def tokenSequence (s : Source) : List Token := s.tokens.readings.map Reading.token

/-- The lexemes that a parse of the source reads. -/
def lexemes (s : Source) : List Lexeme := Lexeme.gather [] s.tokens.readings

/-- What holds throughout a parse of the source. -/
def setting (s : Source) (o : ParseOptions) : Setting := ⟨s.tokens.fault, o.maxDepth, o.locate s⟩

theorem endsOnce_lexemes (s : Source) : EndsOnce s.tokens.fault (s.lexemes.map Lexeme.token) := by
  obtain ⟨init, hinit, htokens⟩ := endsOnce_scan 0 s.chars
  refine ⟨init.filter fun t => !t.isDescription,
    fun t ht => hinit t (List.mem_of_mem_filter ht), ?_⟩
  rw [lexemes, Lexeme.map_token_gather]
  change ((scan 0 s.chars).readings.map Reading.token).filter _ =
    _ ++ ite ((scan 0 s.chars).fault.isSome = true) _ _
  rw [htokens, List.filter_append]
  cases (scan 0 s.chars).fault <;> rfl

theorem isValid_of_mem_lexemes {s : Source} {l : Lexeme} (h : l ∈ s.lexemes) : l.IsValid :=
  Lexeme.isValid_of_mem_gather (by simp [Lexeme.AreLines]) isValid_of_mem_scan l h

theorem isDescription_of_mem_lexemes {s : Source} {l : Lexeme} (h : l ∈ s.lexemes) :
    l.token.isDescription = false := by
  have hl : l.token ∈ s.lexemes.map Lexeme.token := List.mem_map_of_mem h
  rw [lexemes, Lexeme.map_token_gather] at hl
  simpa using (List.mem_filter.1 hl).2

/-- A parse starts at a sound cursor. -/
theorem isSound {s : Source} {o : ParseOptions} {c : Cursor} (hc : c.lexemes = s.lexemes) :
    c.IsSound (s.setting o) := by
  constructor
  · rw [hc]
    exact fun l hl => isValid_of_mem_lexemes hl
  · intro hf
    obtain ⟨init, -, htokens⟩ := s.endsOnce_lexemes
    change s.tokens.fault = none at hf
    rw [← hc, hf] at htokens
    have hlast : (c.lexemes.map Lexeme.token).getLast? = some .endOfInput := by
      rw [htokens]
      simp
    have hne : c.lexemes ≠ [] := List.cons_ne_nil _ _
    rw [List.getLast?_map, List.getLast?_eq_some_getLast hne] at hlast
    exact Option.some.inj hlast

/-- Without a fault there is a lexeme: the end of the input. -/
theorem lexemes_ne_nil {s : Source} (h : s.tokens.fault = none) : s.lexemes ≠ [] := by
  obtain ⟨init, -, htokens⟩ := s.endsOnce_lexemes
  rw [h] at htokens
  intro hnil
  rw [hnil] at htokens
  simp at htokens

end Source

/-- Without locations nothing is located. -/
theorem Source.locate_setting (s : Source) {o : ParseOptions} (ho : o.noLocation = true)
    (start stop : Nat) : (s.setting o).locate start stop = none := by
  simp [setting, ParseOptions.locate, ho]

/-- A run of a parser starts at the first lexeme. -/
theorem Parser.run_of_lexemes {α : Type} (p : Parser α) {s : Source} (o : ParseOptions)
    {current : Lexeme} {rest : List Lexeme} (h : s.lexemes = current :: rest) :
    p.run s o = (p (s.setting o) ⟨current, rest, 0⟩).map Prod.fst := by
  rw [Source.lexemes] at h
  simp only [run, h]
  rfl

/-- A run of a parser answers what the parser answers at the first lexeme. -/
theorem Parser.run_eq_ok {α : Type} {p : Parser α} {s : Source} {o : ParseOptions} {a : α} :
    p.run s o = .ok a ↔ ∃ c c', c.lexemes = s.lexemes ∧ c.lastStop = 0 ∧
    p (s.setting o) c = .ok (a, c') := by
  cases hlexemes : s.lexemes with
  | nil =>
    rw [Source.lexemes] at hlexemes
    simp [run, hlexemes, Cursor.lexemes]
  | cons current rest =>
    rw [run_of_lexemes p o hlexemes]
    constructor
    · intro h
      cases hp : p (s.setting o) ⟨current, rest, 0⟩ with
      | error e => simp [hp, Except.map] at h
      | ok r =>
        simp only [hp, Except.map, Except.ok.injEq] at h
        exact ⟨⟨current, rest, 0⟩, r.2, rfl, rfl, by rw [hp, ← h]⟩
    · rintro ⟨⟨_, _, _⟩, c', hc, rfl, hp⟩
      obtain ⟨rfl, rfl⟩ := List.cons.inj hc
      rw [hp]
      rfl

end SchemaLang
