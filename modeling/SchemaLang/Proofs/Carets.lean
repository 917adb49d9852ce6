import SchemaLang.Proofs.Lexing.Sites
import SchemaLang.Proofs.Simulation.Definition
import SchemaLang.Proofs.Viability.Leftmost

/-!
# Where carets point

A syntax error is at a lexeme of the source, or is the fault of its text, and so is at a place
with a line and a column of its own; and so is what a note points at. Hence the excerpt of the
source is there whenever an error is shown in full, and the mark below it stands under the
character that is meant.
-/

namespace SchemaLang

open Diagnostic

variable {s : Source} {o : ParseOptions} {e : SyntaxError}

/-- What reading can fail with: a fault of the grammar at a lexeme, or one that keeps a token
from being read. -/
inductive Source.Meets (s : Source) (e : SyntaxError) : Prop
  | lexeme (l : Lexeme) (mem : l ∈ s.lexemes) (position : e.position = l.span.start)
    (about : e.cause.IsAbout l.token)
  | text (f : SyntaxError) {front back : List Char} (hs : s.chars = front ++ back)
    (read : readToken (Text.byteLength front) back = .error f) (position : e.position = f.position)
    (cause : e.cause = f.cause)

namespace Source.Meets

theorem withHint (h : s.Meets e) (hint : Hint) : s.Meets (e.withHint hint) := by
  cases h with
  | lexeme l mem position about => exact .lexeme l mem position about
  | text f hs read position cause => exact .text f hs read position cause

private theorem of_fault (h : s.tokens.fault = some e) : s.Meets e := by
  obtain ⟨front, back, hs, read⟩ := exists_readToken_of_fault h
  exact .text e hs read rfl rfl

private theorem isSited (h : s.Meets e) : e.IsSited s := by
  cases h with
  | lexeme l mem position about =>
    refine ⟨position ▸ s.isPlace_of_mem_lexemes mem, fun length cause => ?_⟩
    rw [cause] at about
    exact about.elim
  | text f hs read position cause =>
    have sited := isSited_of_readToken hs read
    refine ⟨position ▸ sited.position, fun length unterminated => ?_⟩
    rw [position]
    exact sited.quote length (cause ▸ unterminated)

end Source.Meets

/-- A parse keeps in step with itself, and as long as it does it looks at lexemes of the source. -/
def Simulation.within (s : Source) (o : ParseOptions) : Simulation where
  source := s.setting o
  target := s.setting o
  related c c' := c' = c ∧ ∀ l ∈ c.lexemes, l ∈ s.lexemes
  starts n n' := n' = n
  faults e e' := e' = e ∧ s.Meets e
  relocate := some
  maxDepth := rfl
  token h := h.1 ▸ rfl
  description h := h.1 ▸ rfl
  remaining h := h.1 ▸ rfl
  start h := h.1 ▸ rfl
  located := by
    rintro _ c _ n ⟨rfl, -⟩ rfl
    exact (Option.bind_fun_some _).symm
  fail := by
    rintro _ c ⟨rfl, hc⟩ cause about
    exact ⟨rfl, .lexeme c.current (hc _ List.mem_cons_self) rfl about⟩
  withHint := by
    rintro _ e ⟨rfl, he⟩ hint
    exact ⟨rfl, he.withHint hint⟩
  advance := by
    rintro _ ⟨current, rest, stop⟩ ⟨rfl, hc⟩
    cases rest with
    | cons next rest => exact ⟨rfl, rfl, (List.forall_mem_cons.1 hc).2⟩
    | nil =>
      cases hfault : s.tokens.fault with
      | some f =>
        simp only [Parser.advance, Source.setting, hfault]
        exact ⟨rfl, .of_fault hfault⟩
      | none =>
        simp only [Parser.advance, Source.setting, hfault]
        exact ⟨rfl, rfl, hc⟩

/-- A parser that keeps in step with itself fails with one of these. -/
theorem Parser.meets_of_run {α : Type} {p : Parser α} {g : α → α}
    (hp : Simulates (.within s o) g p p) (h : p.run s o = .error e) : s.Meets e := by
  rcases run_eq_error h with fault | ⟨current, rest, hlexemes, failed⟩
  · exact .of_fault fault
  · have agrees := @hp ⟨current, rest, 0⟩ ⟨current, rest, 0⟩ ⟨rfl, fun l hl => hlexemes ▸ hl⟩
    change Agrees _ _ g (p (s.setting o) _) (p (s.setting o) _) at agrees
    rw [failed] at agrees
    exact agrees.2

/-- The syntax errors that lexing or parsing a source ends in. -/
inductive Source.Raises (s : Source) : SyntaxError → Prop
  | token {position : Nat} {e : SyntaxError} (boundary : Text.IsBoundary position s.chars)
    (h : s.tokenAt position = .error e) : s.Raises e
  | tokens {e : SyntaxError} (h : s.tokens.fault = some e) : s.Raises e
  | comments {e : SyntaxError} (h : s.comments = .error e) : s.Raises e
  | document {e : SyntaxError} (o : ParseOptions) (h : parseDocument s o = .error e) : s.Raises e
  | value {e : SyntaxError} (o : ParseOptions) (h : parseValue s o = .error e) : s.Raises e

theorem Source.Raises.meets (h : s.Raises e) : s.Meets e := by
  cases h with
  | token boundary h =>
    obtain ⟨front, back, hs, rfl⟩ := boundary
    rw [tokenAt_append hs] at h
    exact .text e hs h rfl rfl
  | tokens h => exact .of_fault h
  | comments h =>
    cases hfault : s.tokens.fault with
    | none => simp [Source.comments, hfault] at h
    | some f =>
      simp only [Source.comments, hfault, Except.error.injEq] at h
      exact h ▸ .of_fault hfault
  | document o h => exact Parser.meets_of_run Parser.simulates_document h
  | value o h => exact Parser.meets_of_run Parser.simulates_wholeValue h

private theorem Source.Raises.isSited (h : s.Raises e) : e.IsSited s := h.meets.isSited

/-- A note that points anywhere points at a place. -/
theorem SyntaxError.IsSited.isPlace_note (h : e.IsSited s) {note : Note}
    (hnote : note ∈ e.notes) {p : Nat} (hp : note.position = some p) : s.IsPlace p := by
  rcases List.mem_append.1 hnote with hnote | hnote
  · unfold Cause.notes at hnote
    split at hnote
    · rw [List.mem_singleton.1 hnote] at hp
      cases hp
    · rename_i length cause
      rcases List.mem_cons.1 hnote with rfl | hnote
      · cases hp
        exact h.isPlace_quote cause
      · rw [List.mem_singleton.1 hnote] at hp
        cases hp
    · exact absurd hnote List.not_mem_nil
  · obtain ⟨hint, -, rfl⟩ := by simpa using hnote
    cases hint <;> cases hp

/-- Below the first characters of a line stand a tab for each tab and a space for any
other character. -/
structure Pads (above : List Char) (count : Nat) (padding : List Char) : Prop where
  length : padding.length = count
  aligned : ∀ (i : Nat) (c : Char), padding[i]? = some c →
    c = if above[i]? = some '\t' then '\t' else ' '

/-- The line that holds a position, up to which there are `count` characters of it. -/
def Source.Holds (s : Source) (p : Nat) (line : List Char) (count : Nat) : Prop :=
  ∃ before after, Text.IsLineOf s.chars before line after ∧ count ≤ line.length ∧
    p = Text.byteLength before + Text.byteLength (line.take count)

/-- The excerpt for a position: the line that holds it behind the line's number, and under its
character the mark. -/
def Shows (s : Source) (mark : Char) (p : Nat) (text : String) : Prop :=
  ∃ line padding, s.Holds p line ((s.locationAt p).column - 1) ∧
    Pads line ((s.locationAt p).column - 1) padding ∧
    let number := toString (s.locationAt p).line
    let margin := padLeft (max 2 number.length) ""
    text = margin ++ " |\n" ++
      padLeft (max 2 number.length) number ++ " | " ++ String.ofList line ++ "\n" ++
      margin ++ " | " ++ String.ofList (padding ++ [mark]) ++ "\n"

private theorem pads_padding {line : List Char} {count : Nat} (h : count ≤ line.length) :
    Pads line count (padding count line) where
  length := by simp [padding, h]
  aligned i c hc := by
    rw [padding, List.getElem?_map] at hc
    obtain ⟨d, hd, rfl⟩ := Option.map_eq_some_iff.1 hc
    rw [List.getElem?_take] at hd
    obtain ⟨-, hd⟩ := Option.ite_none_right_eq_some.1 hd
    simp [hd]

/-- At a place there is always an excerpt. -/
theorem Source.IsPlace.exists_snippet {p : Nat} (h : s.IsPlace p) (mark : Char) :
    ∃ text, snippet s (s.locationAt p) mark = some text ∧ Shows s mark p text := by
  obtain ⟨line, hline, hcolumn, hp⟩ := h.exists_locatedIn
  obtain ⟨before, after, isLine, start⟩ := exists_isLineOf hline
  refine ⟨_, congrArg (Option.map _) hline, line, padding _ line,
    ⟨before, after, isLine, hcolumn, ?_⟩, pads_padding hcolumn, rfl⟩
  rw [start]
  exact hp

/-- The text of a note, with an excerpt if it points at a position. -/
def ShowsNote (s : Source) (note : Note) (text : String) : Prop :=
  ∃ excerpt, text = s!"   = {note.kind.text}: {note.message}\n" ++ excerpt ∧
    match note.position with
    | none => excerpt = ""
    | some p => Shows s '-' p excerpt

private theorem showsNote_noteText {note : Note} (h : ∀ p, note.position = some p → s.IsPlace p) :
    ShowsNote s note (noteText s note) := by
  cases hp : note.position with
  | none => exact ⟨"", by rw [noteText, hp]; rfl, by rw [hp]⟩
  | some p =>
    obtain ⟨excerpt, hexcerpt, shows⟩ := (h p hp).exists_snippet '-'
    exact ⟨excerpt, by rw [noteText, hp, Option.bind_some, hexcerpt]; rfl, by rw [hp]; exact shows⟩

/-- An error is at a boundary, and in full it comes with the excerpt for its position and for those
of its notes. -/
structure SyntaxError.HasCarets (e : SyntaxError) (s : Source) : Prop where
  boundary : Text.IsBoundary e.position s.chars
  le_byteLength : e.position ≤ s.byteLength
  detailed : ∃ excerpt notes, Shows s '^' e.position excerpt ∧ e.notes.Forall₂ (ShowsNote s) notes ∧
    (e.diagnostic s).detailed =
      s!"error: {e.message}\n  --> {s.name}:{(s.locationAt e.position).text}\n" ++ excerpt ++
      String.join notes

/-- Carets point at the error, for every error that lexing or parsing a source ends in. -/
theorem hasCarets_of_raises (h : s.Raises e) : e.HasCarets s where
  boundary := h.isSited.position.boundary
  le_byteLength := h.isSited.position.boundary.le_byteLength
  detailed := by
    obtain ⟨excerpt, hexcerpt, shows⟩ := h.isSited.position.exists_snippet '^'
    refine ⟨excerpt, e.notes.map (noteText s), shows, ?_, ?_⟩
    · exact List.forall₂_map_right_iff.2 (List.forall₂_same.2 fun note hnote =>
        showsNote_noteText fun p => h.isSited.isPlace_note hnote)
    · change _ ++ (snippet s (s.locationAt e.position) '^').getD "" ++ _ = _
      rw [hexcerpt]
      rfl

/-- A tab stays a tab in front of the mark under a string that is never closed, and
under its quote. -/
theorem hasCarets_of_raises_unterminated :
    let s : Source := ⟨"type T\r\n\t\"é\r\n", "t.graphqls"⟩
    let e : SyntaxError := ⟨12, .unterminatedString 3, none⟩
    s.Raises e ∧ s.locationAt 12 = ⟨2, 4⟩ ∧ e.HasCarets s := by
  intro s e
  have raised : s.Raises e := .document {} (by decide +kernel)
  exact ⟨raised, by decide +kernel, hasCarets_of_raises raised⟩

end SchemaLang
