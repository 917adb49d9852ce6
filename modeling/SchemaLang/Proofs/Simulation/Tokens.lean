import Mathlib.Data.List.Forall2
import SchemaLang.Proofs.Locations.Parse
import SchemaLang.Proofs.Lexemes

/-!
# Texts with the same tokens

Layout means nothing. Two texts with the same tokens, however these are spaced, separated and
commented, are parsed to the same document, or their parses fail with the same words at the same
token. This is a simulation in which the cursors of the two parses look at lexemes that correspond
one by one, and in which spans play no part.
-/

namespace SchemaLang

/-- Two places are the starts of tokens with the same index among the tokens of two texts. -/
def SameIndex (rs rs' : List Reading) (position position' : Nat) : Prop :=
  ∃ (i : Nat) (r r' : Reading), rs[i]? = some r ∧ rs'[i]? = some r' ∧
    position = r.span.start ∧ position' = r'.span.start

/-- Two faults of the same category, with the same message and the same notes, at tokens with
the same index. -/
structure SameFault (rs rs' : List Reading) (e e' : SyntaxError) : Prop where
  category : e'.cause.category = e.cause.category
  message : e'.message = e.message
  notes : e'.notes = e.notes
  position : SameIndex rs rs' e.position e'.position

/-- Parses of two texts that give the same answer, or fail with the same fault of the same token. -/
def SameOutcome {α : Type} (s s' : Source) : Except SyntaxError α → Except SyntaxError α → Prop
  | .ok a, .ok b => b = a
  | .error e, .error e' => SameFault s.tokens.readings s'.tokens.readings e e'
  | _, _ => False

/-- No note of a cause of the grammar points at a place. -/
theorem Cause.IsGrammatical.notes_eq_nil {cause : Cause} (h : cause.IsGrammatical)
    (position : Nat) : cause.notes position = [] := by
  cases cause with
  | expected | unexpected | nestingTooDeep => rfl
  | _ => exact h.elim

/-- The same cause of the grammar and the same hint at tokens with the same index. -/
structure SameCause (rs rs' : List Reading) (e e' : SyntaxError) : Prop where
  cause : e'.cause = e.cause
  hint : e'.hint = e.hint
  grammatical : e.cause.IsGrammatical
  position : SameIndex rs rs' e.position e'.position

theorem SameCause.sameFault {rs rs' : List Reading} {e e' : SyntaxError}
    (h : SameCause rs rs' e e') : SameFault rs rs' e e' where
  category := by rw [h.cause]
  message := by rw [SyntaxError.message, h.cause, SyntaxError.message]
  notes := by
    rw [SyntaxError.notes, SyntaxError.notes, h.cause, h.hint, h.grammatical.notes_eq_nil,
      h.grammatical.notes_eq_nil]
  position := h.position

namespace Lexeme

/-- The same token and description, at tokens with the same index. -/
structure Matches (rs rs' : List Reading) (l l' : Lexeme) : Prop where
  token : l'.token = l.token
  description : l'.description = l.description
  start : SameIndex rs rs' l.span.start l'.span.start

/-- The lexemes of two texts with the same tokens match one by one. -/
theorem forall₂_gather :
    ∀ {rs rs' : List Reading} (before before' : List Reading) (pending : List String),
      before'.length = before.length → rs'.map Reading.token = rs.map Reading.token →
      List.Forall₂ (Matches (before ++ rs) (before' ++ rs')) (gather pending rs)
        (gather pending rs') := by
  intro rs
  induction rs with
  | nil =>
    intro rs' before before' pending _ htokens
    rw [List.map_nil, List.map_eq_nil_iff] at htokens
    subst htokens
    exact .nil
  | cons r rs ih =>
    intro rs' before before' pending hlength htokens
    obtain ⟨r', rs', rfl, htoken, htokens⟩ := List.map_eq_cons_iff.1 htokens
    have rest :=
      fun pending => ih (before ++ [r]) (before' ++ [r']) pending (by simp [hlength]) htokens
    simp only [List.append_assoc, List.singleton_append] at rest
    have index :
        SameIndex (before ++ r :: rs) (before' ++ r' :: rs') r.span.start r'.span.start := by
      refine ⟨before.length, r, r', ?_, ?_, rfl, rfl⟩
      · simp
      · simp [← hlength]
    obtain ⟨token, span, gap, after⟩ := r
    obtain ⟨token', span', gap', after'⟩ := r'
    obtain rfl : token' = token := htoken
    cases token' with
    | description line => exact rest (pending ++ [line])
    | _ => exact .cons ⟨rfl, rfl, index⟩ (rest [])

end Lexeme

/-- Parses of two texts whose lexemes match keep in step. Without locations there is nothing that
spans could change. -/
def Simulation.ofTokens (rs rs' : List Reading) {s s' : Setting} (hfault : s.fault = none)
    (hfault' : s'.fault = none) (hdepth : s'.maxDepth = s.maxDepth)
    (hlocate : ∀ start stop, s'.locate start stop = none) : Simulation where
  source := s
  target := s'
  related c c' := List.Forall₂ (Lexeme.Matches rs rs') c.lexemes c'.lexemes
  starts _ _ := True
  faults := SameCause rs rs'
  relocate _ := none
  maxDepth := hdepth
  token h := (List.forall₂_cons.1 h).1.token
  description h := (List.forall₂_cons.1 h).1.description
  remaining h := (List.forall₂_cons.1 h).2.length_eq.symm
  start _ := trivial
  located _ _ := by rw [hlocate, Option.bind_fun_none]
  fail h _ about := ⟨rfl, rfl, about.isGrammatical, (List.forall₂_cons.1 h).1.start⟩
  withHint h _ := ⟨h.cause, rfl, h.grammatical, h.position⟩
  advance := by
    rintro ⟨current, rest, stop⟩ ⟨current', rest', stop'⟩ h
    obtain ⟨hcurrent, hrest⟩ := List.forall₂_cons.1 h
    cases hrest with
    | nil =>
      simp only [Parser.advance, hfault, hfault']
      exact ⟨rfl, h⟩
    | cons hnext hrest => exact ⟨rfl, .cons hnext hrest⟩

/-- A parser that keeps in step with itself gives the same outcome on two texts with
the same tokens. -/
theorem Parser.run_sameOutcome {α : Type} {p : Parser α} {g : (Loc → Option Loc) → α → α}
    (hp : ∀ m : Simulation, Simulates m (g m.relocate) p p) {s s' : Source} {o o' : ParseOptions}
    (hs : s.tokens.fault = none) (hs' : s'.tokens.fault = none)
    (htokens : s'.tokens.readings.map Reading.token = s.tokens.readings.map Reading.token)
    (ho : o.noLocation = true) (ho' : o'.noLocation = true) (hdepth : o'.maxDepth = o.maxDepth) :
    SameOutcome s s' (p.run s o) (p.run s' o') := by
  have locate : ∀ start stop, o'.locate s' start stop = none := fun start stop => by
    rw [ParseOptions.locate, if_pos ho']
  -- Answers have no locations to begin with, so that taking them off changes nothing.
  have unlocated : p.run s o = (p.run s o).map (g fun _ => none) := by
    refine run_relocate hp rfl rfl fun start stop => ?_
    rw [Option.bind_fun_none, ParseOptions.locate, if_pos ho]
  have lexemes :
      List.Forall₂ (Lexeme.Matches s.tokens.readings s'.tokens.readings) s.lexemes s'.lexemes :=
    Lexeme.forall₂_gather [] [] [] rfl htokens
  cases hl : s.lexemes with
  | nil => exact absurd hl (Source.lexemes_ne_nil hs)
  | cons current rest =>
    rw [hl] at lexemes
    obtain ⟨current', rest', hcurrent, hrest, hl'⟩ := List.forall₂_cons_left_iff.1 lexemes
    rw [run_of_lexemes p o hl] at unlocated ⊢
    rw [run_of_lexemes p o' hl']
    have hfault : (s.setting o).fault = none := hs
    have hfault' : (s'.setting o').fault = none := hs'
    have step : Agrees _ (SameCause s.tokens.readings s'.tokens.readings) (g fun _ => none)
        (p (s.setting o) ⟨current, rest, 0⟩) (p (s'.setting o') ⟨current', rest', 0⟩) :=
      hp (Simulation.ofTokens s.tokens.readings s'.tokens.readings hfault hfault' hdepth locate)
        (.cons hcurrent hrest)
    cases hr : p (s.setting o) ⟨current, rest, 0⟩ <;>
      cases hr' : p (s'.setting o') ⟨current', rest', 0⟩ <;>
      rw [hr, hr'] at step
    · exact SameCause.sameFault step
    · exact step.elim
    · exact step.elim
    · rw [hr] at unlocated
      exact step.1.trans (Except.ok.inj unlocated).symm

/-- Parsing depends on nothing but the tokens: their kinds and texts, descriptions included, in
order. On two sources whose tokens agree in these, parses without locations and with the same limit
give the same document or value, or fail with the same category, message and notes at the token with
the same index. -/
theorem parse_sameOutcome {s s' : Source} {o o' : ParseOptions} (hs : s.tokens.fault = none)
    (hs' : s'.tokens.fault = none)
    (htokens : s'.tokens.readings.map Reading.token = s.tokens.readings.map Reading.token)
    (ho : o.noLocation = true) (ho' : o'.noLocation = true) (hdepth : o'.maxDepth = o.maxDepth) :
    SameOutcome s s' (parseDocument s o) (parseDocument s' o') ∧
    SameOutcome s s' (parseValue s o) (parseValue s' o') :=
  ⟨Parser.run_sameOutcome (fun _ => Parser.simulates_document) hs hs' htokens ho ho' hdepth,
   Parser.run_sameOutcome (fun _ => Parser.simulates_wholeValue) hs hs' htokens ho ho' hdepth⟩

/-- The same list on one line and over several, with commas and a comment. -/
theorem parse_sameOutcome_list :
    let tight : Source := ⟨"[1 $n -2.5 0]", "GraphQL"⟩
    let loose : Source := ⟨"[\n  1,\n  $n, # kept\n  -2.5,\n0,]\n", "list"⟩
    let options : ParseOptions := ⟨true, false, 1⟩
    tight.tokens.fault = none ∧ loose.tokens.fault = none ∧
      loose.tokens.readings.map Reading.token = tight.tokens.readings.map Reading.token ∧
      SameOutcome tight loose (parseDocument tight options) (parseDocument loose options) ∧
      SameOutcome tight loose (parseValue tight options) (parseValue loose options) := by
  intro tight loose options
  have htight : tight.tokens.fault = none := by decide +kernel
  have hloose : loose.tokens.fault = none := by decide +kernel
  have htokens : loose.tokens.readings.map Reading.token =
      tight.tokens.readings.map Reading.token := by
    decide +kernel
  exact ⟨htight, hloose, htokens, parse_sameOutcome htight hloose htokens rfl rfl rfl⟩

end SchemaLang
