import SchemaLang.Proofs.Documents
import SchemaLang.Proofs.Simulation.Tokens

/-!
# Parses of lexemes that begin alike

Two parses whose lexemes match up to a point, the second of them within no narrower limit, go the
same way up to that point. As long as the first stays in front of it, the second answers what the
first answers and fails where the first fails, unless it was the limit that stopped the first one.
`Lockstep` states which lexemes match, `Lockstep.Outcomes` what that means for the outcomes, and
each parser is shown to keep to it from the parsers that it is made of.
-/

namespace SchemaLang

/-- Two parses without locations, of lexemes that match one by one in front of those `beyond`. -/
structure Lockstep where
  source : Setting
  target : Setting
  /-- The tokens of the two texts. -/
  readings : List Reading
  readings' : List Reading
  /-- The lexemes of the two texts about which nothing is known. -/
  beyond : List Lexeme
  beyond' : List Lexeme
  maxDepth : source.maxDepth ≤ target.maxDepth
  unlocated : ∀ start stop, source.locate start stop = none
  unlocated' : ∀ start stop, target.locate start stop = none
  /-- Where the first text ends with the lexemes that match, so does the second. -/
  ends : source.fault = none → beyond = [] → target.fault = none ∧ beyond' = []

namespace Lockstep

variable (m : Lockstep)

/-- Cursors at lexemes that match. -/
structure Together (c c' : Cursor) : Prop where
  sound : c.IsSound m.source
  sound' : c'.IsSound m.target
  lexemes : ∃ ls ls', ls ≠ [] ∧ c.lexemes = ls ++ m.beyond ∧ c'.lexemes = ls' ++ m.beyond' ∧
    List.Forall₂ (Lexeme.Matches m.readings m.readings') ls ls'

/-- A fault of the limit, or the one at which the lexemes of the first text end. -/
def Stops (e : SyntaxError) : Prop :=
  e.cause = .nestingTooDeep m.source.maxDepth ∨ ∃ f, m.source.fault = some f ∧ e.cause = f.cause

/-- The outcomes of two parses of which the first may have left the lexemes that match. -/
inductive Outcomes {α : Type} :
    Except SyntaxError (α × Cursor) → Except SyntaxError (α × Cursor) → Prop
  | answers {a : α} {c c' : Cursor} : m.Together c c' → Outcomes (.ok (a, c)) (.ok (a, c'))
  | fails {e e' : SyntaxError} :
    SameCause m.readings m.readings' e e' → Outcomes (.error e) (.error e')
  /-- The limit or the end of the lexemes stops the first parse. -/
  | stops {e : SyntaxError} {r : Except SyntaxError (α × Cursor)} :
    m.Stops e → Outcomes (.error e) r
  | answersBeyond {a : α} {c : Cursor} {r : Except SyntaxError (α × Cursor)} :
    c.lexemes <:+ m.beyond → Outcomes (.ok (a, c)) r
  | failsBeyond {e : SyntaxError} {r : Except SyntaxError (α × Cursor)} :
      (∃ l ∈ m.beyond, e.position = l.span.start) → Outcomes (.error e) r

/-- A parse goes on to later lexemes, or fails at one of those from the cursor on. -/
def Advances {α : Type} (c : Cursor) : Except SyntaxError (α × Cursor) → Prop
  | .ok (_, d) => d.lexemes <:+ c.lexemes
  | .error e => (∃ l ∈ c.lexemes, e.position = l.span.start) ∨ m.Stops e

variable {m} {c c' d : Cursor} {α β : Type}

theorem Advances.of_suffix {r : Except SyntaxError (α × Cursor)} (h : m.Advances d r)
    (hs : d.lexemes <:+ c.lexemes) : m.Advances c r := by
  match r, h with
  | .ok (_, _), h => exact List.IsSuffix.trans h hs
  | .error _, .inl ⟨l, hl, he⟩ => exact .inl ⟨l, hs.subset hl, he⟩
  | .error _, .inr h => exact .inr h

/-- What is answered or fails from a cursor beyond the lexemes that match is beyond them. -/
theorem Outcomes.of_advances {r r' : Except SyntaxError (α × Cursor)} (h : m.Advances d r)
    (hd : d.lexemes <:+ m.beyond) : m.Outcomes r r' := by
  match r, h with
  | .ok (_, _), h => exact .answersBeyond (List.IsSuffix.trans h hd)
  | .error _, .inl ⟨l, hl, he⟩ => exact .failsBeyond ⟨l, hd.subset hl, he⟩
  | .error _, .inr h => exact .stops h

theorem Together.matches (h : m.Together c c') :
    Lexeme.Matches m.readings m.readings' c.current c'.current := by
  obtain ⟨ls, ls', hne, hc, hc', hls⟩ := h.lexemes
  cases hls with
  | nil => exact absurd rfl hne
  | cons hl _ =>
    obtain ⟨rfl, -⟩ := List.cons.inj hc
    obtain ⟨rfl, -⟩ := List.cons.inj hc'
    exact hl

/-- Taking a lexeme goes on to the next one on both sides, or to what is beyond. -/
theorem advance_outcomes (h : m.Together c c') :
    m.Outcomes (Parser.advance m.source c) (Parser.advance m.target c') := by
  obtain ⟨ls, ls', hne, hc, hc', hls⟩ := h.lexemes
  cases hls with
  | nil => exact absurd rfl hne
  | cons hl hls =>
    obtain ⟨hcurrent, hrest⟩ := List.cons.inj hc
    obtain ⟨hcurrent', hrest'⟩ := List.cons.inj hc'
    cases hls with
    | cons hnext hls =>
      have moves : c.Moves ⟨_, _, c.current.span.stop⟩ := ⟨hrest, rfl⟩
      have moves' : c'.Moves ⟨_, _, c'.current.span.stop⟩ := ⟨hrest', rfl⟩
      rw [Parser.advance_of_moves moves, Parser.advance_of_moves moves']
      exact .answers ⟨h.sound.of_moves moves, h.sound'.of_moves moves',
        _, _, List.cons_ne_nil _ _, rfl, rfl, .cons hnext hls⟩
    | nil =>
      cases hbeyond : m.beyond with
      | cons next rest =>
        rw [hbeyond] at hrest
        have moves : c.Moves ⟨next, rest, c.current.span.stop⟩ := ⟨hrest, rfl⟩
        rw [Parser.advance_of_moves moves]
        refine .answersBeyond ?_
        rw [hbeyond]
        exact List.suffix_rfl
      | nil =>
        rw [hbeyond] at hc hrest
        cases hfault : m.source.fault with
        | some f =>
          have fails : Parser.advance m.source c = .error f := by
            rw [Parser.advance, show c.rest = [] from hrest, hfault]
          rw [fails]
          exact .stops (.inr ⟨f, hfault, rfl⟩)
        | none =>
          obtain ⟨hfault', hbeyond'⟩ := m.ends hfault hbeyond
          rw [hbeyond'] at hc' hrest'
          rw [advance_of_end hfault hrest, advance_of_end hfault' hrest']
          refine .answers ⟨h.sound.of_suffix List.suffix_rfl, h.sound'.of_suffix List.suffix_rfl,
            _, _, List.cons_ne_nil _ _, ?_, ?_, .cons hl .nil⟩
          · rw [hbeyond]
            exact hc
          · rw [hbeyond']
            exact hc'

end Lockstep

namespace Parser

variable {α β : Type} {m : Lockstep}

/-- The first of two parsers goes on and fails at lexemes that are there, and the second goes
along with it. -/
structure Follows (m : Lockstep) (p p' : Parser α) : Prop where
  advances : ∀ c, m.Advances c (p m.source c)
  outcomes : ∀ ⦃c c'⦄, m.Together c c' → m.Outcomes (p m.source c) (p' m.target c')

/-- A parser that takes a token wherever it answers anything. -/
def IsProductive (p : Parser α) : Prop :=
  ∀ ⦃s : Setting⦄ ⦃c c' : Cursor⦄ ⦃a : α⦄, c.IsSound s → p s c = .ok (a, c') →
    c'.rest.length < c.rest.length

theorem Yields.isProductive {p : Parser α} {form : α → Form} {P : α → Prop} {Q : Token → Prop}
    (h : Yields p form P) (hform : ∀ a, P a → (form a).Starts Q) : IsProductive p := by
  intro s c c' a hc hp
  obtain ⟨fa, pa⟩ := h hc hp
  exact ((hform a pa).of_spans fa).2

theorem advances_bind {p : Parser α} {q : α → Parser β} {c : Cursor}
    (hp : m.Advances c (p m.source c)) (hq : ∀ a d, m.Advances d (q a m.source d)) :
    m.Advances c ((p >>= q) m.source c) := by
  simp only [Bind.bind]
  cases hr : p m.source c with
  | error e =>
    rw [hr] at hp
    exact hp
  | ok r =>
    obtain ⟨a, d⟩ := r
    rw [hr] at hp
    exact (hq a d).of_suffix hp

/-- The outcomes of a parser that goes on from where its first part ends. -/
theorem outcomes_bind {p p' : Parser α} {q q' : α → Parser β} {c c' : Cursor}
    (hp : m.Outcomes (p m.source c) (p' m.target c'))
    (advances : ∀ a d, m.Advances d (q a m.source d))
    (hq : ∀ {a d d'}, p m.source c = .ok (a, d) → p' m.target c' = .ok (a, d') → m.Together d d' →
      m.Outcomes (q a m.source d) (q' a m.target d')) :
    m.Outcomes ((p >>= q) m.source c) ((p' >>= q') m.target c') := by
  simp only [Bind.bind]
  generalize hr : p m.source c = r, hr' : p' m.target c' = r' at hp
  cases hp with
  | answers h => exact hq hr hr' h
  | fails h => exact .fails h
  | stops h => exact .stops h
  | answersBeyond h => exact .of_advances (advances _ _) h
  | failsBeyond h => exact .failsBeyond h

namespace Follows

theorem bind {p p' : Parser α} {q q' : α → Parser β} (hp : Follows m p p')
    (hq : ∀ a, Follows m (q a) (q' a)) : Follows m (p >>= q) (p' >>= q') where
  advances c := advances_bind (hp.advances c) fun a => (hq a).advances
  outcomes _ _ h := outcomes_bind (hp.outcomes h) (fun a => (hq a).advances) fun _ _ =>
    @(hq _).outcomes _ _

theorem pure (a : α) : Follows m (Pure.pure a) (Pure.pure a) where
  advances _ := List.suffix_rfl
  outcomes _ _ h := .answers h

theorem map {p p' : Parser α} (hp : Follows m p p') (f : α → β) : Follows m (f <$> p) (f <$> p') :=
  hp.bind fun a => pure (f a)

theorem ite {p p' q q' : Parser α} {P : Prop} [Decidable P] (hp : Follows m p p')
    (hq : Follows m q q') : Follows m (if P then p else q) (if P then p' else q') := by
  by_cases h : P
  · rw [if_pos h, if_pos h]
    exact hp
  · rw [if_neg h, if_neg h]
    exact hq

theorem start {q q' : Nat → Parser α} (h : ∀ n n', Follows m (q n) (q' n')) :
    Follows m (Parser.start >>= q) (Parser.start >>= q') where
  advances c := (h c.current.span.start 0).advances c
  outcomes _ _ hc := (h _ _).outcomes hc

theorem token {q q' : Token → Parser α} (h : ∀ t, Follows m (q t) (q' t)) :
    Follows m (Parser.token >>= q) (Parser.token >>= q') where
  advances c := (h c.current.token).advances c
  outcomes c c' hc := by
    rw [token_bind, token_bind, hc.matches.token]
    exact (h c.current.token).outcomes hc

theorem description {q q' : Option String → Parser α} (h : ∀ d, Follows m (q d) (q' d)) :
    Follows m (Parser.description >>= q) (Parser.description >>= q') where
  advances c := (h c.current.description).advances c
  outcomes c c' hc := by
    rw [description_bind, description_bind, hc.matches.description]
    exact (h c.current.description).outcomes hc

theorem peek (p : Punctuator) {q q' : Bool → Parser α} (h : ∀ b, Follows m (q b) (q' b)) :
    Follows m (Parser.peek p >>= q) (Parser.peek p >>= q') :=
  token fun t => h (decide (t = .punctuator p))

theorem setting {q q' : Setting → Parser α} (h : Follows m (q m.source) (q' m.target)) :
    Follows m (Parser.setting >>= q) (Parser.setting >>= q') := ⟨h.advances, h.outcomes⟩

theorem located {n n' : Nat} {q q' : Option Loc → Parser α} (h : Follows m (q none) (q' none)) :
    Follows m (Parser.located n >>= q) (Parser.located n' >>= q') where
  advances c := by
    rw [located_bind, m.unlocated]
    exact h.advances c
  outcomes c c' hc := by
    rw [located_bind, located_bind, m.unlocated, m.unlocated']
    exact h.outcomes hc

theorem fail {cause : Cause} (h : cause.IsGrammatical) :
    Follows m (Parser.fail cause) (Parser.fail (α := α) cause) where
  advances c := .inl ⟨c.current, List.mem_cons_self, rfl⟩
  outcomes _ _ hc := .fails ⟨rfl, rfl, h, hc.matches.start⟩

theorem expected (wanted : Expectation) :
    Follows m (Parser.expected (α := α) wanted) (Parser.expected wanted) :=
  token fun _ => fail trivial

theorem unexpected : Follows m (Parser.unexpected (α := α)) Parser.unexpected :=
  token fun _ => fail trivial

/-- Where the limit stops the first parser, it does not matter what the second one does. -/
theorem tooDeep (p : Parser α) : Follows m Parser.tooDeep p where
  advances _ := .inr (.inl rfl)
  outcomes _ _ _ := .stops (.inl rfl)

theorem withHint {p p' : Parser α} (h : Follows m p p') (hint : Hint) :
    Follows m (Parser.withHint hint p) (Parser.withHint hint p') where
  advances c := by
    have hp := h.advances c
    unfold Parser.withHint
    cases hr : p m.source c <;> rw [hr] at hp <;> exact hp
  outcomes c c' hc := by
    have hp := h.outcomes hc
    unfold Parser.withHint
    generalize p m.source c = r, p' m.target c' = r' at hp
    cases hp with
    | answers hd => exact .answers hd
    | fails he => exact .fails ⟨he.cause, rfl, he.grammatical, he.position⟩
    | stops he => exact .stops he
    | answersBeyond hd => exact .answersBeyond hd
    | failsBeyond he => exact .failsBeyond he

theorem advance : Follows m Parser.advance Parser.advance where
  advances c := by
    unfold Parser.advance
    split
    · rename_i next rest hrest
      change next :: rest <:+ c.current :: c.rest
      rw [hrest]
      exact List.suffix_cons _ _
    · split
      · rename_i e he
        exact .inr (.inr ⟨e, he, rfl⟩)
      · exact List.suffix_rfl
  outcomes _ _ hc := Lockstep.advance_outcomes hc

theorem skip (p : Punctuator) : Follows m (Parser.skip p) (Parser.skip p) :=
  peek p fun _ => ite (advance.bind fun _ => pure true) (pure false)

theorem expect (p : Punctuator) : Follows m (Parser.expect p) (Parser.expect p) :=
  peek p fun _ => ite advance (expected (.punctuator p))

theorem keyword (word : String) : Follows m (Parser.keyword word) (Parser.keyword word) :=
  token fun _ => ite advance (expected (.keyword word))

theorem endOfInput : Follows m Parser.endOfInput Parser.endOfInput :=
  token fun _ => ite advance (expected .endOfInput)

theorem name : Follows m Parser.name Parser.name := by
  refine start fun _ _ => token fun t => ?_
  cases t with
  | name text => exact advance.bind fun _ => located (pure _)
  | _ => exact expected .name

end Follows

/-- The token that is taken is gone, or was the end of the input. -/
theorem length_of_advance {s : Setting} {c d : Cursor} {u : Unit}
    (h : Parser.advance s c = .ok (u, d)) : d.rest.length ≤ c.rest.length := by
  unfold Parser.advance at h
  split at h
  · rename_i next rest hrest
    simp only [Except.ok.injEq, Prod.mk.injEq, true_and] at h
    rw [hrest, ← h]
    exact Nat.le_succ _
  · split at h
    · simp at h
    · simp only [Except.ok.injEq, Prod.mk.injEq, true_and] at h
      rw [← h]

section Repetition

-- The counts of two repetitions differ where different numbers of lexemes are left. They do not
-- matter, since each exceeds what is left, and each item takes some of that away.
variable {item item' : Parser α} (hi : Follows m item item')

include hi

private theorem advances_untilClose (close : Punctuator) (n : Nat) (c : Cursor) :
    m.Advances c (untilClose close item n m.source c) := by
  induction n generalizing c with
  | zero => exact Follows.unexpected.advances c
  | succ n ih =>
    refine advances_bind ((Follows.skip close).advances c) fun b d => ?_
    cases b with
    | true => exact (Follows.pure []).advances d
    | false =>
      exact advances_bind (hi.advances d) fun x e => advances_bind (ih e) fun _ =>
        (Follows.pure _).advances

private theorem advances_whileNext (starts : Token → Bool) (n : Nat) (c : Cursor) :
    m.Advances c (whileNext starts item n m.source c) := by
  induction n generalizing c with
  | zero => exact (Follows.pure []).advances c
  | succ n ih =>
    rw [whileNext, token_bind]
    split
    · exact advances_bind (hi.advances c) fun x d => advances_bind (ih d) fun _ =>
        (Follows.pure _).advances
    · exact (Follows.pure []).advances c

private theorem advances_eachAfter (q : Punctuator) (n : Nat) (c : Cursor) :
    m.Advances c (eachAfter q item n m.source c) := by
  induction n generalizing c with
  | zero => exact (Follows.pure []).advances c
  | succ n ih =>
    refine advances_bind ((Follows.skip q).advances c) fun b d => ?_
    cases b with
    | true =>
      exact advances_bind (hi.advances d) fun x e => advances_bind (ih e) fun _ =>
        (Follows.pure _).advances
    | false => exact (Follows.pure []).advances d

variable (hprod : IsProductive item) (hprod' : IsProductive item')

include hprod hprod'

private theorem outcomes_untilClose (close : Punctuator) {n n' : Nat} {c c' : Cursor}
    (hc : m.Together c c') (hn : c.rest.length < n) (hn' : c'.rest.length < n') :
    m.Outcomes (untilClose close item n m.source c) (untilClose close item' n' m.target c') := by
  induction n generalizing n' c c' with
  | zero => exact absurd hn (Nat.not_lt_zero _)
  | succ n ih =>
    obtain ⟨n', rfl⟩ := Nat.exists_eq_add_one_of_ne_zero (Nat.ne_zero_of_lt hn')
    rw [untilClose, untilClose, skip_bind, skip_bind, hc.matches.token]
    split
    · exact (Follows.advance.bind fun _ => Follows.pure []).outcomes hc
    · refine outcomes_bind (hi.outcomes hc) (fun x d => ?_) fun hx hx' hd => ?_
      · exact advances_bind (advances_untilClose hi close n d) fun _ => (Follows.pure _).advances
      · have hlt := hprod hc.sound hx
        have hlt' := hprod' hc.sound' hx'
        exact outcomes_bind (ih hd (by omega) (by omega)) (fun _ => (Follows.pure _).advances)
          fun _ _ he => .answers he

private theorem outcomes_whileNext (starts : Token → Bool) {n n' : Nat} {c c' : Cursor}
    (hc : m.Together c c') (hn : c.rest.length < n) (hn' : c'.rest.length < n') :
    m.Outcomes (whileNext starts item n m.source c) (whileNext starts item' n' m.target c') := by
  induction n generalizing n' c c' with
  | zero => exact absurd hn (Nat.not_lt_zero _)
  | succ n ih =>
    obtain ⟨n', rfl⟩ := Nat.exists_eq_add_one_of_ne_zero (Nat.ne_zero_of_lt hn')
    rw [whileNext, whileNext, token_bind, token_bind, hc.matches.token]
    split
    · refine outcomes_bind (hi.outcomes hc) (fun x d => ?_) fun hx hx' hd => ?_
      · exact advances_bind (advances_whileNext hi starts n d) fun _ => (Follows.pure _).advances
      · have hlt := hprod hc.sound hx
        have hlt' := hprod' hc.sound' hx'
        exact outcomes_bind (ih hd (by omega) (by omega)) (fun _ => (Follows.pure _).advances)
          fun _ _ he => .answers he
    · exact .answers hc

private theorem outcomes_eachAfter (q : Punctuator) {n n' : Nat} {c c' : Cursor}
    (hc : m.Together c c') (hn : c.rest.length < n) (hn' : c'.rest.length < n') :
    m.Outcomes (eachAfter q item n m.source c) (eachAfter q item' n' m.target c') := by
  induction n generalizing n' c c' with
  | zero => exact absurd hn (Nat.not_lt_zero _)
  | succ n ih =>
    obtain ⟨n', rfl⟩ := Nat.exists_eq_add_one_of_ne_zero (Nat.ne_zero_of_lt hn')
    rw [eachAfter, eachAfter, skip_bind, skip_bind, hc.matches.token]
    split
    · refine outcomes_bind (Follows.advance.outcomes hc) (fun _ d => ?_) fun hadv hadv' hd => ?_
      · exact advances_bind (hi.advances d) fun x e =>
          advances_bind (advances_eachAfter hi q n e) fun _ => (Follows.pure _).advances
      · have hle := length_of_advance hadv
        have hle' := length_of_advance hadv'
        refine outcomes_bind (hi.outcomes hd) (fun x e => ?_) fun hx hx' he => ?_
        · exact advances_bind (advances_eachAfter hi q n e) fun _ => (Follows.pure _).advances
        · have hlt := hprod hd.sound hx
          have hlt' := hprod' hd.sound' hx'
          exact outcomes_bind (ih he (by omega) (by omega)) (fun _ => (Follows.pure _).advances)
            fun _ _ hf => .answers hf
    · exact .answers hc

namespace Follows

/-- Items up to a closing punctuator, as many as there are. -/
theorem untilClose (close : Punctuator) :
    Follows m (Parser.remaining >>= Parser.untilClose close item)
      (Parser.remaining >>= Parser.untilClose close item') where
  advances c := advances_untilClose hi close _ c
  outcomes _ _ hc :=
    outcomes_untilClose hi hprod hprod' close hc (Nat.lt_succ_self _) (Nat.lt_succ_self _)

theorem many (starts : Token → Bool) :
    Follows m (Parser.many starts item) (Parser.many starts item') where
  advances c := advances_whileNext hi starts _ c
  outcomes _ _ hc :=
    outcomes_whileNext hi hprod hprod' starts hc (Nat.lt_succ_self _) (Nat.lt_succ_self _)

/-- Items each after a punctuator, as many as there are. -/
theorem eachAfter (q : Punctuator) : Follows m (Parser.remaining >>= Parser.eachAfter q item)
    (Parser.remaining >>= Parser.eachAfter q item') where
  advances c := advances_eachAfter hi q _ c
  outcomes _ _ hc :=
    outcomes_eachAfter hi hprod hprod' q hc (Nat.lt_succ_self _) (Nat.lt_succ_self _)

theorem block (before after : Punctuator) :
    Follows m (Parser.block before after item) (Parser.block before after item') :=
  (expect before).bind fun _ => untilClose hi hprod hprod' after

theorem block1 (before after : Punctuator) :
    Follows m (Parser.block1 before after item) (Parser.block1 before after item') := by
  refine (expect before).bind fun _ => hi.bind fun x => ?_
  exact (untilClose hi hprod hprod' after).bind fun xs => pure (x :: xs)

theorem optionalBlock (before after : Punctuator) :
    Follows m (Parser.optionalBlock before after item) (Parser.optionalBlock before after item') :=
  peek before fun _ => ite (block1 hi hprod hprod' before after) (pure [])

theorem separatedBy (q : Punctuator) :
    Follows m (Parser.separatedBy q item) (Parser.separatedBy q item') :=
  hi.bind fun x => (eachAfter hi hprod hprod' q).bind fun xs => pure (x :: xs)

end Follows

end Repetition

end Parser

end SchemaLang
