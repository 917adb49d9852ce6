import SchemaLang.Parser.Definition
import SchemaLang.Proofs.Vocabulary

/-!
# Parses in step

Two parses of lexemes with the same tokens and descriptions take the same decisions. What one
answers, the other answers with its own locations; where one fails, so does the other. A
`Simulation` says which cursors, starts and faults of the two correspond. Each parser is shown to
keep in step from the parsers that it is made of.
-/

namespace SchemaLang

/-- The outcomes of two parses: answers that `g` leads to, at cursors that correspond, or faults
that correspond. -/
def Agrees {α β : Type} (related : Cursor → Cursor → Prop)
    (faults : SyntaxError → SyntaxError → Prop) (g : α → β) :
    Except SyntaxError (α × Cursor) → Except SyntaxError (β × Cursor) → Prop
  | .ok (a, c), .ok (b, c') => b = g a ∧ related c c'
  | .error e, .error e' => faults e e'
  | _, _ => False

/-- The causes that lie in the grammar, and not in the text of a single token. -/
def Cause.IsGrammatical : Cause → Prop
  | .expected .. => True
  | .unexpected _ => True
  | .nestingTooDeep _ => True
  | _ => False

/-- A word that is wanted is a name. -/
def Expectation.IsProper : Expectation → Prop
  | .keyword word => IsName word
  | _ => True

/-- The causes that lie in the grammar, for a fault at a token: what they say was found
is this token. -/
def Cause.IsAbout (t : Token) : Cause → Prop
  | .expected wanted found => wanted.IsProper ∧ found = t
  | .unexpected found => found = t
  | .nestingTooDeep _ => True
  | _ => False

theorem Cause.IsAbout.isGrammatical {t : Token} {cause : Cause} (h : cause.IsAbout t) :
    cause.IsGrammatical := by
  cases cause with
  | expected | unexpected | nestingTooDeep => exact trivial
  | _ => exact h.elim

/-- Two parses of lexemes that agree in their tokens and descriptions. -/
structure Simulation where
  source : Setting
  target : Setting
  related : Cursor → Cursor → Prop
  starts : Nat → Nat → Prop
  faults : SyntaxError → SyntaxError → Prop
  /-- What the locations of the one parse are in the other. -/
  relocate : Loc → Option Loc
  maxDepth : target.maxDepth = source.maxDepth
  token : ∀ {c c'}, related c c' → c'.current.token = c.current.token
  description : ∀ {c c'}, related c c' → c'.current.description = c.current.description
  remaining : ∀ {c c'}, related c c' → c'.rest.length = c.rest.length
  start : ∀ {c c'}, related c c' → starts c.current.span.start c'.current.span.start
  located : ∀ {c c' n n'}, related c c' → starts n n' →
    target.locate n' c'.lastStop = (source.locate n c.lastStop).bind relocate
  fail : ∀ {c c'}, related c c' → ∀ cause, cause.IsAbout c.current.token →
    faults (.ofCause c.current.span.start cause) (.ofCause c'.current.span.start cause)
  withHint : ∀ {e e'}, faults e e' → ∀ hint, faults (e.withHint hint) (e'.withHint hint)
  advance : ∀ {c c'}, related c c' →
    Agrees related faults id (Parser.advance source c) (Parser.advance target c')

namespace Parser

variable {α β γ δ : Type} {m : Simulation}

/-- The two parsers keep in step, and `g` leads from the answer of the first to that
of the second. -/
def Simulates (m : Simulation) (g : α → β) (p : Parser α) (p' : Parser β) : Prop :=
  ∀ ⦃c c' : Cursor⦄, m.related c c' → Agrees m.related m.faults g (p m.source c) (p' m.target c')

theorem Simulates.pure {g : α → β} {a : α} {b : β} (h : b = g a) :
    Simulates m g (Pure.pure a) (Pure.pure b) := fun _ _ hc => ⟨h, hc⟩

theorem Simulates.bind {g : α → β} {k : γ → δ} {p : Parser α} {p' : Parser β} {q : α → Parser γ}
    {q' : β → Parser δ} (hp : Simulates m g p p') (hq : ∀ a, Simulates m k (q a) (q' (g a))) :
    Simulates m k (p >>= q) (p' >>= q') := by
  intro c c' hc
  have first := hp hc
  simp only [Bind.bind]
  cases hr : p m.source c with
  | error e =>
    cases hr' : p' m.target c' with
    | error e' =>
      rw [hr, hr'] at first
      exact first
    | ok r' =>
      rw [hr, hr'] at first
      exact first.elim
  | ok r =>
    cases hr' : p' m.target c' with
    | error e' =>
      rw [hr, hr'] at first
      exact first.elim
    | ok r' =>
      obtain ⟨a, d⟩ := r
      obtain ⟨b, d'⟩ := r'
      rw [hr, hr'] at first
      obtain ⟨rfl, hd⟩ := first
      exact hq a hd

theorem Simulates.map {g : α → β} {k : γ → δ} {p : Parser α} {p' : Parser β}
    {f : α → γ} {f' : β → δ} (hp : Simulates m g p p') (hf : ∀ a, f' (g a) = k (f a)) :
    Simulates m k (f <$> p) (f' <$> p') :=
  hp.bind fun a => Simulates.pure (hf a)

theorem Simulates.ite {g : α → β} {p q : Parser α} {p' q' : Parser β} {P : Prop} [Decidable P]
    (hp : Simulates m g p p') (hq : Simulates m g q q') :
    Simulates m g (if P then p else q) (if P then p' else q') := by
  by_cases h : P
  · rw [if_pos h, if_pos h]
    exact hp
  · rw [if_neg h, if_neg h]
    exact hq

theorem Simulates.start {g : α → β} {q : Nat → Parser α} {q' : Nat → Parser β}
    (h : ∀ {n n'}, m.starts n n' → Simulates m g (q n) (q' n')) :
    Simulates m g (Parser.start >>= q) (Parser.start >>= q') :=
  fun _ _ hc => h (m.start hc) hc

theorem Simulates.token {g : α → β} {q : Token → Parser α} {q' : Token → Parser β}
    (h : ∀ t, Simulates m g (q t) (q' t)) :
    Simulates m g (Parser.token >>= q) (Parser.token >>= q') := by
  intro c c' hc
  change Agrees m.related m.faults g (q c.current.token m.source c)
    (q' c'.current.token m.target c')
  rw [m.token hc]
  exact h c.current.token hc

theorem Simulates.peek {g : α → β} {q : Bool → Parser α} {q' : Bool → Parser β} (p : Punctuator)
    (h : ∀ b, Simulates m g (q b) (q' b)) :
    Simulates m g (Parser.peek p >>= q) (Parser.peek p >>= q') := by
  intro c c' hc
  change Agrees m.related m.faults g (q (decide (c.current.token = .punctuator p)) m.source c)
    (q' (decide (c'.current.token = .punctuator p)) m.target c')
  rw [m.token hc]
  exact h _ hc

theorem Simulates.description {g : α → β} {q : Option String → Parser α}
    {q' : Option String → Parser β} (h : ∀ d, Simulates m g (q d) (q' d)) :
    Simulates m g (Parser.description >>= q) (Parser.description >>= q') := by
  intro c c' hc
  change Agrees m.related m.faults g (q c.current.description m.source c)
    (q' c'.current.description m.target c')
  rw [m.description hc]
  exact h c.current.description hc

theorem Simulates.remaining {g : α → β} {q : Nat → Parser α} {q' : Nat → Parser β}
    (h : ∀ n, Simulates m g (q n) (q' n)) :
    Simulates m g (Parser.remaining >>= q) (Parser.remaining >>= q') := by
  intro c c' hc
  change Agrees m.related m.faults g (q (c.rest.length + 1) m.source c)
    (q' (c'.rest.length + 1) m.target c')
  rw [m.remaining hc]
  exact h (c.rest.length + 1) hc

theorem Simulates.setting {g : α → β} {q : Setting → Parser α} {q' : Setting → Parser β}
    (h : Simulates m g (q m.source) (q' m.target)) :
    Simulates m g (Parser.setting >>= q) (Parser.setting >>= q') := fun _ _ hc => h hc

theorem Simulates.located {g : α → β} {q : Option Loc → Parser α}
    {q' : Option Loc → Parser β} {n n' : Nat} (hn : m.starts n n')
    (h : ∀ loc, Simulates m g (q loc) (q' (loc.bind m.relocate))) :
    Simulates m g (Parser.located n >>= q) (Parser.located n' >>= q') := by
  intro c c' hc
  change Agrees m.related m.faults g (q (m.source.locate n c.lastStop) m.source c)
    (q' (m.target.locate n' c'.lastStop) m.target c')
  rw [m.located hc hn]
  exact h (m.source.locate n c.lastStop) hc

private theorem simulates_expected (g : α → β) {wanted : Expectation} (h : wanted.IsProper) :
    Simulates m g (expected wanted) (expected wanted) := by
  intro c c' hc
  change m.faults (.ofCause c.current.span.start (.expected wanted c.current.token))
    (.ofCause c'.current.span.start (.expected wanted c'.current.token))
  rw [m.token hc]
  exact m.fail hc _ ⟨h, rfl⟩

theorem simulates_unexpected (g : α → β) : Simulates m g unexpected unexpected := by
  intro c c' hc
  change m.faults (.ofCause c.current.span.start (.unexpected c.current.token))
    (.ofCause c'.current.span.start (.unexpected c'.current.token))
  rw [m.token hc]
  exact m.fail hc _ rfl

theorem simulates_tooDeep (g : α → β) : Simulates m g tooDeep tooDeep := by
  refine Simulates.setting ?_
  rw [m.maxDepth]
  exact fun _ _ hc => m.fail hc _ trivial

theorem Simulates.withHint {g : α → β} {p : Parser α} {p' : Parser β}
    (h : Simulates m g p p') (hint : Hint) :
    Simulates m g (Parser.withHint hint p) (Parser.withHint hint p') := by
  intro c c' hc
  have step := h hc
  unfold Parser.withHint
  cases hr : p m.source c <;> cases hr' : p' m.target c' <;> rw [hr, hr'] at step
  · exact m.withHint step hint
  · exact step
  · exact step
  · exact step

theorem simulates_advance : Simulates m id advance advance := fun _ _ hc => m.advance hc

theorem simulates_skip (p : Punctuator) : Simulates m id (skip p) (skip p) := by
  refine Simulates.peek p fun b => Simulates.ite ?_ (Simulates.pure rfl)
  exact simulates_advance.bind fun _ => Simulates.pure rfl

theorem simulates_expect (p : Punctuator) : Simulates m id (expect p) (expect p) :=
  Simulates.peek p fun _ => Simulates.ite simulates_advance (simulates_expected id trivial)

theorem simulates_keyword {word : String} (h : IsName word) :
    Simulates m id (keyword word) (keyword word) :=
  Simulates.token fun _ => Simulates.ite simulates_advance (simulates_expected id h)

theorem simulates_endOfInput : Simulates m id endOfInput endOfInput :=
  Simulates.token fun _ => Simulates.ite simulates_advance (simulates_expected id trivial)

theorem simulates_name : Simulates m (·.mapLoc m.relocate) name name := by
  refine Simulates.start fun hn => Simulates.token fun t => ?_
  cases t with
  | name text =>
    refine simulates_advance.bind fun _ => ?_
    exact Simulates.located hn fun loc => Simulates.pure rfl
  | _ => exact simulates_expected _ trivial

section Repetition

variable {g : α → β} {p : Parser α} {p' : Parser β}

private theorem simulates_untilClose (h : Simulates m g p p') (close : Punctuator) (count : Nat) :
    Simulates m (List.map g) (untilClose close p count) (untilClose close p' count) := by
  induction count with
  | zero => exact simulates_unexpected _
  | succ count ih =>
    refine (simulates_skip close).bind fun b => Simulates.ite (Simulates.pure rfl) ?_
    exact h.bind fun a => ih.bind fun as => Simulates.pure rfl

private theorem simulates_whileNext (h : Simulates m g p p') (starts : Token → Bool) (count : Nat) :
    Simulates m (List.map g) (whileNext starts p count) (whileNext starts p' count) := by
  induction count with
  | zero => exact Simulates.pure rfl
  | succ count ih =>
    refine Simulates.token fun t => Simulates.ite ?_ (Simulates.pure rfl)
    exact h.bind fun a => ih.bind fun as => Simulates.pure rfl

private theorem simulates_eachAfter (h : Simulates m g p p') (q : Punctuator) (count : Nat) :
    Simulates m (List.map g) (eachAfter q p count) (eachAfter q p' count) := by
  induction count with
  | zero => exact Simulates.pure rfl
  | succ count ih =>
    refine (simulates_skip q).bind fun b => Simulates.ite ?_ (Simulates.pure rfl)
    exact h.bind fun a => ih.bind fun as => Simulates.pure rfl

theorem simulates_block (h : Simulates m g p p') (before after : Punctuator) :
    Simulates m (List.map g) (block before after p) (block before after p') :=
  (simulates_expect before).bind fun _ => Simulates.remaining fun n =>
    simulates_untilClose h after n

theorem simulates_block1 (h : Simulates m g p p') (before after : Punctuator) :
    Simulates m (List.map g) (block1 before after p) (block1 before after p') := by
  refine (simulates_expect before).bind fun _ => h.bind fun a => Simulates.remaining fun n => ?_
  exact (simulates_untilClose h after n).bind fun as => Simulates.pure rfl

theorem simulates_optionalBlock (h : Simulates m g p p') (before after : Punctuator) :
    Simulates m (List.map g) (optionalBlock before after p) (optionalBlock before after p') :=
  Simulates.peek before fun _ =>
    Simulates.ite (simulates_block1 h before after) (Simulates.pure rfl)

theorem simulates_many (h : Simulates m g p p') (starts : Token → Bool) :
    Simulates m (List.map g) (many starts p) (many starts p') :=
  Simulates.remaining fun n => simulates_whileNext h starts n

theorem simulates_separatedBy (h : Simulates m g p p') (q : Punctuator) :
    Simulates m (List.map g) (separatedBy q p) (separatedBy q p') := by
  refine h.bind fun a => Simulates.remaining fun n => ?_
  exact (simulates_eachAfter h q n).bind fun as => Simulates.pure rfl

end Repetition

end Parser

end SchemaLang
