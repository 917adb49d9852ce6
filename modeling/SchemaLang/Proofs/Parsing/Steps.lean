import SchemaLang.Proofs.Contract
import SchemaLang.Proofs.Syntax

/-!
# Steps of a parse

How the parsers that all others are made of move a cursor. `Yields` says of a parser that between
the cursor it starts at and the one it ends at stands the form of what it answers, and that its
answers conform; `Accepts` says that it answers a conforming thing wherever the form of that thing
stands, as long as the next token does not go on with it.
-/

namespace SchemaLang

/-- The text of the token and its description can be written. -/
structure Lexeme.IsValid (l : Lexeme) : Prop where
  token : l.token.IsValid
  description : ConformsDescription l.description

/-- The lexemes are valid, and the last one is the end of the input unless a fault stands there. -/
structure Cursor.IsSound (s : Setting) (c : Cursor) : Prop where
  valid : ∀ l ∈ c.lexemes, l.IsValid
  ends : s.fault = none → (c.lexemes.getLast (List.cons_ne_nil _ _)).token = .endOfInput

theorem Cursor.IsSound.of_suffix {s : Setting} {c c' : Cursor} (h : c.IsSound s)
    (hs : c'.lexemes <:+ c.lexemes) : c'.IsSound s := by
  refine ⟨fun l hl => h.valid l (hs.subset hl), fun hf => ?_⟩
  rw [hs.getLast (List.cons_ne_nil _ _)]
  exact h.ends hf

theorem Cursor.IsSound.current {s : Setting} {c : Cursor} (h : c.IsSound s) : c.current.IsValid :=
  h.valid _ (List.mem_cons_self ..)

theorem Cursor.IsSound.of_moves {s : Setting} {c c' : Cursor} (hc : c.IsSound s) (h : c.Moves c') :
    c'.IsSound s :=
  hc.of_suffix h.suffix

theorem Cursor.IsSound.of_spans {s : Setting} {c c' : Cursor} {F : Form}
    {locate : Nat → Nat → Option Loc} (hc : c.IsSound s) (h : F.Spans locate c c') : c'.IsSound s :=
  hc.of_suffix (Form.suffix_of_spans h)

namespace Parser

variable {α β : Type} {s : Setting} {c c' : Cursor}

theorem bind_eq_ok {p : Parser α} {f : α → Parser β} {b : β} :
    (p >>= f) s c = .ok (b, c') ↔ ∃ a m, p s c = .ok (a, m) ∧ f a s m = .ok (b, c') := by
  cases hp : p s c with
  | error e => simp [bind, hp]
  | ok r => obtain ⟨a, m⟩ := r; simp [bind, hp]

theorem pure_eq_ok {a b : α} : (pure a : Parser α) s c = .ok (b, c') ↔ a = b ∧ c = c' := by
  change Except.ok (a, c) = _ ↔ _
  simp

theorem map_eq_ok {p : Parser α} {f : α → β} {b : β} :
    (f <$> p) s c = .ok (b, c') ↔ ∃ a, p s c = .ok (a, c') ∧ f a = b := by
  change (p >>= fun a => pure (f a)) s c = _ ↔ _
  rw [bind_eq_ok]
  simp only [pure_eq_ok]
  constructor
  · rintro ⟨a, m, hp, rfl, rfl⟩; exact ⟨a, hp, rfl⟩
  · rintro ⟨a, hp, rfl⟩; exact ⟨a, c', hp, rfl, rfl⟩

/-- A parser goes on from where its first part ends. -/
theorem bind_of_ok {p : Parser α} {f : α → Parser β} {a : α} (h : p s c = .ok (a, c')) :
    (p >>= f) s c = f a s c' := by
  simp [bind, h]

theorem bind_assoc {γ : Type} (p : Parser α) (f : α → Parser β) (g : β → Parser γ) :
    (p >>= f) >>= g = p >>= fun a => f a >>= g := by
  funext s c
  cases hp : p s c with
  | error e => simp [bind, hp]
  | ok r => simp [bind, hp]

@[simp] theorem start_bind (f : Nat → Parser β) :
    (start >>= f) s c = f c.current.span.start s c := rfl
@[simp] theorem token_bind (f : Token → Parser β) : (token >>= f) s c = f c.current.token s c := rfl
@[simp] theorem description_bind (f : Option String → Parser β) :
    (description >>= f) s c = f c.current.description s c := rfl
@[simp] theorem remaining_bind (f : Nat → Parser β) :
    (remaining >>= f) s c = f (c.rest.length + 1) s c := rfl
@[simp] theorem setting_bind (f : Setting → Parser β) : (setting >>= f) s c = f s s c := rfl
@[simp] theorem located_bind (n : Nat) (f : Option Loc → Parser β) :
    (located n >>= f) s c = f (s.locate n c.lastStop) s c := rfl
@[simp] theorem peek_bind (p : Punctuator) (f : Bool → Parser β) :
    (peek p >>= f) s c = f (decide (c.current.token = .punctuator p)) s c := rfl
@[simp] theorem pure_bind (a : α) (f : α → Parser β) : (pure a >>= f) s c = f a s c := rfl

@[simp] theorem fail_ne_ok (cause : Cause) (a : α) : (fail cause : Parser α) s c ≠ .ok (a, c') := by
  simp [fail]

@[simp] theorem expected_ne_ok (wanted : Expectation) (a : α) :
    (expected wanted : Parser α) s c ≠ .ok (a, c') := by
  simp [expected]

@[simp] theorem unexpected_ne_ok (a : α) : (unexpected : Parser α) s c ≠ .ok (a, c') := by
  simp [unexpected]

@[simp] theorem tooDeep_ne_ok (a : α) : (tooDeep : Parser α) s c ≠ .ok (a, c') := by
  simp [tooDeep]

@[simp] theorem withHint_eq_ok {hint : Hint} {p : Parser α} {a : α} :
    withHint hint p s c = .ok (a, c') ↔ p s c = .ok (a, c') := by
  unfold withHint
  cases p s c <;> simp

theorem advance_of_moves (h : c.Moves c') : advance s c = .ok ((), c') := by
  obtain ⟨current, rest, lastStop⟩ := c'
  obtain ⟨hrest, hstop⟩ := h
  simp only [Cursor.lexemes] at hrest
  simp only at hstop
  simp [advance, hrest, hstop]

theorem moves_of_advance {u : Unit} (hc : c.IsSound s) (ht : c.current.token ≠ .endOfInput)
    (h : advance s c = .ok (u, c')) : c.Moves c' := by
  unfold advance at h
  split at h
  · rename_i hrest
    simp only [Except.ok.injEq, Prod.mk.injEq] at h
    obtain ⟨-, rfl⟩ := h
    exact ⟨hrest, rfl⟩
  · rename_i hrest
    split at h
    · simp at h
    · rename_i hfault
      have hlast := hc.ends hfault
      simp only [Cursor.lexemes, hrest, List.getLast_singleton] at hlast
      exact absurd hlast ht

theorem expect_of_moves {p : Punctuator} (ht : c.current.token = .punctuator p) (h : c.Moves c') :
    expect p s c = .ok ((), c') := by
  simp [expect, ht, advance_of_moves h]

theorem moves_of_expect {p : Punctuator} {u : Unit} (hc : c.IsSound s)
    (h : expect p s c = .ok (u, c')) : c.current.token = .punctuator p ∧ c.Moves c' := by
  by_cases ht : c.current.token = .punctuator p
  · simp only [expect, peek_bind, ht, decide_true, if_true] at h
    exact ⟨ht, moves_of_advance hc (by simp [ht]) h⟩
  · simp [expect, ht] at h

theorem keyword_of_moves {word : String} (ht : c.current.token = .name word) (h : c.Moves c') :
    keyword word s c = .ok ((), c') := by
  simp [keyword, ht, advance_of_moves h]

theorem moves_of_keyword {word : String} {u : Unit} (hc : c.IsSound s)
    (h : keyword word s c = .ok (u, c')) : c.current.token = .name word ∧ c.Moves c' := by
  by_cases ht : c.current.token = .name word
  · simp only [keyword, token_bind, ht, if_true] at h
    exact ⟨ht, moves_of_advance hc (by simp [ht]) h⟩
  · simp [keyword, ht] at h

theorem skip_bind (p : Punctuator) (f : Bool → Parser β) : (skip p >>= f) s c =
    if c.current.token = .punctuator p then (advance >>= fun _ => f true) s c else f false s c := by
  simp only [skip, bind_assoc, peek_bind]
  by_cases ht : c.current.token = .punctuator p
  · simp only [ht, decide_true, if_true, bind_assoc]
    rfl
  · simp [ht]

/-- A punctuator that may stand somewhere is taken, and the rest is read behind it, or the rest is
read at once. -/
theorem skip_bind_cases {p : Punctuator} {f : Bool → Parser β} {b : β} (hc : c.IsSound s)
    (h : (skip p >>= f) s c = .ok (b, c')) :
    (∃ m, (Form.punctuator p).Spans s.locate c m ∧ m.IsSound s ∧ f true s m = .ok (b, c')) ∨
      f false s c = .ok (b, c') := by
  rw [skip_bind] at h
  split at h
  · rename_i ht
    obtain ⟨_, m, hadv, h⟩ := bind_eq_ok.1 h
    have hm := moves_of_advance hc (by simp [ht]) hadv
    exact .inl ⟨m, ⟨ht, hm⟩, hc.of_moves hm, h⟩
  · exact .inr h

/-- Between the cursors stands the form of the answer, and the answer conforms. -/
def Yields (p : Parser α) (form : α → Form) (P : α → Prop) : Prop :=
  ∀ ⦃s : Setting⦄ ⦃c c' : Cursor⦄ ⦃a : α⦄, c.IsSound s → p s c = .ok (a, c') →
    (form a).Spans s.locate c c' ∧ P a

/-- What conforms is answered where its form stands, if the token behind it may follow it. -/
def Accepts (p : Parser α) (form : α → Form) (P : α → Prop) (follow : Token → Prop) : Prop :=
  ∀ ⦃s : Setting⦄ ⦃c c' : Cursor⦄ ⦃a : α⦄, P a → (form a).Spans s.locate c c' →
    follow c'.current.token → p s c = .ok (a, c')

/-- The next parser starts at a sound cursor too. -/
theorem Yields.step {p : Parser α} {form : α → Form} {P : α → Prop} {a : α} (hp : Yields p form P)
    (hc : c.IsSound s) (h : p s c = .ok (a, c')) :
    (form a).Spans s.locate c c' ∧ P a ∧ c'.IsSound s := by
  obtain ⟨hspans, hconforms⟩ := hp hc h
  exact ⟨hspans, hconforms, hc.of_spans hspans⟩

end Parser
end SchemaLang
