import SchemaLang.Proofs.Covering
import SchemaLang.Proofs.Simulation.Basic
import SchemaLang.Proofs.Soundness.Basic

/-!
# Misfits that could have been right

A parser that fails for a token that does not fit has read nothing wrong before it: the lexemes that
it took can be gone on with, from the place of the misfit, to lexemes of something it answers. A
description in front of the misfit is kept. `Resumes` says so of a parser and of the lists of
lexemes that may come out, and each parser is shown to resume from the parsers that it is made of.
-/

namespace SchemaLang

/-- A token, or the end, does not fit where it stands. -/
def Category.IsMisfit : Category → Prop
  | .unexpectedToken .. => True
  | .unexpectedEnd _ => True
  | _ => False

/-- Locations are not wanted, and no misfit stands where the lexemes end. -/
structure Setting.IsBare (s : Setting) : Prop where
  unlocated : ∀ start stop, s.locate start stop = none
  fault : ∀ f, s.fault = some f → ¬ f.cause.category.IsMisfit

/-- The lexemes of a form without locations. -/
abbrev Form.Writes (F : Form) (ls : List Lexeme) : Prop := F.Covers (fun _ _ => none) ls

/-- What a parse spans are lexemes without locations. -/
theorem Setting.IsBare.writes_of_spans {s : Setting} {F : Form} {c c' : Cursor} (hs : s.IsBare)
    (h : F.Spans s.locate c c') : ∃ ls, c.lexemes = ls ++ c'.lexemes ∧ F.Writes ls := by
  obtain ⟨ls, hls, -, covers⟩ := Form.covers_of_spans h
  have locate : s.locate = fun _ _ => none :=
    funext fun start => funext fun stop => hs.unlocated start stop
  rw [locate] at covers
  exact ⟨ls, hls, covers⟩

/-- In front of the lexeme at a place the lexemes go on to lexemes of a sort, of which the first
behind them has the description of the one at that place. -/
def Cursor.GoesOn (c : Cursor) (position : Nat) (G : List Lexeme → Prop) : Prop :=
  ∃ front next more k ks, c.lexemes = front ++ next :: more ∧ position = next.span.start ∧
    k.description = next.description ∧ (∀ l ∈ k :: ks, l.IsValid) ∧ G (front ++ k :: ks)

namespace Cursor

variable {c m : Cursor} {position : Nat} {G H : List Lexeme → Prop}

theorem GoesOn.mono (h : c.GoesOn position G) (hG : ∀ ls, G ls → H ls) : c.GoesOn position H := by
  obtain ⟨front, next, more, k, ks, hfront, hposition, hk, hvalid, hls⟩ := h
  exact ⟨front, next, more, k, ks, hfront, hposition, hk, hvalid, hG _ hls⟩

/-- What goes on from a later cursor goes on behind the lexemes that lead there. -/
theorem GoesOn.of_append {ls : List Lexeme} (hc : c.lexemes = ls ++ m.lexemes)
    (h : m.GoesOn position fun ls' => G (ls ++ ls')) : c.GoesOn position G := by
  obtain ⟨front, next, more, k, ks, hfront, hposition, hk, hvalid, hls⟩ := h
  refine ⟨ls ++ front, next, more, k, ks, ?_, hposition, hk, hvalid, ?_⟩
  · rw [hc, hfront, List.append_assoc]
  · rw [List.append_assoc]
    exact hls

/-- More lexemes can be put behind those that are gone on to. -/
theorem GoesOn.extend (h : c.GoesOn position H)
    (hG : ∀ ls, H ls → ∃ ls', (∀ l ∈ ls', l.IsValid) ∧ G (ls ++ ls')) : c.GoesOn position G := by
  obtain ⟨front, next, more, k, ks, hfront, hposition, hk, hvalid, hls⟩ := h
  obtain ⟨ls', hvalid', hG⟩ := hG _ hls
  refine ⟨front, next, more, k, ks ++ ls', hfront, hposition, hk, ?_, ?_⟩
  · rw [← List.cons_append]
    exact List.forall_mem_append.2 ⟨hvalid, hvalid'⟩
  · rw [List.append_assoc, List.cons_append] at hG
    exact hG

end Cursor

namespace Form

theorem writes_located {F : Form} {ls : List Lexeme} (h : F.Writes ls) :
    (located none F).Writes ls :=
  ⟨h, fun _ _ => rfl⟩

theorem writes_all_nil : (all []).Writes [] := rfl

theorem writes_all_cons {F : Form} {Fs : List Form} {ls ls' : List Lexeme} (h : F.Writes ls)
    (hs : (all Fs).Writes ls') :
    (all (F :: Fs)).Writes (ls ++ ls') := ⟨ls, ls', rfl, h, hs⟩

end Form

namespace Parser

variable {α β : Type}

/-- The lexemes of something. -/
def LexemesOf (form : α → Form) (P : α → Prop) (ls : List Lexeme) : Prop :=
  ∃ a, P a ∧ (form a).Writes ls

/-- There are lexemes of this sort, all of them valid. -/
def IsWritable (G : List Lexeme → Prop) : Prop := ∃ ls, (∀ l ∈ ls, l.IsValid) ∧ G ls

/-- There are lexemes of this sort whose first has any description that is wanted. -/
def IsBegun (G : List Lexeme → Prop) : Prop :=
  ∀ d, ConformsDescription d → ∃ k ks, (∀ l ∈ k :: ks, l.IsValid) ∧ k.description = d ∧ G (k :: ks)

/-- The lexemes in front of a misfit go on to lexemes of this sort, with the description in front
of the misfit. -/
def Completes (p : Parser α) (G : List Lexeme → Prop) : Prop :=
  ∀ ⦃s : Setting⦄ ⦃c : Cursor⦄ ⦃e : SyntaxError⦄, s.IsBare → c.IsSound s → p s c = .error e →
    e.cause.category.IsMisfit → c.GoesOn e.position G

/-- What a misfit leaves can be completed, and there is something of this sort at all. -/
structure Resumes (p : Parser α) (G : List Lexeme → Prop) : Prop where
  completes : Completes p G
  isWritable : IsWritable G

variable {G H : List Lexeme → Prop} {p q : Parser α}

theorem IsBegun.isWritable (h : IsBegun G) : IsWritable G := by
  obtain ⟨k, ks, hvalid, -, hG⟩ := h none (by simp [ConformsDescription])
  exact ⟨k :: ks, hvalid, hG⟩

/-- A lexeme of a token, in front of lexemes that can be written. -/
theorem isBegun_of_token {t : Token} (ht : t.IsValid)
    (h : ∀ l : Lexeme, l.token = t → IsWritable fun ls => G (l :: ls)) : IsBegun G := by
  intro d hd
  obtain ⟨ls, hvalid, hG⟩ := h ⟨t, ⟨0, 0⟩, d⟩ rfl
  exact ⟨⟨t, ⟨0, 0⟩, d⟩, ls, List.forall_mem_cons.2 ⟨⟨ht, hd⟩, hvalid⟩, rfl, hG⟩

theorem Completes.mono (h : Completes p G) (hG : ∀ ls, G ls → H ls) : Completes p H :=
  fun _ _ _ hs hc he hmisfit => (h hs hc he hmisfit).mono hG

theorem IsWritable.mono (h : IsWritable G) (hG : ∀ ls, G ls → H ls) : IsWritable H := by
  obtain ⟨ls, hvalid, hls⟩ := h
  exact ⟨ls, hvalid, hG _ hls⟩

theorem IsBegun.mono (h : IsBegun G) (hG : ∀ ls, G ls → H ls) : IsBegun H := by
  intro d hd
  obtain ⟨k, ks, hvalid, hk, hls⟩ := h d hd
  exact ⟨k, ks, hvalid, hk, hG _ hls⟩

/-- Whatever keeps the parser from an answer is no misfit. -/
def MeetsNoMisfit (p : Parser α) : Prop :=
  ∀ ⦃s : Setting⦄ ⦃c : Cursor⦄ ⦃e : SyntaxError⦄, s.IsBare → p s c = .error e →
    ¬ e.cause.category.IsMisfit

theorem MeetsNoMisfit.completes (h : MeetsNoMisfit p) : Completes p G :=
  fun _ _ _ hs _ he hmisfit => absurd hmisfit (h hs he)

theorem meetsNoMisfit_pure (a : α) : MeetsNoMisfit (pure a) := fun _ _ _ _ he => nomatch he

theorem meetsNoMisfit_located (n : Nat) : MeetsNoMisfit (located n) := fun _ _ _ _ he => nomatch he

/-- Behind a token there may be a fault of the text. -/
theorem meetsNoMisfit_advance : MeetsNoMisfit advance := by
  intro s c e hs he
  unfold advance at he
  split at he
  · exact nomatch he
  · split at he
    · rename_i f hf
      cases he
      exact hs.fault _ hf
    · exact nomatch he

theorem meetsNoMisfit_tooDeep : MeetsNoMisfit (tooDeep : Parser α) := by
  intro s c e _ he
  cases he
  exact not_false

theorem meetsNoMisfit_tooDeep_bind {q : α → Parser β} : MeetsNoMisfit (tooDeep >>= q) := by
  intro s c e _ he
  cases he
  exact not_false

theorem MeetsNoMisfit.bind {q : α → Parser β} (hp : MeetsNoMisfit p)
    (hq : ∀ a, MeetsNoMisfit (q a)) : MeetsNoMisfit (p >>= q) := by
  intro s c e hs he
  simp only [Bind.bind] at he
  cases hr : p s c with
  | ok r =>
    rw [hr] at he
    exact hq r.1 hs he
  | error f =>
    rw [hr] at he
    cases he
    exact hp hs hr

theorem MeetsNoMisfit.ite {P : Prop} [Decidable P] (hp : MeetsNoMisfit p) (hq : MeetsNoMisfit q) :
    MeetsNoMisfit (if P then p else q) := by
  split
  · exact hp
  · exact hq

theorem meetsNoMisfit_skip (p : Punctuator) : MeetsNoMisfit (skip p) := by
  have peeks : MeetsNoMisfit (peek p) := fun _ _ _ _ he => nomatch he
  exact peeks.bind fun _ =>
    .ite (meetsNoMisfit_advance.bind fun _ => meetsNoMisfit_pure true) (meetsNoMisfit_pure false)

/-- What stands behind a misfit does not matter if no other can follow. -/
theorem Completes.before {q : α → Parser β} (hp : Completes p G) (hq : ∀ a, MeetsNoMisfit (q a)) :
    Completes (p >>= q) G := by
  intro s c e hs hc he hmisfit
  simp only [Bind.bind] at he
  cases hr : p s c with
  | ok r =>
    rw [hr] at he
    exact absurd hmisfit (hq r.1 hs he)
  | error f =>
    rw [hr] at he
    cases he
    exact hp hs hc hr hmisfit

/-- At a misfit that is looked at anything may begin. -/
theorem completes_of_isBegun (hG : IsBegun G)
    (hp : ∀ ⦃s c e⦄, s.IsBare → p s c = .error e → e.cause.category.IsMisfit →
      e.position = c.current.span.start) : Completes p G := by
  intro s c e hs hc he hmisfit
  obtain ⟨k, ks, hvalid, hk, hls⟩ := hG c.current.description hc.current.description
  exact ⟨[], c.current, c.rest, k, ks, rfl, hp hs he hmisfit, hk, hvalid, hls⟩

theorem completes_unexpected (hG : IsBegun G) : Completes (unexpected : Parser α) G := by
  refine completes_of_isBegun hG fun s c e _ he _ => ?_
  cases he
  rfl

theorem Completes.withHint (h : Completes p G) (hint : Hint) : Completes (withHint hint p) G := by
  intro s c e hs hc he hmisfit
  unfold Parser.withHint at he
  cases hp : p s c with
  | ok r => simp [hp] at he
  | error f =>
    simp only [hp, Except.error.injEq] at he
    subst he
    have goesOn := h hs hc hp hmisfit
    exact goesOn

theorem Yields.withHint {form : α → Form} {P : α → Prop} (h : Yields p form P) (hint : Hint) :
    Yields (withHint hint p) form P := fun _ _ _ _ hc hr => h hc (withHint_eq_ok.1 hr)

theorem Resumes.pure {a : α} (h : G []) : Resumes (pure a) G :=
  ⟨(meetsNoMisfit_pure a).completes, [], fun _ hl => absurd hl List.not_mem_nil, h⟩

theorem Completes.token {q : Token → Parser α} (h : ∀ t, Completes (q t) G) :
    Completes (token >>= q) G :=
  fun _ c _ hs hc he => h c.current.token hs hc he

theorem Completes.start {q : Nat → Parser α} (h : ∀ n, Completes (q n) G) :
    Completes (start >>= q) G :=
  fun _ c _ hs hc he => h c.current.span.start hs hc he

theorem Resumes.start {q : Nat → Parser α} (h : ∀ n, Resumes (q n) G) : Resumes (start >>= q) G :=
  ⟨.start fun n => (h n).completes, (h 0).isWritable⟩

theorem Resumes.peek (p : Punctuator) {q : Bool → Parser α} (h : ∀ b, Resumes (q b) G) :
    Resumes (peek p >>= q) G :=
  ⟨fun _ c _ hs hc he => (h (decide (c.current.token = .punctuator p))).completes hs hc he,
    (h true).isWritable⟩

theorem Resumes.token {q : Token → Parser α} (h : ∀ t, Resumes (q t) G) : Resumes (token >>= q) G :=
  ⟨.token fun t => (h t).completes, (h .endOfInput).isWritable⟩

theorem Resumes.remaining {q : Nat → Parser α} (h : ∀ n, Resumes (q n) G) :
    Resumes (remaining >>= q) G :=
  ⟨fun _ c _ hs hc he => (h (c.rest.length + 1)).completes hs hc he, (h 0).isWritable⟩

theorem Completes.located {n : Nat} {q : Option Loc → Parser α} (h : Completes (q none) G) :
    Completes (located n >>= q) G := by
  intro s c e hs hc he
  rw [located_bind, hs.unlocated] at he
  exact h hs hc he

theorem Resumes.located {n : Nat} {q : Option Loc → Parser α} (h : Resumes (q none) G) :
    Resumes (located n >>= q) G := ⟨.located h.completes, h.isWritable⟩

theorem Completes.ite {P : Prop} [Decidable P] (hp : Completes p G) (hq : Completes q G) :
    Completes (if P then p else q) G := by
  by_cases h : P
  · rw [if_pos h]
    exact hp
  · rw [if_neg h]
    exact hq

theorem Resumes.ite {P : Prop} [Decidable P] (hp : Resumes p G) (hq : Resumes q G) :
    Resumes (if P then p else q) G :=
  ⟨hp.completes.ite hq.completes, hp.isWritable⟩

theorem Resumes.mono (h : Resumes p G) (hG : ∀ ls, G ls → H ls) : Resumes p H :=
  ⟨h.completes.mono hG, h.isWritable.mono hG⟩

theorem Resumes.withHint (h : Resumes p G) (hint : Hint) : Resumes (withHint hint p) G :=
  ⟨h.completes.withHint hint, h.isWritable⟩

/-- A parser that goes on from where its first part ends resumes if both parts do. -/
theorem Resumes.bind {form : α → Form} {P : α → Prop} {q : α → Parser β} (yields : Yields p form P)
    (hp : Resumes p (LexemesOf form P))
    (hq : ∀ a ls, P a → (form a).Writes ls → Resumes (q a) fun ls' => G (ls ++ ls')) :
    Resumes (p >>= q) G := by
  constructor
  · intro s c e hs hc he hmisfit
    simp only [Bind.bind] at he
    cases hr : p s c with
    | error f =>
      -- What the first part could have gone on to is gone on with by anything that the
      -- second part takes.
      rw [hr] at he
      cases he
      exact (hp.completes hs hc hr hmisfit).extend fun ls ⟨a, pa, fa⟩ => (hq a ls pa fa).isWritable
    | ok r =>
      obtain ⟨a, m⟩ := r
      rw [hr] at he
      obtain ⟨sa, pa, hm⟩ := yields.step hc hr
      obtain ⟨ls, hls, fa⟩ := hs.writes_of_spans sa
      exact .of_append hls ((hq a ls pa fa).completes hs hm he hmisfit)
  · obtain ⟨ls, hls, a, pa, fa⟩ := hp.isWritable
    obtain ⟨ls', hls', hG⟩ := (hq a ls pa fa).isWritable
    exact ⟨ls ++ ls', List.forall_mem_append.2 ⟨hls, hls'⟩, hG⟩

theorem Resumes.before {q : α → Parser β} (hp : Resumes p G) (hq : ∀ a, MeetsNoMisfit (q a)) :
    Resumes (p >>= q) G := ⟨hp.completes.before hq, hp.isWritable⟩

/-- A parser of something goes on to the lexemes of what is made of it. -/
theorem Resumes.map {form : α → Form} {P : α → Prop} {form' : β → Form} {P' : β → Prop}
    (h : Resumes p (LexemesOf form P)) (f : α → β) (hform : ∀ a, form' (f a) = form a)
    (hP : ∀ a, P a → P' (f a)) : Resumes (f <$> p) (LexemesOf form' P') := by
  refine (h.mono ?_).before fun a => meetsNoMisfit_pure (f a)
  rintro ls ⟨a, pa, fa⟩
  exact ⟨f a, hP a pa, (hform a).symm ▸ fa⟩

theorem Resumes.map_bind {γ : Type} {f : α → γ} {q : γ → Parser β}
    (h : Resumes (p >>= fun a => q (f a)) G) : Resumes ((f <$> p) >>= q) G := by
  have same : (f <$> p) >>= q = p >>= fun a => q (f a) := bind_assoc p (fun a => Pure.pure (f a)) q
  rw [same]
  exact h

/-- Behind a token that is taken misfits are those of the next parser. -/
theorem goesOn_of_advance {s : Setting} {c : Cursor} {e : SyntaxError} (hs : s.IsBare)
    (hc : c.IsSound s) (ht : c.current.token ≠ .endOfInput)
    (hq : Completes q fun ls => G (c.current :: ls)) (he : (advance >>= fun _ => q) s c = .error e)
    (hmisfit : e.cause.category.IsMisfit) : c.GoesOn e.position G := by
  simp only [Bind.bind] at he
  cases hr : advance s c with
  | error f =>
    rw [hr] at he
    cases he
    exact absurd hmisfit (meetsNoMisfit_advance hs hr)
  | ok r =>
    obtain ⟨_, m⟩ := r
    rw [hr] at he
    have moves := moves_of_advance hc ht hr
    exact .of_append (Form.front_of_moves moves).1 (hq hs (hc.of_moves moves) he hmisfit)

/-- A token is taken if it is looked at, and else something else is done. -/
theorem Resumes.take {t : Token} (ht : t ≠ .endOfInput)
    (hp : ∀ l : Lexeme, l.token = t → Completes p fun ls => G (l :: ls)) (hq : Resumes q G) :
    Resumes (Parser.token >>= fun u => if u = t then advance >>= fun _ => p else q) G := by
  refine ⟨fun s c e hs hc he hmisfit => ?_, hq.isWritable⟩
  rw [token_bind] at he
  by_cases h : c.current.token = t
  · rw [if_pos h] at he
    exact goesOn_of_advance hs hc (h ▸ ht) (hp c.current h) he hmisfit
  · rw [if_neg h] at he
    exact hq.completes hs hc he hmisfit

theorem Resumes.skip (p : Punctuator) {q : Bool → Parser α}
    (htrue : ∀ l : Lexeme, l.token = .punctuator p → Completes (q true) fun ls => G (l :: ls))
    (hfalse : Resumes (q false) G) : Resumes (skip p >>= q) G := by
  have same : Parser.skip p >>= q =
      Parser.token >>= fun t => if t = .punctuator p then advance >>= fun _ =>
      q true else q false := by
    funext s c
    rw [skip_bind, token_bind]
    split <;> rfl
  rw [same]
  exact .take (by simp) htrue hfalse

/-- A parser of a single token resumes with a lexeme of it. -/
theorem resumes_of_token {t : Token} (ht : t.IsValid) (wanted : Expectation)
    (hG : ∀ l : Lexeme, l.token = t → G [l]) :
    Resumes (Parser.token >>= fun u => if u = t then advance else expected wanted) G := by
  have begun : IsBegun G := isBegun_of_token ht fun l hl =>
    ⟨[], fun _ hl => absurd hl List.not_mem_nil, hG l hl⟩
  refine ⟨Completes.token fun u =>
    meetsNoMisfit_advance.completes.ite (completes_of_isBegun begun fun s c e _ he _ => ?_),
      begun.isWritable⟩
  cases he
  rfl

theorem resumes_expect (p : Punctuator) :
    Resumes (expect p) (LexemesOf (fun _ => .punctuator p) fun _ : Unit => True) := by
  have same : expect p =
      Parser.token >>= fun u => if u = .punctuator p then advance
      else expected (.punctuator p) := by
    funext s c
    by_cases h : c.current.token = .punctuator p <;> simp [expect, h]
  rw [same]
  exact resumes_of_token (t := .punctuator p) trivial _ fun l hl => ⟨(), trivial, l, rfl, hl⟩

/-- A punctuator that is looked at is taken. -/
theorem expect_bind_of_token {s : Setting} {c : Cursor} {p : Punctuator}
    (ht : c.current.token = .punctuator p) (q : Unit → Parser β) :
    (expect p >>= q) s c = (advance >>= q) s c := by
  have taken : expect p s c = advance s c := by simp [expect, ht]
  simp only [Bind.bind, taken]

theorem resumes_keyword {word : String} (hword : IsName word) :
    Resumes (keyword word) (LexemesOf (fun _ => .word word) fun _ : Unit => True) :=
  resumes_of_token (t := .name word) hword _ fun l hl => ⟨(), trivial, l, rfl, hl⟩

theorem isName_a : IsName "a" := by decide

/-- A lexeme of a name, with a description that is wanted. -/
theorem isBegun_name (hG : ∀ l : Lexeme, l.token = .name "a" → IsWritable fun ls => G (l :: ls)) :
    IsBegun G :=
  isBegun_of_token (t := .name "a") isName_a hG

private theorem position_of_name {s : Setting} {c : Cursor} {e : SyntaxError} (hs : s.IsBare)
    (he : name s c = .error e) (hmisfit : e.cause.category.IsMisfit) :
    e.position = c.current.span.start := by
  simp only [name, start_bind, token_bind] at he
  cases ht : c.current.token with
  | name text =>
    simp only [ht, Bind.bind] at he
    cases hr : advance s c with
    | error f =>
      rw [hr] at he
      cases he
      exact absurd hmisfit (meetsNoMisfit_advance hs hr)
    | ok r =>
      rw [hr] at he
      cases he
  | _ =>
    simp only [ht] at he
    cases he
    rfl

theorem resumes_name : Resumes name (LexemesOf Name.form Name.Conforms) := by
  have begun : IsBegun (LexemesOf Name.form Name.Conforms) := isBegun_name fun l hl =>
    ⟨[], fun _ hl => absurd hl List.not_mem_nil, ⟨"a", none⟩, isName_a,
      Form.writes_located ⟨l, rfl, hl⟩⟩
  exact ⟨completes_of_isBegun begun fun _ _ _ => position_of_name, begun.isWritable⟩

/-- A parser of a single token that the description in front of it belongs to. -/
structure Heads (p : Parser α) (form : Option String → α → Form) (P : α → Prop) : Prop where
  yields : ∀ ⦃s : Setting⦄ ⦃c c' : Cursor⦄ ⦃a : α⦄, c.IsSound s → p s c = .ok (a, c') →
    (form c.current.description a).Spans s.locate c c' ∧ P a
  position : ∀ ⦃s : Setting⦄ ⦃c : Cursor⦄ ⦃e : SyntaxError⦄, s.IsBare → p s c = .error e →
    e.cause.category.IsMisfit → e.position = c.current.span.start
  begins : ∀ d, ConformsDescription d → ∃ k a, k.IsValid ∧ k.description = d ∧ P a ∧
    (form d a).Writes [k]

theorem Resumes.described {p : Parser α} {form : Option String → α → Form} {P : α → Prop}
    {q : Option String → Nat → α → Parser β} (hp : Heads p form P)
    (hq : ∀ d n a ls, ConformsDescription d → P a → (form d a).Writes ls →
      Resumes (q d n a) fun ls' => G (ls ++ ls')) :
    Resumes (description >>= fun d => Parser.start >>= fun n => p >>= fun a => q d n a) G := by
  constructor
  · intro s c e hs hc he hmisfit
    have hd : ConformsDescription c.current.description := hc.current.description
    rw [description_bind, start_bind] at he
    simp only [Bind.bind] at he
    cases hr : p s c with
    | error f =>
      rw [hr] at he
      cases he
      obtain ⟨k, a, hvalid, hk, pa, fa⟩ := hp.begins _ hd
      obtain ⟨ls, hls, hG⟩ := (hq _ 0 a [k] hd pa fa).isWritable
      exact ⟨[], c.current, c.rest, k, ls, rfl, hp.position hs hr hmisfit, hk,
        List.forall_mem_cons.2 ⟨hvalid, hls⟩, hG⟩
    | ok r =>
      obtain ⟨a, m⟩ := r
      rw [hr] at he
      obtain ⟨sa, pa⟩ := hp.yields hc hr
      obtain ⟨ls, hls, fa⟩ := hs.writes_of_spans sa
      exact .of_append hls ((hq _ _ a ls hd pa fa).completes hs (hc.of_spans sa) he hmisfit)
  · have hd : ConformsDescription none := by simp [ConformsDescription]
    obtain ⟨k, a, hvalid, -, pa, fa⟩ := hp.begins none hd
    obtain ⟨ls, hls, hG⟩ := (hq none 0 a [k] hd pa fa).isWritable
    exact ⟨k :: ls, List.forall_mem_cons.2 ⟨hvalid, hls⟩, hG⟩

theorem heads_name : Heads name (fun d n => n.describedForm d) Name.Conforms where
  yields _ _ _ _ hc h := ⟨(yields_described hc h).1.1, (yields_described hc h).2.1⟩
  position _ _ _ := position_of_name
  begins d hd := ⟨⟨.name "a", ⟨0, 0⟩, d⟩, ⟨"a", none⟩, ⟨isName_a, hd⟩, rfl, isName_a,
    Form.writes_located (F := .described d (.name "a") rfl) ⟨_, rfl, rfl, rfl⟩⟩

theorem heads_keyword {word : String} (hword : IsName word) :
    Heads (keyword word) (fun d _ => .heading d word) fun _ => True where
  yields s c c' _ hc h := ⟨⟨rfl, (yields_keyword word hc h).1⟩, trivial⟩
  position s c e hs he hmisfit := by
    by_cases h : c.current.token = .name word
    · simp only [keyword, token_bind, if_pos h] at he
      exact absurd hmisfit (meetsNoMisfit_advance hs he)
    · simp only [keyword, token_bind, if_neg h] at he
      cases he
      rfl
  begins d hd := ⟨⟨.name word, ⟨0, 0⟩, d⟩, (), ⟨hword, hd⟩, rfl, trivial, _, rfl, rfl, rfl⟩

section Repetition

variable {item : Parser α} {form : α → Form} {P : α → Prop} (yi : Yields item form P)
  (hi : Resumes item (LexemesOf form P))

include yi hi

private theorem resumes_untilClose (close : Punctuator) (n : Nat) :
    Resumes (untilClose close item n)
      (LexemesOf (fun xs : List α => .all (xs.map form ++ [.punctuator close]))
        (∀ x ∈ ·, P x)) := by
  have ends (l : Lexeme) (hl : l.token = .punctuator close) :
      LexemesOf (fun xs : List α => .all (xs.map form ++ [.punctuator close])) (∀ x ∈ ·, P x) [l] :=
    ⟨[], by simp, Form.writes_all_cons (F := .punctuator close) ⟨l, rfl, hl⟩ Form.writes_all_nil⟩
  have begun :
      IsBegun
          (LexemesOf (fun xs : List α => .all (xs.map form ++ [.punctuator close]))
              (∀ x ∈ ·, P x)) :=
    isBegun_of_token (t := .punctuator close) trivial fun l hl =>
      ⟨[], fun _ hl => absurd hl List.not_mem_nil, ends l hl⟩
  induction n with
  | zero => exact ⟨completes_unexpected begun, begun.isWritable⟩
  | succ n ih =>
    refine .skip close (fun l hl => (meetsNoMisfit_pure _).completes) ?_
    refine .bind yi hi fun x ls px fx => (ih.mono ?_).before fun xs => meetsNoMisfit_pure (x :: xs)
    rintro ls' ⟨xs, pxs, fxs⟩
    exact ⟨x :: xs, List.forall_mem_cons.2 ⟨px, pxs⟩, Form.writes_all_cons fx fxs⟩

private theorem resumes_whileNext (starts : Token → Bool) (n : Nat) :
    Resumes (whileNext starts item n)
      (LexemesOf (fun xs : List α => .all (xs.map form)) (∀ x ∈ ·, P x)) := by
  have ends : LexemesOf (fun xs : List α => .all (xs.map form)) (∀ x ∈ ·, P x) [] :=
    ⟨[], by simp, Form.writes_all_nil⟩
  induction n with
  | zero => exact .pure ends
  | succ n ih =>
    refine .token fun t => .ite ?_ (.pure ends)
    refine .bind yi hi fun x ls px fx => (ih.mono ?_).before fun xs => meetsNoMisfit_pure (x :: xs)
    rintro ls' ⟨xs, pxs, fxs⟩
    exact ⟨x :: xs, List.forall_mem_cons.2 ⟨px, pxs⟩, Form.writes_all_cons fx fxs⟩

private theorem resumes_eachAfter (p : Punctuator) (n : Nat) : Resumes (eachAfter p item n)
    (LexemesOf (fun xs : List α => .all ((xs.map form).map (.seq (.punctuator p))))
      (∀ x ∈ ·, P x)) := by
  have ends : LexemesOf (fun xs : List α => .all ((xs.map form).map (.seq (.punctuator p))))
      (∀ x ∈ ·, P x) [] :=
    ⟨[], by simp, Form.writes_all_nil⟩
  induction n with
  | zero => exact .pure ends
  | succ n ih =>
    refine .skip p (fun l hl => Resumes.completes ?_) (.pure ends)
    refine .bind yi hi fun x ls px fx => (ih.mono ?_).before fun xs => meetsNoMisfit_pure (x :: xs)
    rintro ls' ⟨xs, pxs, fxs⟩
    have fpx : (Form.seq (.punctuator p) (form x)).Writes (l :: ls) :=
      ⟨[l], ls, rfl, ⟨l, rfl, hl⟩, fx⟩
    exact ⟨x :: xs, List.forall_mem_cons.2 ⟨px, pxs⟩, Form.writes_all_cons fpx fxs⟩

theorem resumes_many (starts : Token → Bool) :
    Resumes (many starts item) (LexemesOf (fun xs : List α => .all (xs.map form)) (∀ x ∈ ·, P x)) :=
  ⟨fun _ c _ hs hc he => (resumes_whileNext yi hi starts (c.rest.length + 1)).completes hs hc he,
    (resumes_whileNext yi hi starts 0).isWritable⟩

/-- Where an item starts, there is one at least. -/
theorem resumes_many_of_starts (starts : Token → Bool) {q : List α → Parser β} {r : Parser β}
    (hq : ∀ x xs ls, (∀ y ∈ x :: xs, P y) → (Form.all ((x :: xs).map form)).Writes ls →
      Resumes (q (x :: xs)) fun ls' => G (ls ++ ls'))
    (hr : Resumes r G) :
    Resumes (token >>= fun t => if starts t then many starts item >>= q else r) G := by
  refine ⟨fun s c e hs hc he hmisfit => ?_, hr.isWritable⟩
  rw [token_bind] at he
  split at he
  · rename_i ht
    have unfolded : (many starts item >>= q) s c =
        (item >>= fun x => whileNext starts item c.rest.length >>= fun xs => q (x :: xs)) s c := by
      simp only [many, bind_assoc, remaining_bind, whileNext, token_bind, ht, if_true]
      rfl
    rw [unfolded] at he
    refine (Resumes.bind yi hi fun x ls px fx => ?_).completes hs hc he hmisfit
    refine .bind (yields_whileNext starts yi _) (resumes_whileNext yi hi starts _)
      fun xs ls' pxs fxs => ?_
    rw [show (fun ls'' => G (ls ++ (ls' ++ ls''))) = fun ls'' => G ((ls ++ ls') ++ ls'') by simp]
    exact hq x xs _ (List.forall_mem_cons.2 ⟨px, pxs⟩) (Form.writes_all_cons fx fxs)
  · exact hr.completes hs hc he hmisfit

theorem resumes_block (before after : Punctuator) : Resumes (block before after item)
    (LexemesOf (fun xs : List α => .block before after (xs.map form)) (∀ x ∈ ·, P x)) := by
  refine .bind (yields_expect before) (resumes_expect before) fun _ ls _ fbefore =>
    .remaining fun n => ?_
  refine (resumes_untilClose yi hi after n).mono fun ls' ⟨xs, pxs, fxs⟩ => ⟨xs, pxs, ?_⟩
  exact Form.writes_all_cons fbefore (Form.covers_all_append.1 fxs)

theorem resumes_block1 (before after : Punctuator) : Resumes (block1 before after item)
    (LexemesOf (fun xs : List α => .block before after (xs.map form)) fun xs => xs ≠ [] ∧
      ∀ x ∈ xs, P x) := by
  refine .bind (yields_expect before) (resumes_expect before) fun _ ls _ fbefore => ?_
  refine .bind yi hi fun x ls' px fx => .remaining fun n => ?_
  refine ((resumes_untilClose yi hi after n).mono ?_).before fun xs => meetsNoMisfit_pure (x :: xs)
  rintro ls'' ⟨xs, pxs, fxs⟩
  have fall : (Form.all ((x :: xs).map form ++ [.punctuator after])).Writes (ls' ++ ls'') :=
    Form.writes_all_cons fx fxs
  exact ⟨x :: xs, ⟨List.cons_ne_nil _ _, List.forall_mem_cons.2 ⟨px, pxs⟩⟩,
    Form.writes_all_cons fbefore (Form.covers_all_append.1 fall)⟩

theorem resumes_optionalBlock (before after : Punctuator) :
    Resumes (optionalBlock before after item)
      (LexemesOf (fun xs : List α => .optionalBlock before after (xs.map form))
        (∀ x ∈ ·, P x)) := by
  refine .peek before fun b => .ite ?_ (.pure ⟨[], by simp, rfl⟩)
  refine (resumes_block1 yi hi before after).mono fun ls ⟨xs, ⟨hne, pxs⟩, fxs⟩ => ⟨xs, pxs, ?_⟩
  obtain ⟨x, xs, rfl⟩ := List.exists_cons_of_ne_nil hne
  exact fxs

theorem resumes_separatedBy (p : Punctuator) : Resumes (separatedBy p item)
    (LexemesOf (fun xs : List α => .separated p (xs.map form)) fun xs => xs ≠ [] ∧
      ∀ x ∈ xs, P x) := by
  refine .bind yi hi fun x ls px fx => .remaining fun n => ?_
  refine ((resumes_eachAfter yi hi p n).mono ?_).before fun xs => meetsNoMisfit_pure (x :: xs)
  rintro ls' ⟨xs, pxs, fxs⟩
  exact ⟨x :: xs, ⟨List.cons_ne_nil _ _, List.forall_mem_cons.2 ⟨px, pxs⟩⟩,
    Form.writes_all_cons fx fxs⟩

end Repetition

end Parser

end SchemaLang
