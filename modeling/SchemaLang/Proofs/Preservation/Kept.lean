import SchemaLang.Proofs.Preservation.Rigid
import SchemaLang.Proofs.Spans

/-!
# The tokens that a form keeps

What a parse takes for a form are the tokens of the form, and perhaps brackets that the form can do
without. `Kept` says this of a test that finds these brackets, and `Omits` says that a test finds
exactly those of one form: it finds nothing outside of what the form takes. So the tests of forms
side by side do not get into one another's way.
-/

namespace SchemaLang

/-- The tokens of the form without descriptions. -/
def Form.significantTokens (F : Form) : List Token := F.tokens.filter fun t => !t.isDescription

/-- The tokens from a cursor on, with their places. -/
def Cursor.placed (c : Cursor) : List Placed := c.lexemes.map Lexeme.placed

/-- The token takes up room, all of it between the cursors. -/
def Placed.StandsBetween (p : Placed) (c c' : Cursor) : Prop :=
  c.current.span.start ≤ p.2.start ∧ p.2.start < p.2.stop ∧ p.2.stop ≤ c'.lastStop

private theorem filter_descriptionTokens (d : Option String) :
    (descriptionTokens d).filter (fun t => !t.isDescription) = [] := by
  cases d with
  | none => rfl
  | some text => simp [descriptionTokens, Token.isDescription]

namespace Form

theorem significantTokens_token {t : Token} (h : t.isSignificant = true) :
    (token t h).significantTokens = [t] := by
  simp [significantTokens, Form.tokens, Token.isDescription_of_isSignificant h]

theorem significantTokens_described (d : Option String) {t : Token} (h : t.isSignificant = true) :
    (described d t h).significantTokens = [t] := by
  simp [significantTokens, Form.tokens, filter_descriptionTokens,
    Token.isDescription_of_isSignificant h]

theorem significantTokens_seq (a b : Form) :
    (seq a b).significantTokens = a.significantTokens ++ b.significantTokens :=
  List.filter_append _ _

end Form

/-- The second cursor is not before the first one. -/
structure Cursor.Precedes (c c' : Cursor) : Prop where
  inOrder : c'.InOrder
  lastStop : c.lastStop ≤ c'.lastStop
  start : c.current.span.start ≤ c'.current.span.start

namespace Cursor

variable {c m c' : Cursor}

theorem Precedes.trans (h : c.Precedes m) (h' : m.Precedes c') : c.Precedes c' :=
  ⟨h'.inOrder, Nat.le_trans h.lastStop h'.lastStop, Nat.le_trans h.start h'.start⟩

theorem InOrder.precedes_refl (h : c.InOrder) : c.Precedes c := ⟨h, Nat.le_refl _, Nat.le_refl _⟩

theorem InOrder.precedes_of_moves (h : c.InOrder) (hm : c.Moves c') : c.Precedes c' := by
  have inOrder := h.moves hm
  have before := h.current
  have after := inOrder.current.1
  rw [hm.2] at after
  exact ⟨inOrder, by rw [hm.2]; omega, by omega⟩

theorem InOrder.precedes_of_spans {locate : Nat → Nat → Option Loc} {F : Form} (h : c.InOrder)
    (hF : F.Spans locate c c') : c.Precedes c' := by
  induction F generalizing c c' with
  | token t _ => exact h.precedes_of_moves hF.2
  | described d t _ => exact h.precedes_of_moves hF.2.2
  | empty =>
    obtain rfl := hF
    exact h.precedes_refl
  | seq a b iha ihb =>
    obtain ⟨m, ha, hb⟩ := hF
    have first := iha h ha
    exact first.trans (ihb first.inOrder hb)
  | located loc a ih => exact ih h hF.1
  | bracketable a ih =>
    rcases hF with hF | ⟨m, m', ⟨-, hm⟩, ha, -, hm'⟩
    · exact ih h hF
    · have opening := h.precedes_of_moves hm
      have inside := ih opening.inOrder ha
      exact opening.trans (inside.trans (inside.inOrder.precedes_of_moves hm'))

end Cursor

namespace Placed

variable {p : Placed} {c m c' : Cursor}

theorem StandsBetween.before (h : p.StandsBetween c m) (hm : m.Precedes c') :
    p.StandsBetween c c' :=
  ⟨h.1, h.2.1, Nat.le_trans h.2.2 hm.lastStop⟩

theorem StandsBetween.after (h : p.StandsBetween m c') (hm : c.Precedes m) : p.StandsBetween c c' :=
  ⟨Nat.le_trans hm.start h.1, h.2⟩

/-- No token stands on both sides of a cursor. -/
theorem StandsBetween.not_both (hm : m.InOrder) (h : p.StandsBetween c m) :
    ¬p.StandsBetween m c' := by
  intro h'
  have order := hm.current.1
  have room := h.2.1
  have stop := h.2.2
  have start := h'.1
  omega

/-- The token that is looked at stands before the next cursor. -/
theorem standsBetween_of_moves (hc : c.InOrder) (ht : c.current.token.isSignificant = true)
    (hm : c.Moves c') : c.current.placed.StandsBetween c c' :=
  ⟨Nat.le_refl _, hc.current.2.2 (Token.ne_endOfInput_of_isSignificant ht), Nat.le_of_eq hm.2.symm⟩

end Placed

/-- What is taken between the cursors are the tokens of the form and those that `drop` finds. -/
def Form.Kept (drop : Placed → Bool) (F : Form) (c c' : Cursor) : Prop :=
  ∃ ps, c.placed = ps ++ c'.placed ∧ (∀ p ∈ ps, p.StandsBetween c c') ∧
    (ps.filter fun p => !drop p).map Prod.fst = F.significantTokens

namespace Form

variable {drop : Placed → Bool} {c m c' : Cursor} {a b : Form}

theorem kept_empty : Kept drop empty c c := ⟨[], rfl, by simp, rfl⟩

/-- A token that is kept. -/
theorem kept_of_moves {F : Form} {t : Token} (ht : t.isSignificant = true)
    (hF : F.significantTokens = [t]) (hc : c.InOrder) (htoken : c.current.token = t)
    (hm : c.Moves c') (hdrop : drop c.current.placed = false) : Kept drop F c c' := by
  subst htoken
  refine ⟨[c.current.placed], ?_, ?_, ?_⟩
  · rw [Cursor.placed, Cursor.lexemes, List.map_cons, hm.1]
    rfl
  · exact List.forall_mem_singleton.2 (Placed.standsBetween_of_moves hc ht hm)
  · rw [hF, List.filter_cons_of_pos (by simp [hdrop])]
    rfl

theorem Kept.seq (hc : c.Precedes m) (hm : m.Precedes c') (ha : Kept drop a c m)
    (hb : Kept drop b m c') : Kept drop (seq a b) c c' := by
  obtain ⟨ps, hps, inside, tokens⟩ := ha
  obtain ⟨qs, hqs, inside', tokens'⟩ := hb
  refine ⟨ps ++ qs, by rw [hps, hqs, List.append_assoc], ?_, ?_⟩
  · intro p hp
    rcases List.mem_append.1 hp with hp | hp
    · exact (inside p hp).before hm
    · exact (inside' p hp).after hc
  · rw [List.filter_append, List.map_append, tokens, tokens', significantTokens_seq]

/-- Brackets that are dropped. -/
theorem Kept.brackets {m' : Cursor} (hc : c.InOrder)
    (hopen : c.current.token = .punctuator .bracketOpen) (hm : c.Moves m) (hm' : m.Precedes m')
    (hclose : m'.current.token = .punctuator .bracketClose) (hc' : m'.Moves c')
    (ha : Kept drop a m m') (dropOpen : drop c.current.placed = true)
    (dropClose : drop m'.current.placed = true) : Kept drop (bracketable a) c c' := by
  have opening := hc.precedes_of_moves hm
  have closing := hm'.inOrder.precedes_of_moves hc'
  obtain ⟨ps, hps, inside, tokens⟩ := ha
  refine ⟨c.current.placed :: ps ++ [m'.current.placed], ?_, ?_, ?_⟩
  · have first : c.placed = c.current.placed :: m.placed := by
      rw [Cursor.placed, Cursor.lexemes, List.map_cons, hm.1]
      rfl
    have last : m'.placed = m'.current.placed :: c'.placed := by
      rw [Cursor.placed, Cursor.lexemes, List.map_cons, hc'.1]
      rfl
    rw [first, hps, last, List.append_assoc]
    rfl
  · intro p hp
    rcases List.mem_append.1 hp with hp | hp
    · rcases List.mem_cons.1 hp with rfl | hp
      · have first := Placed.standsBetween_of_moves hc (by rw [hopen]; rfl) hm
        exact first.before (hm'.trans closing)
      · exact ((inside p hp).before closing).after opening
    · rw [List.mem_singleton.1 hp]
      have last := Placed.standsBetween_of_moves hm'.inOrder (by rw [hclose]; rfl) hc'
      exact last.after (opening.trans hm')
  · rw [List.filter_append, List.filter_cons_of_neg (by simp [dropOpen]),
      List.filter_cons_of_neg (by simp [dropClose]), List.filter_nil, List.append_nil, tokens]
    rfl

/-- A rigid form is kept as a whole by what finds nothing in it. -/
theorem IsRigid.kept {locate : Nat → Nat → Option Loc} {F : Form} (hrigid : F.IsRigid)
    (hc : c.InOrder) (hF : F.Spans locate c c')
    (hdrop : ∀ p : Placed, p.StandsBetween c c' → drop p = false) : Kept drop F c c' := by
  induction F generalizing c c' with
  | token t ht =>
    obtain ⟨htoken, hm⟩ := hF
    refine kept_of_moves ht (significantTokens_token ht) hc htoken hm (hdrop _ ?_)
    exact Placed.standsBetween_of_moves hc (by rwa [htoken]) hm
  | described d t ht =>
    obtain ⟨-, htoken, hm⟩ := hF
    refine kept_of_moves ht (significantTokens_described d ht) hc htoken hm (hdrop _ ?_)
    exact Placed.standsBetween_of_moves hc (by rwa [htoken]) hm
  | empty =>
    obtain rfl := hF
    exact kept_empty
  | seq a b iha ihb =>
    obtain ⟨m, ha, hb⟩ := hF
    have first := hc.precedes_of_spans ha
    have second := first.inOrder.precedes_of_spans hb
    refine Kept.seq first second ?_ ?_
    · exact iha hrigid.1 hc ha fun p hp => hdrop p (hp.before second)
    · exact ihb hrigid.2 first.inOrder hb fun p hp => hdrop p (hp.after first)
  | located loc a ih => exact ih hrigid hc hF.1 hdrop
  | bracketable a _ => exact hrigid.elim

/-- The brackets in a form that it can do without are those that `lone` finds. -/
structure Omits (locate : Nat → Nat → Option Loc) (F : Form) (lone : Placed → Bool) : Prop where
  inside : ∀ ⦃c c' : Cursor⦄, c.InOrder → F.Spans locate c c' → ∀ p : Placed, p.2.start < p.2.stop →
    lone p = true → p.StandsBetween c c'
  kept : ∀ ⦃c c' : Cursor⦄, c.InOrder → F.Spans locate c c' → ∀ drop : Placed → Bool,
    (∀ p, p.StandsBetween c c' → drop p = lone p) → Kept drop F c c'

variable {locate : Nat → Nat → Option Loc}

theorem IsRigid.omits {F : Form} (h : F.IsRigid) : Omits locate F fun _ => false where
  inside _ _ _ _ _ _ hp := absurd hp (by simp)
  kept _ _ hc hF _ hdrop := h.kept hc hF hdrop

theorem Omits.seq {lone lone' : Placed → Bool} (ha : Omits locate a lone)
    (hb : Omits locate b lone') : Omits locate (seq a b) fun p => lone p || lone' p where
  inside c c' hc hF p room hp := by
    obtain ⟨m, fa, fb⟩ := hF
    have first := hc.precedes_of_spans fa
    have second := first.inOrder.precedes_of_spans fb
    rcases Bool.or_eq_true_iff.1 hp with hp | hp
    · exact (ha.inside hc fa p room hp).before second
    · exact (hb.inside first.inOrder fb p room hp).after first
  kept c c' hc hF drop hdrop := by
    obtain ⟨m, fa, fb⟩ := hF
    have first := hc.precedes_of_spans fa
    have second := first.inOrder.precedes_of_spans fb
    refine Kept.seq first second (ha.kept hc fa drop fun p hp => ?_)
      (hb.kept first.inOrder fb drop fun p hp => ?_)
    · rw [hdrop p (hp.before second)]
      cases hp' : lone' p with
      | false => exact Bool.or_false _
      | true => exact absurd (hb.inside first.inOrder fb p hp.2.1 hp') (hp.not_both first.inOrder)
    · rw [hdrop p (hp.after first)]
      cases hp' : lone p with
      | false => exact Bool.false_or _
      | true => exact absurd hp ((ha.inside hc fa p hp.2.1 hp').not_both first.inOrder)

theorem Omits.located {lone : Placed → Bool} (h : Omits locate a lone) (loc : Option Loc) :
    Omits locate (located loc a) lone where
  inside _ _ hc hF := h.inside hc hF.1
  kept _ _ hc hF := h.kept hc hF.1

theorem Omits.all {α : Type} {form : α → Form} {lone : α → Placed → Bool} {xs : List α}
    (h : ∀ x ∈ xs, Omits locate (form x) (lone x)) :
    Omits locate (all (xs.map form)) fun p => xs.any (lone · p) := by
  induction xs with
  | nil => exact IsRigid.omits isRigid_empty
  | cons x xs ih =>
    obtain ⟨hx, hxs⟩ := List.forall_mem_cons.1 h
    exact hx.seq (ih hxs)

end Form

end SchemaLang
