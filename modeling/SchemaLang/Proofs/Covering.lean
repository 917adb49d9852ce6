import Mathlib.Data.List.Forall2
import SchemaLang.Proofs.Locations.Form
import SchemaLang.Proofs.Slices.Lexemes

/-!
# The lexemes of a form

What a form spans between two cursors is a list of lexemes that can be looked at on its own.
`Form.Covers` says which lists are those of a form, with the locations of its nodes from the first
start to the last stop of what they cover. A parse takes such a list off the front of what is left,
and where one stands in front of anything else the form spans it. So lists can be joined, moved to
another place and put together anew, and a parse read off the result.
-/

namespace SchemaLang

/-- The lexemes are those of the form, and its nodes have the locations that `locate` gives. -/
def Form.Covers (locate : Nat → Nat → Option Loc) : Form → List Lexeme → Prop
  | token t _, ls => ∃ l, ls = [l] ∧ l.token = t
  | described d t _, ls => ∃ l, ls = [l] ∧ l.description = d ∧ l.token = t
  | empty, ls => ls = []
  | seq a b, ls => ∃ xs ys, ls = xs ++ ys ∧ a.Covers locate xs ∧ b.Covers locate ys
  | located loc a, ls => a.Covers locate ls ∧
      ∀ l ∈ ls.head?, loc = locate l.span.start (Lexeme.lastStop 0 ls)
  | bracketable a, ls => a.Covers locate ls ∨
      ∃ l xs l', ls = l :: (xs ++ [l']) ∧ l.token = .punctuator .bracketOpen ∧ a.Covers locate xs ∧
        l'.token = .punctuator .bracketClose

namespace Lexeme

/-- The grammar reads the same of both lexemes. -/
structure Alike (l l' : Lexeme) : Prop where
  token : l'.token = l.token
  description : l'.description = l.description

private theorem lastStop_of_ne_nil {ls : List Lexeme} (h : ls ≠ []) (m n : Nat) :
    lastStop m ls = lastStop n ls := by
  rw [lastStop, lastStop, List.getLast?_eq_some_getLast h]
  rfl

/-- Two lists of lexemes that correspond one by one stop at lexemes that correspond. -/
theorem exists_lastStop {R : Lexeme → Lexeme → Prop} {l l' : Lexeme}
    {ls ls' : List Lexeme} (hl : R l l') (hls : List.Forall₂ R ls ls') (n : Nat) :
    ∃ k k', R k k' ∧ lastStop n (l :: ls) = k.span.stop ∧
      lastStop n (l' :: ls') = k'.span.stop := by
  induction hls generalizing l l' with
  | nil => exact ⟨l, l', hl, rfl, rfl⟩
  | @cons m m' ms ms' hm _ ih =>
    obtain ⟨k, k', hk, hstop, hstop'⟩ := ih hm
    exact ⟨k, k', hk, hstop, hstop'⟩

end Lexeme

/-- Behind a lexeme in front of others there is a cursor at the others. -/
theorem Cursor.exists_moves {c : Cursor} {l : Lexeme} {more : List Lexeme}
    (hc : c.lexemes = l :: more) (hmore : more ≠ []) :
    c.current = l ∧ ∃ m, c.Moves m ∧ m.lexemes = more := by
  obtain ⟨hl, hrest⟩ := List.cons.inj hc
  obtain ⟨next, rest, rfl⟩ := List.exists_cons_of_ne_nil hmore
  exact ⟨hl, ⟨next, rest, c.current.span.stop⟩, ⟨hrest, rfl⟩, rfl⟩

namespace Form

variable {locate locate' : Nat → Nat →
  Option Loc} {c c' : Cursor} {F : Form} {ls ls' : List Lexeme} {Q : Token → Prop}

/-- What is taken in one step. -/
theorem front_of_moves (h : c.Moves c') :
    c.lexemes = [c.current] ++ c'.lexemes ∧ c'.lastStop = Lexeme.lastStop c.lastStop [c.current] :=
  ⟨congrArg (List.cons c.current) h.1, h.2⟩

theorem covers_all_append {as bs : List Form} : (all (as ++ bs)).Covers locate ls ↔
    ∃ xs ys, ls = xs ++ ys ∧ (all as).Covers locate xs ∧ (all bs).Covers locate ys := by
  induction as generalizing ls with
  | nil =>
    constructor
    · intro h
      exact ⟨[], ls, rfl, rfl, h⟩
    · rintro ⟨xs, ys, rfl, rfl, h⟩
      exact h
  | cons a as ih =>
    constructor
    · rintro ⟨xs, rest, rfl, ha, hrest⟩
      obtain ⟨ys, zs, rfl, has, hbs⟩ := ih.1 hrest
      exact ⟨xs ++ ys, zs, (List.append_assoc ..).symm, ⟨xs, ys, rfl, ha, has⟩, hbs⟩
    · rintro ⟨_, zs, rfl, ⟨xs, ys, rfl, ha, has⟩, hbs⟩
      exact ⟨xs, ys ++ zs, List.append_assoc .., ha, ih.2 ⟨ys, zs, rfl, has, hbs⟩⟩

/-- What a form spans are lexemes of the form. -/
theorem covers_of_spans (h : F.Spans locate c c') :
    ∃ ls, c.lexemes = ls ++ c'.lexemes ∧ c'.lastStop = Lexeme.lastStop c.lastStop ls ∧
    F.Covers locate ls := by
  induction F generalizing c c' with
  | token t _ =>
    obtain ⟨hlexemes, hstop⟩ := front_of_moves h.2
    exact ⟨[c.current], hlexemes, hstop, c.current, rfl, h.1⟩
  | described d t _ =>
    obtain ⟨hlexemes, hstop⟩ := front_of_moves h.2.2
    exact ⟨[c.current], hlexemes, hstop, c.current, rfl, h.1, h.2.1⟩
  | empty =>
    obtain rfl := h
    exact ⟨[], rfl, rfl, rfl⟩
  | seq a b iha ihb =>
    obtain ⟨m, ha, hb⟩ := h
    obtain ⟨xs, hxs, hxstop, ca⟩ := iha ha
    obtain ⟨ys, hys, hystop, cb⟩ := ihb hb
    refine ⟨xs ++ ys, by rw [hxs, hys, List.append_assoc], ?_, xs, ys, rfl, ca, cb⟩
    rw [Lexeme.lastStop_append, ← hxstop, hystop]
  | located loc a ih =>
    obtain ⟨ha, hloc⟩ := h
    obtain ⟨ls, hls, hstop, ca⟩ := ih ha
    refine ⟨ls, hls, hstop, ca, fun l hl => ?_⟩
    obtain ⟨rest, rfl⟩ := List.head?_eq_some_iff.1 hl
    obtain ⟨rfl, -⟩ := List.cons.inj hls
    rw [hloc, hstop, Lexeme.lastStop_of_ne_nil (List.cons_ne_nil _ _) 0 c.lastStop]
  | bracketable a ih =>
    rcases h with h | ⟨m, m', ⟨hopen, hm⟩, ha, hclose, hm'⟩
    · obtain ⟨ls, hls, hstop, ca⟩ := ih h
      exact ⟨ls, hls, hstop, .inl ca⟩
    · obtain ⟨xs, hxs, hxstop, ca⟩ := ih ha
      obtain ⟨hlexemes, hstop⟩ := front_of_moves hm
      obtain ⟨hlexemes', hstop'⟩ := front_of_moves hm'
      refine ⟨[c.current] ++ (xs ++ [m'.current]), ?_, ?_,
        .inr ⟨c.current, xs, m'.current, rfl, hopen, ca, hclose⟩⟩
      · rw [hlexemes, hxs, hlexemes', List.append_assoc, List.append_assoc]
      · rw [Lexeme.lastStop_append, ← hstop, Lexeme.lastStop_append, ← hxstop, hstop']

/-- A form has no lexemes but those of the grammar. -/
theorem Covers.isSignificant (h : F.Covers locate ls) : ∀ l ∈ ls, l.token.isSignificant = true := by
  induction F generalizing ls with
  | token t ht =>
    obtain ⟨l, rfl, hl⟩ := h
    exact List.forall_mem_singleton.2 (hl ▸ ht)
  | described d t ht =>
    obtain ⟨l, rfl, -, hl⟩ := h
    exact List.forall_mem_singleton.2 (hl ▸ ht)
  | empty =>
    obtain rfl := h
    exact fun _ hl => absurd hl List.not_mem_nil
  | seq a b iha ihb =>
    obtain ⟨xs, ys, rfl, ha, hb⟩ := h
    exact List.forall_mem_append.2 ⟨iha ha, ihb hb⟩
  | located loc a ih => exact ih h.1
  | bracketable a ih =>
    rcases h with h | ⟨l, xs, r, rfl, hopen, ha, hclose⟩
    · exact ih h
    · exact List.forall_mem_cons.2 ⟨by rw [hopen]; rfl,
        List.forall_mem_append.2 ⟨ih ha, List.forall_mem_singleton.2 (by rw [hclose]; rfl)⟩⟩

/-- Lexemes that correspond to those of a form are those of the form with other locations. -/
theorem Covers.relocate {R : Lexeme → Lexeme → Prop} {f : Loc → Option Loc}
    (halike : ∀ l l', R l l' → l.Alike l')
    (hlocate : ∀ l l' k k', R l l' → R k k' →
      locate' l'.span.start k'.span.stop = (locate l.span.start k.span.stop).bind f)
    (h : F.Covers locate ls) (hls : List.Forall₂ R ls ls') : (F.mapLoc f).Covers locate' ls' := by
  have single {l : Lexeme} {ls' : List Lexeme} (hls : List.Forall₂ R [l] ls') : ∃ l', ls' =
      [l'] ∧ R l l' := by
    obtain ⟨l', _, hl, hnil, rfl⟩ := List.forall₂_cons_left_iff.1 hls
    rw [List.forall₂_nil_left_iff.1 hnil]
    exact ⟨l', rfl, hl⟩
  have split {xs ys ls' : List Lexeme} (hls : List.Forall₂ R (xs ++ ys) ls') :
      ∃ xs' ys', ls' = xs' ++ ys' ∧ List.Forall₂ R xs xs' ∧ List.Forall₂ R ys ys' :=
    ⟨_, _, (List.take_append_drop xs.length ls').symm,
      (List.forall₂_take_append _ _ _ hls.flip).flip,
      (List.forall₂_drop_append _ _ _ hls.flip).flip⟩
  induction F generalizing ls ls' with
  | token t _ =>
    obtain ⟨l, rfl, hl⟩ := h
    obtain ⟨l', rfl, hR⟩ := single hls
    exact ⟨l', rfl, (halike l l' hR).token.trans hl⟩
  | described d t _ =>
    obtain ⟨l, rfl, hd, hl⟩ := h
    obtain ⟨l', rfl, hR⟩ := single hls
    exact ⟨l', rfl, (halike l l' hR).description.trans hd, (halike l l' hR).token.trans hl⟩
  | empty =>
    obtain rfl := h
    exact List.forall₂_nil_left_iff.1 hls
  | seq a b iha ihb =>
    obtain ⟨xs, ys, rfl, ha, hb⟩ := h
    obtain ⟨xs', ys', rfl, hxs, hys⟩ := split hls
    exact ⟨xs', ys', rfl, iha ha hxs, ihb hb hys⟩
  | located loc a ih =>
    obtain ⟨ha, hloc⟩ := h
    refine ⟨ih ha hls, fun l' hl' => ?_⟩
    cases hls with
    | nil => exact nomatch hl'
    | cons hl hls =>
      obtain rfl := Option.some.inj hl'
      obtain ⟨k, k', hk, hstop, hstop'⟩ := Lexeme.exists_lastStop hl hls 0
      rw [hloc _ rfl, hstop, hstop', hlocate _ _ _ _ hl hk]
  | bracketable a ih =>
    rcases h with h | ⟨l, xs, r, rfl, hopen, ha, hclose⟩
    · exact .inl (ih h hls)
    · obtain ⟨l', _, hl, hrest, rfl⟩ := List.forall₂_cons_left_iff.1 hls
      obtain ⟨xs', _, rfl, hxs, hr⟩ := split hrest
      obtain ⟨r', rfl, hR⟩ := single hr
      exact .inr ⟨l', xs', r', rfl, (halike l l' hl).token.trans hopen, ih ha hxs,
        (halike r r' hR).token.trans hclose⟩

theorem Starts.covers_ne_nil (hF : F.Starts Q) (h : F.Covers locate ls) : ls ≠ [] := by
  induction F generalizing ls with
  | token t _ =>
    obtain ⟨l, rfl, -⟩ := h
    exact List.cons_ne_nil _ _
  | described d t _ =>
    obtain ⟨l, rfl, -⟩ := h
    exact List.cons_ne_nil _ _
  | empty => exact hF.elim
  | seq a b iha _ =>
    obtain ⟨xs, ys, rfl, ha, -⟩ := h
    exact List.append_ne_nil_of_left_ne_nil (iha hF ha) _
  | located loc a ih => exact ih hF h.1
  | bracketable a _ => exact hF.elim

/-- The lexemes of a form are spanned by it where they stand in front of others. -/
theorem IsAnchored.spans_of_covers (hF : F.IsAnchored) {more : List Lexeme}
    (hc : c.lexemes = ls ++ more) (hmore : more ≠ []) (h : F.Covers locate ls) :
    ∃ c', F.Spans locate c c' ∧ c'.lexemes = more := by
  induction F generalizing c ls more with
  | token t _ =>
    obtain ⟨l, rfl, hl⟩ := h
    obtain ⟨rfl, m, hm, hlexemes⟩ := Cursor.exists_moves hc hmore
    exact ⟨m, ⟨hl, hm⟩, hlexemes⟩
  | described d t _ =>
    obtain ⟨l, rfl, hl⟩ := h
    obtain ⟨rfl, m, hm, hlexemes⟩ := Cursor.exists_moves hc hmore
    exact ⟨m, ⟨hl.1, hl.2, hm⟩, hlexemes⟩
  | empty =>
    obtain rfl := h
    exact ⟨c, rfl, hc⟩
  | seq a b iha ihb =>
    obtain ⟨xs, ys, rfl, ha, hb⟩ := h
    rw [List.append_assoc] at hc
    obtain ⟨m, sa, hm⟩ := iha hF.1 hc (List.append_ne_nil_of_right_ne_nil _ hmore) ha
    obtain ⟨c', sb, hc'⟩ := ihb hF.2 hm hmore hb
    exact ⟨c', ⟨m, sa, sb⟩, hc'⟩
  | located loc a ih =>
    obtain ⟨ha, hloc⟩ := h
    obtain ⟨c', sa, hc'⟩ := ih hF.2 hc hmore ha
    refine ⟨c', ⟨sa, ?_⟩, hc'⟩
    -- The lexemes that the node takes are those it covers, and it takes at least one.
    obtain ⟨front, hfront, hstop, -⟩ := covers_of_spans sa
    obtain rfl : ls = front := List.append_cancel_right (by rw [← hc, hfront, hc'])
    obtain ⟨l, rest, rfl⟩ := List.exists_cons_of_ne_nil (hF.1.covers_ne_nil ha)
    obtain ⟨rfl, -⟩ := List.cons.inj hc
    rw [hstop, Lexeme.lastStop_of_ne_nil (List.cons_ne_nil _ _) c.lastStop 0]
    exact hloc c.current rfl
  | bracketable a ih =>
    rcases h with h | ⟨l, xs, l', rfl, hopen, ha, hclose⟩
    · obtain ⟨c', sa, hc'⟩ := ih hF hc hmore h
      exact ⟨c', .inl sa, hc'⟩
    · rw [List.cons_append, List.append_assoc, List.singleton_append] at hc
      obtain ⟨rfl, m, hm, hlexemes⟩ := Cursor.exists_moves hc
        (List.append_ne_nil_of_right_ne_nil _ (List.cons_ne_nil _ _))
      obtain ⟨m', sa, hm'⟩ := ih hF hlexemes (List.cons_ne_nil _ _) ha
      obtain ⟨rfl, c', hc', hlexemes'⟩ := Cursor.exists_moves hm' hmore
      exact ⟨c', .inr ⟨m, m', ⟨hopen, hm⟩, sa, hclose, hc'⟩, hlexemes'⟩

end Form

end SchemaLang
