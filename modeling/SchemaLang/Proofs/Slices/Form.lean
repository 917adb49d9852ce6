import SchemaLang.Proofs.Covering

/-!
# Forms within a piece of a source

What a form spans in a source it spans in the piece of the source that starts at its first token and
stops with its last one, except that the first token has no description there. Locations are counted
from the start of the piece. That every node has a token to start with matters at the very end: the
next token of the source is not part of the piece, and nothing may be located there.
-/

namespace SchemaLang

namespace Form

/-- The form without the description of its first token. -/
def undescribed : Form → Form
  | described _ t significant => described none t significant
  | seq a b => seq a.undescribed b
  | located loc a => located loc a.undescribed
  | a => a

variable {locate locate' : Nat → Nat → Option Loc} {c c' d : Cursor} {F : Form} {Q : Token → Prop}

theorem Starts.undescribed (hF : F.Starts Q) : F.undescribed.Starts Q := by
  induction F with
  | seq a b iha _ => exact iha hF
  | located loc a ih => exact ih hF
  | _ => exact hF

theorem IsAnchored.undescribed (hF : F.IsAnchored) : F.undescribed.IsAnchored := by
  induction F with
  | seq a b iha _ => exact ⟨iha hF.1, hF.2⟩
  | located loc a ih => exact ⟨hF.1.undescribed, ih hF.2⟩
  | _ => exact hF

/-- What a form spans are lexemes up to the last place that was taken. -/
theorem front_of_spans (h : F.Spans locate c c') :
    ∃ front, c.lexemes = front ++ c'.lexemes ∧ c'.lastStop = Lexeme.lastStop c.lastStop front := by
  obtain ⟨front, hfront, hstop, -⟩ := covers_of_spans h
  exact ⟨front, hfront, hstop⟩

end Form

/-- The cursor where a text starts that has the lexemes from here on. -/
def Cursor.startAt (c : Cursor) (position : Nat) : Cursor :=
  ⟨{ c.current with description := none }, c.rest, position⟩

/-- What has a first token starts there, whatever stands in front of it. -/
theorem Form.Starts.spans_undescribed {locate : Nat → Nat → Option Loc} {c c' : Cursor} {F : Form}
    {Q : Token → Prop} (hF : F.Starts Q) (h : F.Spans locate c c') (position : Nat) :
    F.undescribed.Spans locate (c.startAt position) c' := by
  induction F generalizing c c' with
  | token t _ => exact h
  | described d t _ => exact ⟨rfl, h.2⟩
  | empty => exact hF.elim
  | seq a b iha _ =>
    obtain ⟨m, ha, hb⟩ := h
    exact ⟨m, iha hF ha, hb⟩
  | located loc a ih => exact ⟨ih hF h.1, h.2⟩
  | bracketable a _ => exact hF.elim

/-- Where a parse of a text is, and where it is in the piece of the text from byte `n` on that has
`behind` behind it and `e` for its end. -/
structure Cursor.IsCut (n : Nat) (behind : List Lexeme) (e : Lexeme) (c d : Cursor) : Prop where
  lexemes : ∃ front, c.lexemes = front ++ behind ∧ d.lexemes = front.map (Lexeme.moveLeft n) ++ [e]
  lastStop : d.lastStop = c.lastStop - n
  inOrder : c.InOrder
  le : n ≤ c.lastStop

namespace Cursor.IsCut

variable {n : Nat} {behind : List Lexeme} {e : Lexeme} {c d m : Cursor}

/-- In front of the end the lexeme is the same. -/
theorem current (h : IsCut n behind e c d) (hlt : behind.length < c.lexemes.length) :
    d.current = c.current.moveLeft n := by
  obtain ⟨front, hc, hd⟩ := h.lexemes
  cases front with
  | nil =>
    rw [hc, List.nil_append] at hlt
    exact absurd hlt (Nat.lt_irrefl _)
  | cons l front =>
    obtain ⟨hcurrent, -⟩ := List.cons.inj hc
    obtain ⟨hcurrent', -⟩ := List.cons.inj hd
    rw [hcurrent, hcurrent']

/-- A token that is taken in the text can be taken in the piece. -/
theorem moves (h : IsCut n behind e c d) (hm : c.Moves m) (hbehind : behind <:+ m.lexemes) :
    d.current = c.current.moveLeft n ∧ ∃ m', d.Moves m' ∧ IsCut n behind e m m' := by
  have hcons : c.lexemes = c.current :: m.lexemes := congrArg (List.cons c.current) hm.1
  have hcurrent : d.current = c.current.moveLeft n := by
    refine h.current ?_
    rw [hcons, List.length_cons]
    exact Nat.lt_succ_of_le hbehind.length_le
  obtain ⟨front, hfront⟩ := hbehind
  obtain ⟨front', hc, hd⟩ := h.lexemes
  obtain rfl : c.current :: front = front' := by
    rw [hcons, ← hfront, ← List.cons_append] at hc
    exact List.append_cancel_right hc
  have hrest : d.rest = front.map (Lexeme.moveLeft n) ++ [e] := (List.cons.inj hd).2
  obtain ⟨l, ls, hl⟩ := List.exists_cons_of_ne_nil (List.append_ne_nil_of_right_ne_nil
    (front.map (Lexeme.moveLeft n)) (List.cons_ne_nil e []))
  refine ⟨hcurrent, ⟨l, ls, d.current.span.stop⟩, ⟨hrest.trans hl, rfl⟩,
    ⟨front, hfront.symm, hl.symm⟩, ?_, h.inOrder.moves hm, ?_⟩
  · rw [hm.2, hcurrent]
    rfl
  · obtain ⟨hstart, hstop, -⟩ := h.inOrder.current
    rw [hm.2]
    exact h.le.trans (hstart.trans hstop)

end Cursor.IsCut

/-- What a form spans in a text it spans in a piece of the text, with locations that count
from the piece. -/
theorem Form.IsAnchored.spans_of_isCut {F : Form} (hF : F.IsAnchored)
    {locate locate' : Nat → Nat → Option Loc} {n : Nat} {behind : List Lexeme} {e : Lexeme}
    {c c' d : Cursor}
    (hlocate : ∀ start stop, n ≤ start → n ≤ stop →
      locate start stop = locate' (start - n) (stop - n)) (hcut : c.IsCut n behind e d)
      (hbehind : behind <:+ c'.lexemes) (h : F.Spans locate c c') :
    ∃ d', F.Spans locate' d d' ∧ c'.IsCut n behind e d' := by
  induction F generalizing c c' d with
  | token t _ =>
    obtain ⟨hcurrent, d', hd, hcut'⟩ := hcut.moves h.2 hbehind
    refine ⟨d', ⟨?_, hd⟩, hcut'⟩
    rw [hcurrent]
    exact h.1
  | described text t _ =>
    obtain ⟨hcurrent, d', hd, hcut'⟩ := hcut.moves h.2.2 hbehind
    refine ⟨d', ⟨?_, ?_, hd⟩, hcut'⟩
    · rw [hcurrent]
      exact h.1
    · rw [hcurrent]
      exact h.2.1
  | empty =>
    obtain rfl := h
    exact ⟨d, rfl, hcut⟩
  | seq a b iha ihb =>
    obtain ⟨m, ha, hb⟩ := h
    obtain ⟨m', hda, hcut'⟩ := iha hF.1 hcut (hbehind.trans (suffix_of_spans hb)) ha
    obtain ⟨d', hdb, hcut''⟩ := ihb hF.2 hcut' hbehind hb
    exact ⟨d', ⟨m', hda, hdb⟩, hcut''⟩
  | located loc a ih =>
    obtain ⟨ha, hloc⟩ := h
    obtain ⟨d', hd, hcut'⟩ := ih hF.2 hcut hbehind ha
    -- The node takes a token, so it does not start behind the piece.
    have hlt : behind.length < c.lexemes.length := by
      have htaken := (hF.1.of_spans ha).2
      have hle := hbehind.length_le
      simp only [Cursor.lexemes, List.length_cons] at hle ⊢
      omega
    have hstart : n ≤ c.current.span.start := hcut.le.trans hcut.inOrder.current.1
    refine ⟨d', ⟨hd, ?_⟩, hcut'⟩
    rw [hloc, hlocate _ _ hstart hcut'.le, hcut.current hlt, hcut'.lastStop]
    rfl
  | bracketable a ih =>
    rcases h with ha | ⟨m, m', ⟨hopen, hm⟩, ha, hclose, hm'⟩
    · obtain ⟨d', hd, hcut'⟩ := ih hF hcut hbehind ha
      exact ⟨d', .inl hd, hcut'⟩
    · have hbehind' : behind <:+ m'.lexemes := hbehind.trans hm'.suffix
      obtain ⟨hcurrent, k, hk, hcutk⟩ := hcut.moves hm (hbehind'.trans (suffix_of_spans ha))
      obtain ⟨k', hka, hcutk'⟩ := ih hF hcutk hbehind' ha
      obtain ⟨hcurrent', d', hd, hcut'⟩ := hcutk'.moves hm' hbehind
      refine ⟨d', .inr ⟨k, k', ⟨?_, hk⟩, hka, ?_, hd⟩, hcut'⟩
      · rw [hcurrent]
        exact hopen
      · rw [hcurrent']
        exact hclose

/-- The lexemes behind some others stand in order from where the first of them starts. -/
theorem Placed.InOrder.of_suffix {position : Nat} {p : Placed} {ps qs : List Placed}
    (h : InOrder position qs) (hsuffix : p :: ps <:+ qs) : InOrder p.2.start (p :: ps) := by
  induction qs generalizing position with
  | nil => exact absurd (List.suffix_nil.1 hsuffix) (List.cons_ne_nil _ _)
  | cons q qs ih =>
    rcases List.suffix_cons_iff.1 hsuffix with heq | hsuffix
    · obtain ⟨rfl, rfl⟩ := List.cons.inj heq
      exact ⟨Nat.le_refl _, h.2⟩
    · exact ih h.2.2.2 hsuffix

/-- A piece of a source from the first to the last token of a form is text of the source, and what
the form spans as a text of its own. -/
theorem Form.spans_slice {F : Form} {Q : Token → Prop} {s : Source}
    {locate : Nat → Nat → Option Loc} {c c' : Cursor} (hstarts : F.Starts Q)
    (hanchored : F.IsAnchored) (hc : c.lexemes <:+ s.lexemes) (h : F.Spans locate c c') :
    ∃ text, s.text? ⟨c.current.span.start, c'.lastStop⟩ = some text ∧
      ∀ (s' : Source) (locate' : Nat → Nat → Option Loc), s'.body = text →
        (∀ start stop, c.current.span.start ≤ start → c.current.span.start ≤ stop →
          locate start stop =
            locate' (start - c.current.span.start) (stop - c.current.span.start)) →
        s'.tokens.fault = none ∧ ∃ d d', d.lexemes = s'.lexemes ∧ d.lastStop = 0 ∧
        d.current.span.start = 0 ∧
          F.undescribed.Spans locate' d d' ∧
          d'.lexemes = [⟨.endOfInput, ⟨s'.byteLength, s'.byteLength⟩, none⟩] := by
  obtain ⟨front, hfront, hlast⟩ := front_of_spans h
  obtain ⟨before, hbefore⟩ := hc
  cases front with
  | nil =>
    have htaken := (hstarts.of_spans h).2
    have heq := congrArg List.length hfront
    simp only [Cursor.lexemes, List.nil_append, List.length_cons] at heq
    omega
  | cons first front =>
    obtain ⟨rfl, hrest⟩ := List.cons.inj hfront
    have hsplit : s.lexemes = before ++ (c.current :: front ++ c'.lexemes) := by
      rw [← hbefore, hfront]
    obtain ⟨piece, htext, hslice⟩ := Source.lexemes_slice hsplit (List.cons_ne_nil _ _)
    have hstop : c'.lastStop = Lexeme.lastStop 0 (c.current :: front) := by
      rw [hlast]
      exact (Lexeme.lastStop_append _ [c.current] front).trans
        (Lexeme.lastStop_append _ [c.current] front).symm
    rw [← hstop] at htext
    refine ⟨String.ofList piece, htext, fun s' locate' hs' hlocate => ?_⟩
    obtain ⟨hfault, hlexemes⟩ := hslice s' (by rw [Source.chars, hs', String.toList_ofList])
    refine ⟨hfault, ?_⟩
    let e : Lexeme := ⟨.endOfInput, ⟨s'.byteLength, s'.byteLength⟩, none⟩
    let d : Cursor := ⟨{ c.current with description := none }.moveLeft c.current.span.start,
      front.map (Lexeme.moveLeft c.current.span.start) ++ [e], 0⟩
    have hsuffix : c.current.placed :: c.rest.map Lexeme.placed <:+ s.lexemes.map Lexeme.placed :=
      ⟨before.map Lexeme.placed, by rw [← hbefore, List.map_append]; rfl⟩
    have hinOrder : (c.startAt c.current.span.start).InOrder :=
      s.inOrder_map_placed.of_suffix hsuffix
    have hcut : (c.startAt c.current.span.start).IsCut c.current.span.start c'.lexemes e d :=
      ⟨⟨{ c.current with description := none } :: front, congrArg (List.cons _) hrest, rfl⟩,
        (Nat.sub_self _).symm, hinOrder, Nat.le_refl _⟩
    obtain ⟨d', hd, hcut'⟩ := hanchored.undescribed.spans_of_isCut hlocate hcut List.suffix_rfl
      (hstarts.spans_undescribed h _)
    refine ⟨d, d', hlexemes.symm, rfl, Nat.sub_self _, hd, ?_⟩
    obtain ⟨rest, hnil, hend⟩ := hcut'.lexemes
    rw [List.self_eq_append_left.1 hnil] at hend
    exact hend

end SchemaLang
