import SchemaLang.Proofs.Lexemes

/-!
# Spans in order

The tokens of a text stand one after the other, and all but the end of the input take up room.
Lexemes inherit this from the tokens they are made of, so that throughout a parse the spans ahead of
a cursor lie behind those it took.
-/

namespace SchemaLang

/-- A token and where it stands. -/
abbrev Placed := Token × Span

namespace Placed

/-- Tokens that stand one after the other from a position on. -/
def InOrder (position : Nat) : List Placed → Prop
  | [] => True
  | p :: ps =>
    position ≤ p.2.start ∧ p.2.start ≤ p.2.stop ∧ (p.1 ≠ .endOfInput → p.2.start < p.2.stop) ∧
      InOrder p.2.stop ps

theorem InOrder.mono {position earlier : Nat} {ps : List Placed} (h : InOrder position ps)
    (hle : earlier ≤ position) : InOrder earlier ps := by
  cases ps with
  | nil => trivial
  | cons p ps => exact ⟨Nat.le_trans hle h.1, h.2⟩

theorem InOrder.filter {position : Nat} {ps : List Placed} (h : InOrder position ps)
    (keep : Placed → Bool) : InOrder position (ps.filter keep) := by
  induction ps generalizing position with
  | nil => trivial
  | cons p ps ih =>
    obtain ⟨hstart, hle, hlt, hrest⟩ := h
    by_cases hp : keep p
    · rw [List.filter_cons_of_pos hp]
      exact ⟨hstart, hle, hlt, ih hrest⟩
    · rw [List.filter_cons_of_neg hp]
      exact ih (hrest.mono (Nat.le_trans hstart hle))

end Placed

/-- A reading as a token in its place. -/
def Reading.placed (r : Reading) : Placed := (r.token, r.span)

/-- A lexeme as a token in its place. -/
def Lexeme.placed (l : Lexeme) : Placed := (l.token, l.span)

theorem Text.byteLength_pos {cs : List Char} (h : cs ≠ []) : 0 < Text.byteLength cs := by
  cases cs with
  | nil => exact absurd rfl h
  | cons c cs =>
    have hc := c.utf8Size_pos
    rw [Text.byteLength_cons]
    omega

/-- A token stands at or behind where it was looked for, and takes up room unless it is the end. -/
theorem span_of_readToken {position : Nat} {cs : List Char} {r : Reading}
    (h : readToken position cs = .ok r) : position ≤ r.span.start ∧ r.span.start ≤ r.span.stop ∧
      (r.token ≠ .endOfInput → r.span.start < r.span.stop) := by
  obtain ⟨s, hs, rfl⟩ := readToken_eq_ok.1 h
  refine ⟨Nat.le_add_right _ _, Nat.le_add_right _ _, fun ht => ?_⟩
  have htext : s.text ≠ [] := fun hnil => ht ((append_of_scanToken hs).2.1 hnil)
  exact Nat.lt_add_of_pos_right (Text.byteLength_pos htext)

theorem inOrder_scan (position : Nat) (cs : List Char) :
    Placed.InOrder position ((scan position cs).readings.map Reading.placed) := by
  fun_induction scan position cs with
  | case1 position cs e h => trivial
  | case2 position cs r h hr =>
    obtain ⟨hstart, hle, hlt⟩ := span_of_readToken h
    exact ⟨hstart, hle, hlt, trivial⟩
  | case3 position cs r h hr rest ih =>
    obtain ⟨hstart, hle, hlt⟩ := span_of_readToken h
    exact ⟨hstart, hle, hlt, ih⟩

/-- Lexemes stand where the tokens stand that are no descriptions. -/
theorem Lexeme.map_placed_gather (pending : List String) (rs : List Reading) :
    (gather pending rs).map Lexeme.placed =
      (rs.map Reading.placed).filter fun p => !p.1.isDescription := by
  induction rs generalizing pending with
  | nil => rfl
  | cons r rs ih =>
    obtain ⟨token, span, gap, rest⟩ := r
    cases token <;> simp [gather, Token.isDescription, Lexeme.placed, Reading.placed, ih]

/-- The lexemes from a cursor on stand one after the other, behind what was taken. -/
def Cursor.InOrder (c : Cursor) : Prop := Placed.InOrder c.lastStop (c.lexemes.map Lexeme.placed)

theorem Source.inOrder_map_placed (s : Source) :
    Placed.InOrder 0 (s.lexemes.map Lexeme.placed) := by
  rw [lexemes, Lexeme.map_placed_gather]
  exact (inOrder_scan 0 s.chars).filter _

/-- Every lexeme is a token of the source in its place. -/
theorem Source.exists_reading {s : Source} {l : Lexeme} (h : l ∈ s.lexemes) :
    ∃ r ∈ s.tokens.readings, r.placed = l.placed := by
  have placed : l.placed ∈ s.lexemes.map Lexeme.placed := List.mem_map_of_mem h
  rw [lexemes, Lexeme.map_placed_gather] at placed
  exact List.mem_map.1 (List.mem_of_mem_filter placed)

theorem Source.inOrder_lexemes {s : Source} {c : Cursor} (hc : c.lexemes = s.lexemes)
    (hstop : c.lastStop = 0) : c.InOrder := by
  rw [Cursor.InOrder, hc, hstop]
  exact s.inOrder_map_placed

namespace Cursor

variable {c c' : Cursor}

theorem InOrder.current (h : c.InOrder) :
    c.lastStop ≤ c.current.span.start ∧ c.current.span.start ≤ c.current.span.stop ∧
      (c.current.token ≠ .endOfInput → c.current.span.start < c.current.span.stop) :=
  ⟨h.1, h.2.1, h.2.2.1⟩

theorem InOrder.moves (h : c.InOrder) (hm : c.Moves c') : c'.InOrder := by
  obtain ⟨-, -, -, rest⟩ := h
  rw [InOrder, hm.2, ← hm.1]
  exact rest

end Cursor

end SchemaLang
