import SchemaLang.Proofs.Lexing.Slices

/-!
# The lexemes of a piece of a source

A piece of a source from the start of one lexeme up to the end of a later one has the same lexemes
on its own, and then the end of the input. Only a description in front of the first one is lost,
since it stands before the piece.
-/

namespace SchemaLang

/-- The same lexeme with its place counted from byte `n` on. -/
def Lexeme.moveLeft (n : Nat) (l : Lexeme) :
    Lexeme := { l with span := ⟨l.span.start - n, l.span.stop - n⟩ }

namespace Lexeme

variable {pending : List String} {rs rs' zs : List Reading} {l : Lexeme}
  {ls front behind : List Lexeme}

/-- Behind a token that is no description the lexemes do not depend on what stands before it. -/
theorem gather_append {r : Reading} (hr : r.token.isDescription = false) (xs : List Reading) :
    gather pending (xs ++ r :: zs) = gather pending (xs ++ [r]) ++ gather [] zs := by
  induction xs generalizing pending with
  | nil =>
    obtain ⟨token, span, gap, rest⟩ := r
    cases token with
    | description line => exact nomatch hr
    | _ => rfl
  | cons x xs ih =>
    obtain ⟨token, span, gap, rest⟩ := x
    cases token with
    | description line => exact ih
    | _ => exact congrArg (List.cons _) ih

/-- Each lexeme comes from one token, and those behind it from the tokens behind that one. -/
theorem exists_of_gather (h : gather pending rs = front ++ l :: behind) :
    ∃ xs r zs, rs = xs ++ r :: zs ∧ r.token.isDescription = false ∧ r.placed = l.placed ∧
      gather pending (xs ++ [r]) = front ++ [l] ∧ gather [] zs = behind := by
  induction rs generalizing pending front with
  | nil => exact absurd h.symm (List.append_ne_nil_of_right_ne_nil _ (List.cons_ne_nil _ _))
  | cons x rs ih =>
    obtain ⟨token, span, gap, rest⟩ := x
    cases htoken : token with
    | description line =>
      rw [htoken] at h
      obtain ⟨xs, r, zs, rfl, hr, hplaced, hfront, hbehind⟩ := ih h
      exact ⟨⟨.description line, span, gap, rest⟩ :: xs, r, zs, rfl, hr, hplaced, hfront, hbehind⟩
    | _ =>
      rw [htoken] at h
      cases front with
      | nil =>
        obtain ⟨rfl, rfl⟩ := List.cons.inj h
        exact ⟨[], _, rs, rfl, rfl, rfl, rfl, rfl⟩
      | cons l' front =>
        obtain ⟨rfl, htail⟩ := List.cons.inj h
        obtain ⟨xs, r, zs, rfl, hr, hplaced, hfront, hbehind⟩ := ih htail
        refine ⟨_ :: xs, r, zs, rfl, hr, hplaced, ?_, hbehind⟩
        exact congrArg (List.cons _) hfront

/-- Where the last of some lexemes stops, or `position` if there is none. -/
def lastStop (position : Nat) (ls : List Lexeme) : Nat :=
  (ls.getLast?.map fun l => l.span.stop).getD position

theorem lastStop_append (position : Nat) (ls ls' : List Lexeme) :
    lastStop position (ls ++ ls') = lastStop (lastStop position ls) ls' := by
  cases ls' using List.reverseRecOn with
  | nil => rw [List.append_nil]; rfl
  | append_singleton ls' l _ =>
    rw [lastStop, lastStop, ← List.append_assoc, List.getLast?_concat, List.getLast?_concat]
    rfl

/-- The lexemes in front of others come from tokens in front of theirs, whatever stands behind. -/
theorem exists_append_of_gather (h : gather [] rs = front ++ behind) :
    ∃ xs zs, rs = xs ++ zs ∧ gather [] zs = behind ∧
    (∀ ys, gather [] (xs ++ ys) = front ++ gather [] ys) ∧
      ∀ position, SchemaLang.lastStop position xs = lastStop position front := by
  cases front using List.reverseRecOn with
  | nil => exact ⟨[], rs, rfl, h, fun _ => rfl, fun _ => rfl⟩
  | append_singleton front l _ =>
    rw [List.append_assoc] at h
    obtain ⟨xs, r, zs, rfl, hr, hplaced, hfront, hbehind⟩ := exists_of_gather h
    refine ⟨xs ++ [r], zs,
      by rw [List.append_assoc]; rfl, hbehind, fun ys => ?_, fun position => ?_⟩
    · rw [List.append_assoc]
      exact (gather_append hr xs).trans (congrArg (· ++ gather [] ys) hfront)
    · have hspan : r.span = l.span := congrArg Prod.snd hplaced
      rw [SchemaLang.lastStop, lastStop, List.getLast?_concat, List.getLast?_concat,
        Option.map_some, Option.map_some, hspan]

/-- A token that is no description makes a lexeme of its own. -/
theorem gather_cons {r : Reading} (hr : r.token.isDescription = false) (xs : List Reading) :
    gather pending (r :: xs) = ⟨r.token, r.span, joinLines pending⟩ :: gather [] xs := by
  obtain ⟨token, span, gap, rest⟩ := r
  cases token with
  | description line => exact nomatch hr
  | _ => rfl

/-- Lexemes depend on the tokens and their places only, and move with these. -/
theorem gather_of_placed (move : Span → Span)
    (h : rs'.map Reading.placed = rs.map fun r => (r.token, move r.span)) :
    gather pending rs' = (gather pending rs).map fun l => { l with span := move l.span } := by
  induction rs generalizing pending rs' with
  | nil =>
    rw [List.map_eq_nil_iff.1 h]
    rfl
  | cons r rs ih =>
    cases rs' with
    | nil => exact nomatch h
    | cons r' rs' =>
      obtain ⟨hplaced, htail⟩ := List.cons.inj h
      obtain ⟨token, span, gap, rest⟩ := r
      obtain ⟨token', span', gap', rest'⟩ := r'
      have htoken : token' = token := congrArg Prod.fst hplaced
      have hspan : span' = move span := congrArg Prod.snd hplaced
      subst htoken hspan
      cases token' with
      | description line => exact ih htail
      | _ => exact congrArg (List.cons _) (ih htail)

private theorem gather_moveLeft {n : Nat}
    (h : rs'.map Reading.placed = rs.map fun r => r.placed.moveLeft n) :
    gather pending rs' = (gather pending rs).map (moveLeft n) :=
  gather_of_placed (fun span => ⟨span.start - n, span.stop - n⟩) h

/-- Behind tokens of which the last is no description the lexemes do not depend on what
stands in front. -/
theorem gather_append_of_last (h : ∀ t ∈ (rs.map Reading.token).getLast?, t.isDescription = false)
    (zs : List Reading) : gather [] (rs ++ zs) = gather [] rs ++ gather [] zs := by
  cases rs using List.reverseRecOn with
  | nil => rfl
  | append_singleton rs r _ =>
    rw [List.append_assoc]
    exact gather_append (h r.token (by simp)) rs

end Lexeme

/-- The piece of a source from one lexeme up to where a later one stops, and its lexemes. -/
theorem Source.lexemes_slice {s : Source} {before front behind : List Lexeme} {first : Lexeme}
    (h : s.lexemes = before ++ (first :: front ++ behind)) (hbehind : behind ≠ []) :
    ∃ piece,
      s.text? ⟨first.span.start, Lexeme.lastStop 0 (first :: front)⟩ =
        some (String.ofList piece) ∧
      ∀ s' : Source, s'.chars = piece → s'.tokens.fault = none ∧
        s'.lexemes =
          ({ first with description := none } :: front).map (Lexeme.moveLeft first.span.start) ++
          [⟨.endOfInput, ⟨s'.byteLength, s'.byteLength⟩, none⟩] := by
  obtain ⟨left, rs, hreadings, hrs, -, -⟩ := Lexeme.exists_append_of_gather h
  obtain ⟨ds, r, tail, rfl, hr, hplaced, -, htail⟩ :=
    Lexeme.exists_of_gather (show Lexeme.gather [] rs = [] ++ first :: (front ++ behind) from hrs)
  obtain ⟨inside, right, rfl, hright, hinside, hlast⟩ := Lexeme.exists_append_of_gather htail
  have htoken : r.token = first.token := congrArg Prod.fst hplaced
  have hspan : r.span = first.span := congrArg Prod.snd hplaced
  have hsplit : s.tokens.readings = (left ++ ds) ++ (r :: inside ++ right) := by
    rw [hreadings, List.append_assoc]
    rfl
  have hne : right ≠ [] := by
    rintro rfl
    exact hbehind hright.symm
  obtain ⟨piece, htext, hslice⟩ := tokens_slice hsplit hne
  have hstop : SchemaLang.lastStop 0 (r :: inside) = Lexeme.lastStop 0 (first :: front) := by
    rw [lastStop_cons, hlast, hspan]
    exact (Lexeme.lastStop_append 0 [first] front).symm
  rw [hspan, hstop] at htext
  refine ⟨piece, htext, fun s' hs' => ?_⟩
  obtain ⟨hfault, hplaces⟩ := hslice s' hs'
  refine ⟨hfault, ?_⟩
  rw [hspan] at hplaces
  -- The end of the piece, as if it stood in the source.
  let e : Reading :=
    ⟨.endOfInput, ⟨first.span.start + s'.byteLength, first.span.start + s'.byteLength⟩, [], []⟩
  have hend : e.placed.moveLeft first.span.start =
      (.endOfInput, ⟨s'.byteLength, s'.byteLength⟩) := by
    simp only [e, Reading.placed, Placed.moveLeft, Nat.add_sub_cancel_left]
  have hall : s'.tokens.readings.map Reading.placed =
      (r :: (inside ++ [e])).map fun x => x.placed.moveLeft first.span.start := by
    rw [hplaces, ← hend, ← List.cons_append, List.map_append]
    rfl
  rw [lexemes, Lexeme.gather_moveLeft hall, Lexeme.gather_cons hr, hinside, htoken, hspan,
    ← List.cons_append, List.map_append]
  simp only [e, Lexeme.gather, Lexeme.moveLeft, Lexeme.joinLines, List.map_cons, List.map_nil,
    Nat.add_sub_cancel_left]

end SchemaLang
