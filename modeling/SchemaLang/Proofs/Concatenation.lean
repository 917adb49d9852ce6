import SchemaLang.Proofs.Documents
import SchemaLang.Proofs.Lexing.Seams
import SchemaLang.Proofs.Locations.Conforms

/-!
# Documents one behind the other

Two sources that hold documents can be put one behind the other, with a line feed between them: the
whole holds the definitions of both. No definition takes anything of what follows it, and only where
the later ones stand is counted from further back. What may not stand in front of the seam is a
description, which would become one of the first definition behind it.
-/

namespace SchemaLang

variable {a b s : Source} {o : ParseOptions} {d e : Document}

/-- The text of one source, a line feed, and the text of another one. -/
def Source.join (a b : Source) (name : String) : Source := ⟨a.body ++ "\n" ++ b.body, name⟩

/-- No description stands right in front of the end of the input. -/
def Source.EndsPlainly (s : Source) : Prop :=
  ∀ line, ¬ [.description line, .endOfInput] <:+ s.tokenSequence

/-- The same lexeme with its place counted from `n` bytes further back. -/
def Lexeme.moveRight (n : Nat) (l : Lexeme) :
    Lexeme := { l with span := ⟨l.span.start + n, l.span.stop + n⟩ }

/-- A location in a text that became the part of a source that starts at byte `n`. -/
def Loc.within (s : Source) (n : Nat) (l : Loc) : Loc :=
  ⟨l.start + n, l.stop + n, l.source.map fun _ => s⟩

/-- The definitions of two documents, of which the first one starts the source and the other one
stands at byte `n`. -/
def Document.join (s : Source) (n : Nat) (d e : Document) : Document where
  definitions :=
    d.definitions.map (·.mapLoc fun l => some (l.within s 0)) ++
      e.definitions.map (·.mapLoc fun l => some (l.within s n))
  loc := d.loc.bind fun l => e.loc.map fun k => { l.within s 0 with stop := (k.within s n).stop }

private theorem Source.chars_join (a b : Source) (name : String) :
    (a.join b name).chars = a.chars ++ '\n' :: b.chars := by
  simp [join, chars]

/-- The lexemes of two sources one behind the other are those of the first one, but for its end, and
those of the other one. -/
theorem Source.lexemes_join (h : a.tokens.fault = none) (hends : a.EndsPlainly) (b : Source)
    (name : String) : ∃ front last, a.lexemes = front ++ [last] ∧
      (a.join b name).lexemes = front ++ b.lexemes.map (Lexeme.moveRight (a.byteLength + 1)) := by
  obtain ⟨xs, r, hxs, hr, hjoined⟩ := placed_scan_lineFeed h b.chars
  -- So the lines that are pending behind the first text are none.
  have hlast : ∀ t ∈ (xs.map Reading.token).getLast?, t.isDescription = false := by
    intro t ht
    obtain ⟨ts, hts⟩ := List.getLast?_eq_some_iff.1 ht
    cases t with
    | description line =>
      have hsequence : a.tokenSequence = ts ++ [.description line, .endOfInput] := by
        rw [tokenSequence, tokens, hxs, List.map_append, hts, List.append_assoc,
          List.map_singleton, hr]
        rfl
      exact absurd ⟨ts, hsequence.symm⟩ (hends line)
    | _ => rfl
  rw [← chars_join a b name, Nat.zero_add] at hjoined
  obtain ⟨xs', ys', hwhole, hfirst, hbehind⟩ := List.map_eq_append_iff.1 hjoined
  have htokens : xs'.map Reading.token = xs.map Reading.token := by
    have := congrArg (List.map Prod.fst) hfirst
    rwa [List.map_map, List.map_map] at this
  have hfront : Lexeme.gather [] xs' = Lexeme.gather [] xs := by
    rw [Lexeme.gather_of_placed id hfirst]
    exact List.map_id _
  have hback : Lexeme.gather [] ys' = b.lexemes.map (Lexeme.moveRight (a.byteLength + 1)) :=
    Lexeme.gather_of_placed (fun span =>
      ⟨span.start + (a.byteLength + 1), span.stop + (a.byteLength + 1)⟩) hbehind
  refine ⟨Lexeme.gather [] xs, ⟨r.token, r.span, none⟩, ?_, ?_⟩
  · have hdescription : r.token.isDescription = false := by
      rw [hr]
      rfl
    rw [lexemes, tokens, hxs, Lexeme.gather_append_of_last hlast, Lexeme.gather_cons hdescription]
    rfl
  · rw [lexemes, tokens, hwhole, Lexeme.gather_append_of_last (htokens ▸ hlast), hfront, hback]

/-- A location in a part of a source is made like one in the text of the part. -/
theorem ParseOptions.locate_within (o : ParseOptions) (s s' : Source) (n start stop : Nat) :
    o.locate s' (start + n) (stop + n) = (o.locate s start stop).bind fun l =>
    some (l.within s' n) := by
  cases hl : o.noLocation <;> cases hs : o.noSource <;> simp [locate, Loc.within, hl, hs]

/-- What reaches from one part of a source into a later one is located by both. -/
theorem ParseOptions.locate_join (o : ParseOptions) (a b s : Source)
    (n start stop start' stop' : Nat) :
    ((o.locate a start stop).bind fun l => (o.locate b start' stop').map fun k =>
      { l.within s 0 with stop := (k.within s n).stop }) = o.locate s start (stop' + n) := by
  cases hl : o.noLocation <;> cases hs : o.noSource <;> simp [locate, Loc.within, hl, hs]

/-- The lexemes of a document are those of its definitions where they stand in another source. -/
theorem Document.covers_within {ls : List Lexeme} (h : d.form.Covers (o.locate a) ls)
    (s : Source) (n : Nat) :
    (d.mapLoc fun l => some (l.within s n)).form.Covers (o.locate s)
      (ls.map (Lexeme.moveRight n)) := by
  rw [Document.form_mapLoc]
  refine h.relocate (R := fun l l' => l' = l.moveRight n) ?_ ?_ ?_
  · rintro l _ rfl
    exact ⟨rfl, rfl⟩
  · rintro l _ k _ rfl rfl
    exact o.locate_within a s n _ _
  · exact List.forall₂_map_right_iff.2 (List.forall₂_same.2 fun _ _ => rfl)

/-- A document has a lexeme to start with. -/
theorem Document.covers_ne_nil {depth : Nat} {locate : Nat → Nat → Option Loc} {ls : List Lexeme}
    (hd : d.Conforms depth) (h : d.form.Covers locate ls) : ls ≠ [] := by
  obtain ⟨x, xs, hx⟩ := List.exists_cons_of_ne_nil hd.definitions_ne_nil
  rw [form, hx] at h
  obtain ⟨front, behind, rfl, hfront, -⟩ := h
  exact List.append_ne_nil_of_left_ne_nil ((Parser.starts_definition x).covers_ne_nil hfront) _

/-- Two sources that hold documents hold the definitions of both, if they are put one
behind the other. -/
theorem parseDocument_join (ha : parseDocument a o = .ok d) (hb : parseDocument b o = .ok e)
    (hends : a.EndsPlainly) (name : String) :
    parseDocument (a.join b name) o = .ok (d.join (a.join b name) (a.byteLength + 1) e) := by
  obtain ⟨-, hfault, -⟩ := isSpelledBy_of_parseDocument ha
  obtain ⟨hd, ls, l, hls, -, dcovers, dloc⟩ := parseDocument_eq_ok_iff_covers.1 ha
  obtain ⟨he, ks, k, hks, hk, ecovers, eloc⟩ := parseDocument_eq_ok_iff_covers.1 hb
  obtain ⟨front, last, hfront, hjoined⟩ := Source.lexemes_join hfault hends b name
  obtain ⟨rfl, -⟩ := List.append_inj' (hls.symm.trans hfront) rfl
  set s := a.join b name
  set n := a.byteLength + 1
  rw [hks, List.map_append, List.map_singleton, ← List.append_assoc] at hjoined
  refine parseDocument_eq_ok_iff_covers.2
    ⟨⟨?_, ?_⟩, ls ++ ks.map (Lexeme.moveRight n), k.moveRight n, hjoined, hk, ?_, ?_⟩
  · exact List.append_ne_nil_of_left_ne_nil (mt List.map_eq_nil_iff.1 hd.definitions_ne_nil) _
  · exact List.forall_mem_append.2 ⟨forall_mem_mapLoc Definition.conforms_mapLoc hd.definitions,
      forall_mem_mapLoc Definition.conforms_mapLoc he.definitions⟩
  · rw [Document.form, Document.join, List.map_append, Form.covers_all_append]
    have unmoved : ls.map (Lexeme.moveRight 0) = ls := List.map_id ls
    have first := Document.covers_within dcovers s 0
    rw [unmoved] at first
    exact ⟨ls, _, rfl, first, Document.covers_within ecovers s n⟩
  · -- The whole reaches from where the first document starts to where the other one stops.
    intro x hx
    obtain ⟨x', ls', rfl⟩ := List.exists_cons_of_ne_nil (Document.covers_ne_nil hd dcovers)
    obtain ⟨y, ks', hy⟩ :=
      List.exists_cons_of_ne_nil (List.append_ne_nil_of_right_ne_nil ks (List.cons_ne_nil k []))
    rw [hjoined] at hx
    obtain rfl : x' = x := Option.some.inj hx
    rw [hls] at dloc
    rw [hks, hy] at eloc
    rw [Document.join, dloc x' rfl, eloc y rfl]
    exact o.locate_join a b s n _ _ _ _

/-- A comment at the end of one text does not reach the description at the start of the other. -/
theorem parseDocument_join_comment :
    let a : Source := ⟨"scalar A # 1", "a.graphqls"⟩
    let b : Source := ⟨"\ufeff## A day.\nscalar D", "b.graphqls"⟩
    let o : ParseOptions := ⟨false, true, 1⟩
    let d : Document :=
      ⟨[.scalar ⟨none, ⟨"A", some ⟨7, 8, none⟩⟩, [], some ⟨0, 8, none⟩⟩], some ⟨0, 12, none⟩⟩
    let e : Document :=
      ⟨[.scalar ⟨some "A day.", ⟨"D", some ⟨20, 21, none⟩⟩, [], some ⟨13, 21, none⟩⟩],
        some ⟨13, 21, none⟩⟩
    let both : Document := ⟨[.scalar ⟨none, ⟨"A", some ⟨7, 8, none⟩⟩, [], some ⟨0, 8, none⟩⟩,
      .scalar ⟨some "A day.", ⟨"D", some ⟨33, 34, none⟩⟩, [], some ⟨26, 34, none⟩⟩],
      some ⟨0, 34, none⟩⟩
    parseDocument a o = .ok d ∧ parseDocument b o = .ok e ∧ a.EndsPlainly ∧
      parseDocument (a.join b "ab.graphqls") o = .ok both := by
  intro a b o d e both
  have first : parseDocument a o = .ok d := by
    decide +kernel
  have second : parseDocument b o = .ok e := by
    decide +kernel
  have tokens : a.tokenSequence = [.name "scalar", .name "A", .endOfInput] := by
    decide +kernel
  have plainly : a.EndsPlainly := by
    intro line
    rw [tokens]
    simp [List.suffix_cons_iff]
  have whole : d.join (a.join b "ab.graphqls") (a.byteLength + 1) e = both := by
    decide +kernel
  exact ⟨first, second, plainly,
    (parseDocument_join first second plainly "ab.graphqls").trans (congrArg Except.ok whole)⟩

end SchemaLang
