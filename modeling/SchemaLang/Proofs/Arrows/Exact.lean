import SchemaLang.Proofs.Arrows.Confined
import SchemaLang.Proofs.Arrows.Frames
import SchemaLang.Proofs.Arrows.Layout
import SchemaLang.Proofs.Formatting.Text
import SchemaLang.Proofs.Locations.Tokens

/-!
# Arrows are parsed exactly

Hops that follow one another in one of the places for arrows are parsed to the type that they make
up, whatever ignored text stands between their tokens. And nothing else is: the tokens in the
location of a type with arrows are those of its hops and no others, and a character of an arrow
stands nowhere else in a document, but for the equals sign in front of a default or of the members
of a union. So no arrow is read that has lost a part or has one too many.
-/

namespace SchemaLang

namespace Document

variable {d : Document} {place : ArrowPlace} {t : TypeRef} {s : Source} {o : ParseOptions}

/-- The tokens in the location of a type in a place are those of the type. -/
theorem HasTypeAt.tokensIn (h : d.HasTypeAt place t) (parsed : parseDocument s o = .ok d)
    (located : o.noLocation = false) : ∃ l, t.loc = some l ∧ s.tokensIn l = t.form.tokens := by
  obtain ⟨F, form, -⟩ := t.exists_body
  have part := h.hasPart
  have rigid := t.isRigid_form
  rw [form] at part rigid
  obtain ⟨l, loc, tokens⟩ := tokensIn_of_hasPart parsed located part rigid
  refine ⟨l, loc, ?_⟩
  rw [tokens, ← t.significantTokens_form, form]
  rfl

/-- What holds a character of an arrow is a type or a definition. -/
theorem HoldsArrowCharacter.ne_document {k : Token} {n : Node} (h : d.HoldsArrowCharacter k n)
    (d' : Document) : n ≠ .document d' := by
  rintro rfl
  rcases h with ⟨_, _, -, -, same⟩ | ⟨-, -, equals⟩
  · cases same
  · exact absurd equals Bool.false_ne_true

/-- A character of an arrow that was read stands in the location of a node that holds it. -/
theorem exists_holdsArrowCharacter (parsed : parseDocument s o = .ok d)
    (located : o.noLocation = false) {r : Reading} (hr : r ∈ s.tokens.readings)
    (arrow : r.token.isArrowCharacter = true) : ∃ n l, d.HoldsArrowCharacter r.token n ∧
    n.loc = some l ∧ l.start ≤ r.span.start ∧ r.span.stop ≤ l.stop := by
  obtain ⟨conforms, ls, e, hlexemes, hend, covers, -⟩ := parseDocument_eq_ok_iff_covers.1 parsed
  obtain ⟨k, hk, placed⟩ := Source.exists_lexeme hr (Token.isDescription_of_isArrowCharacter arrow)
  have token : k.token = r.token := congrArg Prod.fst placed
  -- The end of the source is no character of an arrow.
  have mem : k ∈ ls := by
    rw [hlexemes] at hk
    rcases List.mem_append.1 hk with hk | hk
    · exact hk
    · rw [List.mem_singleton.1 hk, hend] at token
      rw [← token] at arrow
      exact absurd arrow Bool.false_ne_true
  obtain ⟨F, ⟨n, holds, written⟩, before, part, behind, hls, hpart, inside⟩ :=
    (conforms.confines r.token).exists_part covers mem token arrow
  rw [hls, List.append_assoc, List.append_assoc] at hlexemes
  obtain ⟨l, loc, isIn⟩ := written.exists_isIn holds.ne_document located hpart hlexemes inside
  rw [placed] at isIn
  obtain ⟨-, start, stop⟩ := Placed.isIn_iff.1 isIn
  exact ⟨n, l, holds, loc, start, stop⟩

end Document

/-- How arrows are parsed under some options. -/
structure ParsesArrowsExactly (o : ParseOptions) : Prop where
  /-- Any hops, one or more of them, make up a type in a field. -/
  made : ∀ (hops : List Hop) (required : Bool), hops ≠ [] →
    ∃ t, ArrowPlace.field.type? hops required = some t
  /-- Hops with names are parsed to the type that they make up in a place, in the smallest documents
  around that place, however the tokens are laid out. -/
  ofHops :
    ∀ (frame : ArrowFrame) (hops : List Hop) (required : Bool) (t : TypeRef) (cs :
      List Char) (name : String),
    frame.Conforms → (∀ h ∈ hops, h.Conforms) → frame.place.type? hops required = some t →
      LaidOut (frame.front ++ (Hop.chain hops required ++ frame.back)) cs →
        ∃ d, parseDocument ⟨String.ofList cs, name⟩ o = .ok d ∧ d.SameUpToLoc (frame.document t)
  /-- The same holds in any document that conforms and has the type in the place: its tokens hold
  those of the hops. -/
  ofDocument :
    ∀ (d : Document) (place : ArrowPlace) (hops : List Hop) (required : Bool) (t :
      TypeRef) (s : Source),
    d.Conforms o.maxDepth → d.HasTypeAt place t →
    place.type? hops required = some (t.mapLoc fun _ => none) →
      s.tokenSequence = d.form.tokens ++ [.endOfInput] →
        (∃ front back, s.tokenSequence = front ++ (Hop.chain hops required ++ back)) ∧
          ∃ d', parseDocument s o = .ok d' ∧ d'.SameUpToLoc d
  /-- A type with arrows that was parsed in a place is made up of hops with names, and the tokens in
  its location are those of the hops and no others, stray descriptions aside. -/
  toHops : ∀ (s : Source) (d : Document) (place : ArrowPlace) (t : TypeRef), o.noLocation = false →
    parseDocument s o = .ok d → d.HasTypeAt place t → t.HasArrows →
      ∃ hops required l, (∀ h ∈ hops, Hop.Conforms h) ∧
      place.type? hops required = some (t.mapLoc fun _ => none) ∧
        t.loc = some l ∧ s.tokensIn l = Hop.chain hops required
  /-- A type without arrows has no character of an arrow in its location. -/
  plain : ∀ (s : Source) (d : Document) (place : ArrowPlace) (t : TypeRef), o.noLocation = false →
    parseDocument s o = .ok d → d.HasTypeAt place t → ¬ t.HasArrows →
      ∃ l, t.loc = some l ∧ ∀ k ∈ s.tokensIn l, k.isArrowCharacter = false
  /-- A character of an arrow that was read is in the location of a type with arrows in a place, or
  it is an equals sign in a definition that has such a sign. -/
  confined : ∀ (s : Source) (d : Document), o.noLocation = false → parseDocument s o = .ok d →
    ∀ r ∈ s.tokens.readings, r.token.isArrowCharacter = true →
      ∃ n l, d.HoldsArrowCharacter r.token n ∧ n.loc = some l ∧ l.start ≤ r.span.start ∧
      r.span.stop ≤ l.stop

/-- Arrows are parsed exactly under all options, whatever the limit to the nesting. -/
theorem parsesArrowsExactly (o : ParseOptions) : ParsesArrowsExactly o where
  made hops required hne := by
    rcases hops with _ | ⟨h, _ | ⟨h', hops⟩⟩
    · exact absurd rfl hne
    · exact ⟨_, rfl⟩
    · exact ⟨_, rfl⟩
  ofHops frame hops required t cs name hframe hhops made laidOut := by
    have nesting : t.nesting ≤ o.maxDepth := by simp [ArrowPlace.nesting_of_type? made]
    have conforms := hframe.document (ArrowPlace.admits_of_type? made hhops) nesting
    refine parseDocument_of_lexes conforms ?_ name
    rw [String.toList_ofList, frame.tokens_document, ArrowPlace.tokens_of_type? made]
    exact laidOut.lexes
  ofDocument d place hops required t s conforms ht made tokens := by
    refine ⟨?_, parseDocument_of_tokenSequence conforms tokens⟩
    obtain ⟨front, back, hform⟩ := ht.hasPart.exists_tokens
    rw [ArrowPlace.tokens_of_type?_mapLoc made] at hform
    exact ⟨front, back ++ [.endOfInput], by rw [tokens, hform]; simp⟩
  toHops s d place t located parsed ht arrows := by
    obtain ⟨hops, required, conform, made⟩ :=
      ArrowPlace.exists_hops (ht.admits (conforms_of_parseDocument parsed)) arrows
    obtain ⟨l, loc, tokens⟩ := ht.tokensIn parsed located
    exact ⟨hops, required, l, conform, made, loc,
      tokens.trans (ArrowPlace.tokens_of_type?_mapLoc made)⟩
  plain s d place t located parsed ht arrows := by
    have isPlain :=
      ArrowPlace.isPlain_of_not_hasArrows (ht.admits (conforms_of_parseDocument parsed)) arrows
    obtain ⟨l, loc, tokens⟩ := ht.tokensIn parsed located
    refine ⟨l, loc, fun k hk => ?_⟩
    rw [tokens] at hk
    cases k with
    | punctuator p =>
      refine Bool.eq_false_iff.2 fun hp => isPlain.not_mem_tokens ?_ hk
      exact List.contains_iff_mem.1 hp
    | _ => rfl
  confined s d located parsed r hr := Document.exists_holdsArrowCharacter parsed located hr

/-- Two hops that are required, with all sorts of ignored text and a stray description between
the characters. -/
example :
    let hops : List Hop :=
      [⟨.incoming, .singular, some "x", "B"⟩, ⟨.outgoing, .plural, none, "type"⟩]
    let text := "type A\x7bf:<\n## stray\n-x-B= # note\n=,,>type!\x7d"
    (parseDocument ⟨text, "a.graphqls"⟩ ⟨true, false, 0⟩).toOption =
      (ArrowPlace.field.type? hops true).map (ArrowFrame.object "A" "f").document := by
  decide +kernel

/-- The line of an arrow does not change at its label. -/
example :
    (parseDocument ⟨"type A \x7b f: -x=>B \x7d", "a.graphqls"⟩ ⟨true, false, 0⟩).isOk = false := by
  decide +kernel

end SchemaLang
