import SchemaLang.Proofs.Covering
import SchemaLang.Proofs.Documents
import SchemaLang.Proofs.Gathering
import SchemaLang.Proofs.Locations.Render
import SchemaLang.Proofs.Printing.Written

/-!
# Printing and parsing again

The canonical text of a document that conforms to the contract holds the tokens of its form.
Gathered into lexemes, with the lines of each description joined again, these are the lexemes that
the form spans, so that parsing the text gives the document back. The text of a value alone is read
back for the same reason.
-/

namespace SchemaLang

/-- A form without locations spans the lexemes of its tokens. -/
theorem Form.exists_spans {F : Form} (hF : F.IsUnlocated) {c : Cursor} {rs : List Reading}
    {us : List Token} (hc : c.lexemes = Lexeme.gather [] rs)
    (hrs : rs.map Reading.token = F.tokens ++ us) (hus : .endOfInput ∈ us) :
    ∃ m rs', F.Spans (fun _ _ => none) c m ∧ m.lexemes = Lexeme.gather [] rs' ∧
    rs'.map Reading.token = us := by
  -- An end of the input among the tokens behind the form makes sure that there is a cursor behind
  -- each of its tokens.
  induction F generalizing c rs us with
  | token t ht =>
    obtain ⟨span, rs', hrs', hgather⟩ := Lexeme.gather_descriptionTokens (d := none) ht hrs
    rw [hgather] at hc
    obtain ⟨hl, m, hm, hlexemes⟩ := Cursor.exists_moves hc (Lexeme.gather_ne_nil (by rwa [hrs']) [])
    exact ⟨m, rs', ⟨by rw [hl], hm⟩, hlexemes, hrs'⟩
  | described d t ht =>
    rw [Form.tokens, List.append_assoc] at hrs
    obtain ⟨span, rs', hrs', hgather⟩ := Lexeme.gather_descriptionTokens ht hrs
    rw [hgather] at hc
    obtain ⟨hl, m, hm, hlexemes⟩ := Cursor.exists_moves hc (Lexeme.gather_ne_nil (by rwa [hrs']) [])
    exact ⟨m, rs', ⟨by rw [hl], by rw [hl], hm⟩, hlexemes, hrs'⟩
  | empty => exact ⟨c, rs, rfl, hc, hrs⟩
  | seq a b iha ihb =>
    obtain ⟨ha, hb⟩ := Form.seq.inj hF
    rw [Form.tokens, List.append_assoc] at hrs
    obtain ⟨m, rs', fa, hm, hrs'⟩ := iha ha hc hrs (List.mem_append_right _ hus)
    obtain ⟨m', rs'', fb, hm', hrs''⟩ := ihb hb hm hrs' hus
    exact ⟨m', rs'', ⟨m, fa, fb⟩, hm', hrs''⟩
  | located loc a ih =>
    obtain ⟨hloc, ha⟩ := Form.located.inj hF
    obtain ⟨m, rs', fa, hm, hrs'⟩ := ih ha hc hrs hus
    refine ⟨m, rs', ⟨fa, ?_⟩, hm, hrs'⟩
    rw [← hloc]
    cases loc <;> rfl
  | bracketable a ih =>
    obtain ⟨m, rs', fa, hm, hrs'⟩ := ih (Form.bracketable.inj hF) hc hrs hus
    exact ⟨m, rs', .inl fa, hm, hrs'⟩

theorem Lexes.tokenSequence {s : Source} {ts : List Token} (h : Lexes s.chars ts) :
    s.tokenSequence = ts ++ [.endOfInput] :=
  (h 0).2

/-- A source with the tokens of a form without locations spells the form, up to the end
of the input. -/
theorem Form.exists_spans_of_tokenSequence {F : Form} (hF : F.IsUnlocated) {s : Source}
    (h : s.tokenSequence = F.tokens ++ [.endOfInput]) :
    ∃ c m : Cursor, c.lexemes = s.lexemes ∧ c.lastStop = 0 ∧ F.Spans (fun _ _ => none) c m ∧
      m.current.token = .endOfInput := by
  have nonempty : s.lexemes ≠ [] := Lexeme.gather_ne_nil (by
    change .endOfInput ∈ s.tokenSequence
    rw [h]
    exact List.mem_append_right _ List.mem_cons_self) []
  cases hlexemes : s.lexemes with
  | nil => exact absurd hlexemes nonempty
  | cons current rest =>
    obtain ⟨m, rs, spans, hm, hrs⟩ := Form.exists_spans hF (c := ⟨current, rest, 0⟩) hlexemes.symm h
      List.mem_cons_self
    refine ⟨⟨current, rest, 0⟩, m, rfl, rfl, spans, ?_⟩
    have tokens := Lexeme.map_token_gather [] rs
    rw [← hm, hrs] at tokens
    exact (List.cons.inj tokens).1

private theorem ParseOptions.locate_of_noLocation {o : ParseOptions}
    (ho : o.noLocation = true) (s : Source) : o.locate s = fun _ _ => none := by
  funext start stop
  rw [ParseOptions.locate, if_pos ho]

/-- The canonical text of a conforming document holds the tokens of the document. -/
theorem Document.lexes_render {d : Document} {depth : Nat} (h : d.Conforms depth) :
    Lexes d.render.toList d.form.tokens := by
  have spelled := (Document.spells h 0 [] [] Breaks.nil lexes_nil).lexes
  rwa [indentBy_zero, List.append_nil, List.append_nil] at spelled

/-- A source with the tokens of a document spells the document without its locations. -/
theorem Document.isSpelledBy_of_tokenSequence {d : Document} {s : Source}
    (h : s.tokenSequence = d.form.tokens ++ [.endOfInput]) {o : ParseOptions}
    (ho : o.noLocation = true) : (d.mapLoc fun _ => none).IsSpelledBy s o := by
  have unlocated : (d.mapLoc fun _ => none).form.IsUnlocated := by
    rw [Document.form_mapLoc]
    exact Form.isUnlocated_mapLoc _
  rw [← Form.tokens_mapLoc (f := fun _ => none), ← Document.form_mapLoc] at h
  obtain ⟨c, m, hc, hstop, spans, hend⟩ := Form.exists_spans_of_tokenSequence unlocated h
  rw [← ParseOptions.locate_of_noLocation ho s] at spans
  refine ⟨c, m, hc, hstop, spans, hend, ?_⟩
  rw [ParseOptions.locate_of_noLocation ho]
  exact Option.bind_fun_none d.loc

/-- What conforms is parsed back from its canonical text. -/
theorem parseDocument_render {d : Document} {s : Source} {o : ParseOptions}
    (h : d.Conforms o.maxDepth) (hd : d.IsLocationFree) (hs : s.body = d.render)
    (ho : o.noLocation = true) : parseDocument s o = .ok d := by
  have spelled : (d.mapLoc fun _ => none).IsSpelledBy s o :=
    Document.isSpelledBy_of_tokenSequence
      (Lexes.tokenSequence (by rw [Source.chars, hs]; exact Document.lexes_render h)) ho
  rw [hd] at spelled
  exact parseDocument_of_isSpelledBy h spelled

/-- What conforms and has no locations is printed as a text that parses to exactly it, within the
same limit to the nesting and without locations. -/
theorem parseDocument_print {d : Document} {depth : Nat} (h : d.Conforms depth)
    (hd : d.IsLocationFree) (noSource : Bool) (name : String) :
    parseDocument ⟨(Node.document d).print, name⟩ ⟨true, noSource, depth⟩ = .ok d :=
  parseDocument_render h hd (Node.print_eq_render _) rfl

/-- A union with a description of three lines is parsed back. -/
theorem parseDocument_print_union :
    let page : NamedType := ⟨⟨"Page", none⟩, none⟩
    let person : NamedType := ⟨⟨"Person", none⟩, none⟩
    let found : Document :=
      ⟨[.union ⟨some "What is found.\n\nIt may be anything.", ⟨"Found", none⟩, [],
        [page, person], none⟩], none⟩
    found.Conforms 0 ∧ found.IsLocationFree ∧
      parseDocument ⟨(Node.document found).print, "found.graphqls"⟩ ⟨true, false, 0⟩ =
        .ok found := by
  intro page person found
  have conforms : found.Conforms 0 := by
    refine ⟨List.cons_ne_nil _ _, List.forall_mem_singleton.2 ?_⟩
    constructor
    · intro text htext
      rw [← Option.some.inj htext]
      unfold IsDescription IsDescriptionLine
      decide
    · exact (by decide : IsName "Found")
    · exact fun x hx => absurd hx List.not_mem_nil
    · exact List.cons_ne_nil _ _
    · exact List.forall_mem_cons.2 ⟨(by decide : IsName "Page"),
        List.forall_mem_singleton.2 (by decide : IsName "Person")⟩
  exact ⟨conforms, rfl, parseDocument_print conforms rfl false "found.graphqls"⟩

/-- No part of the value has a location. -/
def Value.IsLocationFree (v : Value) : Prop := v.mapLoc (fun _ => none) = v

/-- The canonical text of a value that can be written holds the tokens of the value. -/
theorem Value.lexes_render {constant : Bool} {v : Value} (h : v.IsWritable constant) :
    Lexes v.render.toList v.form.tokens := by
  have spelled := (Value.spells v h 0 [] [] Breaks.nil lexes_nil).lexes
  rwa [indentBy_zero, List.append_nil, List.append_nil] at spelled

private theorem Value.IsLocationFree.isUnlocated_form {v : Value} (h : v.IsLocationFree) :
    v.form.IsUnlocated := by
  rw [← h, Value.form_mapLoc]
  exact Form.isUnlocated_mapLoc _

/-- A value without locations is printed as a text that parses to exactly it, whatever its strings
hold: within the same limit to the nesting and without locations. -/
theorem parseValue_print {v : Value} {depth : Nat} (h : v.Conforms false depth)
    (hv : v.IsLocationFree) (noSource : Bool) (name : String) :
    parseValue ⟨(Node.value v).print, name⟩ ⟨true, noSource, depth⟩ = .ok v := by
  refine parseValue_eq_ok_iff.2 ⟨h, ?_⟩
  rw [Node.print_eq_render, Value.IsSpelledBy, ParseOptions.locate_of_noLocation rfl]
  exact Form.exists_spans_of_tokenSequence hv.isUnlocated_form
    (Lexes.tokenSequence (Value.lexes_render h.1))

/-- A list beside a variable in an object is parsed back, with all that is written as an
escape in a string. -/
theorem parseValue_print_object :
    let text : Value := .string "say \"\\\"\u0000\t\r\n\u007f\u2028" none
    let point : Value :=
      .object [⟨⟨"at", none⟩, .list [.int "-0" none, .float "1.5e+3" none, text] none, none⟩,
        ⟨⟨"null", none⟩, .var ⟨"true", none⟩ none, none⟩] none
    point.Conforms false 2 ∧ point.IsLocationFree ∧
      parseValue ⟨(Node.value point).print, "point.graphqls"⟩ ⟨true, false, 2⟩ = .ok point := by
  intro text point
  have zero : IsNumber "-0" false :=
    ⟨['-'], ['0'], [], [], rfl, .inr rfl, .inl rfl, .inl rfl, .inl rfl, by decide⟩
  have digit {c : Char} (hc : c.isDigit = true) : IsDigits [c] :=
    ⟨List.cons_ne_nil _ _, List.forall_mem_singleton.2 hc⟩
  have float : IsNumber "1.5e+3" true :=
    ⟨[], ['1'], ['.', '5'], ['e', '+', '3'], rfl, .inl rfl, .inr ⟨digit rfl, by decide⟩,
      .inr ⟨['5'], rfl, digit rfl⟩,
      .inr ⟨'e', ['+'], ['3'], rfl, .inl rfl, .inr (.inl rfl), digit rfl⟩, by decide⟩
  have conforms : point.Conforms false 2 :=
    ⟨⟨⟨(by decide : IsName "at"), zero, float, trivial, trivial⟩, ⟨(by decide : IsName "null"), rfl,
      (by decide : IsName "true")⟩, trivial⟩, by decide⟩
  exact ⟨conforms, rfl, parseValue_print conforms rfl false "point.graphqls"⟩

end SchemaLang
