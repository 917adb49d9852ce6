import SchemaLang.Proofs.Completeness.Definition
import SchemaLang.Proofs.Covering
import SchemaLang.Proofs.Lexemes
import SchemaLang.Proofs.Slices.Anchored

/-!
# Parsing whole documents

A source holds a document exactly if its lexemes are those of the form of the document, up to the
end of the input, and the document conforms to the contract. In particular a parse answers nothing
that does not conform.
-/

namespace SchemaLang

open SchemaLang.Parser

variable {s : Source} {o : ParseOptions} {d : Document}

private theorem parseDocument_eq_ok : parseDocument s o = .ok d ↔
    ∃ c c', c.lexemes = s.lexemes ∧ c.lastStop = 0 ∧ document (s.setting o) c = .ok (d, c') :=
  run_eq_ok

/-- The lexemes of the source are those of the document, whose parts have the locations
that are wanted. -/
def Document.IsSpelledBy (d : Document) (s : Source) (o : ParseOptions) : Prop :=
  ∃ c m : Cursor, c.lexemes = s.lexemes ∧ c.lastStop = 0 ∧ d.form.Spans (o.locate s) c m ∧
    m.current.token = .endOfInput ∧ d.loc = o.locate s c.current.span.start m.current.span.stop

/-- Where the end of the input is looked at nothing is left, and no fault stands behind it. -/
theorem ends_of_spans {c m : Cursor} {F : Form} {locate : Nat → Nat → Option Loc}
    (hc : c.lexemes = s.lexemes) (h : F.Spans locate c m) (hend : m.current.token = .endOfInput) :
    s.tokens.fault = none ∧ m.rest = [] := by
  have hsuffix : .endOfInput :: m.rest.map Lexeme.token <:+ s.lexemes.map Lexeme.token := by
    have hm := (Form.suffix_of_spans h).map Lexeme.token
    rw [hc, Cursor.lexemes, List.map_cons, hend] at hm
    exact hm
  obtain ⟨hfault, hrest⟩ := s.endsOnce_lexemes.of_suffix hsuffix
  exact ⟨hfault, List.map_eq_nil_iff.1 hrest⟩

/-- The end of the input can be taken where it is looked at. -/
theorem advance_of_end {t : Setting} {m : Cursor} (hfault : t.fault = none) (hrest : m.rest = []) :
    advance t m = .ok ((), { m with lastStop := m.current.span.stop }) := by
  obtain ⟨current, rest, lastStop⟩ := m
  obtain rfl : rest = [] := hrest
  simp only [advance, hfault]

/-- A document is read where its form stands and nothing behind it. -/
theorem document_of_spans {t : Setting} {c m : Cursor} (hd : d.Conforms t.maxDepth)
    (hfault : t.fault = none) (fds : d.form.Spans t.locate c m)
    (hend : m.current.token = .endOfInput) (hrest : m.rest = [])
    (hloc : d.loc = t.locate c.current.span.start m.current.span.stop) :
    document t c = .ok (d, { m with lastStop := m.current.span.stop }) := by
  obtain ⟨ds, loc⟩ := d
  have hstarts : ∀ F ∈ ds.map Definition.form, F.Starts fun _ => True :=
    List.forall_mem_map.2 fun d _ => (starts_definition d).imp fun _ _ => trivial
  have hle := Form.length_of_spans_all hstarts fds
  rw [List.length_map] at hle
  have hn : ds.length ≤ c.rest.length + 1 := by omega
  have hds := accepts_definitions hd.definitions_ne_nil hd.definitions hn fds hend
    (advance_of_end hfault hrest)
  change (definitions t.maxDepth (c.rest.length + 1) >>= _) t c = _
  rw [bind_of_ok hds, located_bind]
  subst hloc
  rfl

theorem isSpelledBy_of_parseDocument (h : parseDocument s o = .ok d) :
    d.Conforms o.maxDepth ∧ s.tokens.fault = none ∧ d.IsSpelledBy s o := by
  obtain ⟨c, c', hc, hstop, h⟩ := parseDocument_eq_ok.1 h
  have hsound := Source.isSound (o := o) hc
  simp only [document, setting_bind, start_bind, remaining_bind, bind_eq_ok, located_bind,
    pure_eq_ok] at h
  obtain ⟨ds, _, hds, rfl, rfl⟩ := h
  obtain ⟨m, fds, hend, hadv, hne, pds⟩ := spans_of_definitions hsound hds
  obtain ⟨hfault, hrest⟩ := ends_of_spans hc fds hend
  rw [advance_of_end hfault hrest] at hadv
  obtain ⟨-, rfl⟩ := Prod.mk.inj (Except.ok.inj hadv)
  exact ⟨⟨hne, pds⟩, hfault, c, m, hc, hstop, fds, hend, rfl⟩

theorem parseDocument_of_isSpelledBy (hd : d.Conforms o.maxDepth) (h : d.IsSpelledBy s o) :
    parseDocument s o = .ok d := by
  obtain ⟨c, m, hc, hstop, fds, hend, hloc⟩ := h
  obtain ⟨hfault, hrest⟩ := ends_of_spans hc fds hend
  exact parseDocument_eq_ok.2 ⟨c, _, hc, hstop, document_of_spans hd hfault fds hend hrest hloc⟩

/-- A source holds a document exactly if its lexemes are those of the document and the
document conforms. -/
theorem parseDocument_eq_ok_iff :
    parseDocument s o = .ok d ↔ d.Conforms o.maxDepth ∧ d.IsSpelledBy s o := by
  constructor
  · intro h
    obtain ⟨hd, -, hspelled⟩ := isSpelledBy_of_parseDocument h
    exact ⟨hd, hspelled⟩
  · rintro ⟨hd, hspelled⟩
    exact parseDocument_of_isSpelledBy hd hspelled

/-- A source holds a document exactly if its lexemes are those of the document and then the end of
the input, and the document conforms. -/
theorem parseDocument_eq_ok_iff_covers : parseDocument s o = .ok d ↔ d.Conforms o.maxDepth ∧
    ∃ ls l, s.lexemes = ls ++ [l] ∧ l.token = .endOfInput ∧ d.form.Covers (o.locate s) ls ∧
      ∀ first ∈ s.lexemes.head?, d.loc = o.locate s first.span.start l.span.stop := by
  rw [parseDocument_eq_ok_iff]
  refine and_congr_right fun hd => ?_
  constructor
  · rintro ⟨c, m, hc, -, spans, hend, hloc⟩
    obtain ⟨ls, hls, -, covers⟩ := Form.covers_of_spans spans
    have last : m.lexemes = [m.current] :=
      congrArg (List.cons m.current) (ends_of_spans hc spans hend).2
    refine ⟨ls, m.current, by rw [← hc, hls, last], hend, covers, fun first hfirst => ?_⟩
    rw [← hc] at hfirst
    rw [← Option.some.inj hfirst]
    exact hloc
  · rintro ⟨ls, l, hls, hend, covers, hloc⟩
    obtain ⟨current, rest, hlexemes⟩ :=
      List.exists_cons_of_ne_nil
        (hls ▸ List.append_ne_nil_of_right_ne_nil ls (List.cons_ne_nil l []) : s.lexemes ≠ [])
    obtain ⟨m, spans, hm⟩ := (Document.isAnchored_form hd).spans_of_covers (c := ⟨current, rest, 0⟩)
      (hlexemes.symm.trans hls) (List.cons_ne_nil l []) covers
    obtain ⟨rfl, -⟩ := List.cons.inj hm
    rw [hlexemes] at hloc
    exact ⟨⟨current, rest, 0⟩, m, hlexemes.symm, rfl, spans, hend, hloc current rfl⟩

/-- A value is read where its form stands and nothing behind it. -/
theorem wholeValue_of_spans {t : Setting} {c m : Cursor} {v : Value}
    (hv : v.Conforms false t.maxDepth) (hfault : t.fault = none) (fv : v.form.Spans t.locate c m)
    (hend : m.current.token = .endOfInput) (hrest : m.rest = []) :
    wholeValue t c = .ok (v, { m with lastStop := m.current.span.stop }) := by
  have hadvance : endOfInput t m = .ok ((), { m with lastStop := m.current.span.stop }) := by
    rw [endOfInput, token_bind, if_pos hend]
    exact advance_of_end hfault hrest
  rw [wholeValue, setting_bind, bind_of_ok (accepts_value false t.maxDepth hv fv trivial),
    bind_of_ok hadvance]
  rfl

/-- The lexemes of the source are those of the value, whose parts have the locations
that are wanted. -/
def Value.IsSpelledBy (v : Value) (s : Source) (o : ParseOptions) : Prop :=
  ∃ c m : Cursor, c.lexemes = s.lexemes ∧ c.lastStop = 0 ∧ v.form.Spans (o.locate s) c m ∧
    m.current.token = .endOfInput

/-- A source holds a value exactly if its lexemes are those of the value and the value conforms. -/
theorem parseValue_eq_ok_iff {v : Value} :
    parseValue s o = .ok v ↔ v.Conforms false o.maxDepth ∧ v.IsSpelledBy s o := by
  constructor
  · intro h
    obtain ⟨c, c', hc, hstop, h⟩ := run_eq_ok.1 h
    have hsound := Source.isSound (o := o) hc
    simp only [wholeValue, setting_bind, bind_eq_ok, pure_eq_ok] at h
    obtain ⟨_, m, hv, _, _, hend, rfl, rfl⟩ := h
    obtain ⟨fv, pv⟩ := yields_value false o.maxDepth hsound hv
    refine ⟨pv, c, m, hc, hstop, fv, ?_⟩
    by_contra hne
    simp [endOfInput, hne] at hend
  · rintro ⟨pv, c, m, hc, hstop, fv, hend⟩
    obtain ⟨hfault, hrest⟩ := ends_of_spans hc fv hend
    exact run_eq_ok.2 ⟨c, _, hc, hstop, wholeValue_of_spans pv hfault fv hend hrest⟩

/-- Whatever is parsed conforms to the contract of document trees, for every limit to the
nesting. -/
theorem conforms_of_parseDocument (h : parseDocument s o = .ok d) : d.Conforms o.maxDepth :=
  (isSpelledBy_of_parseDocument h).1

/-- A scalar with a description is parsed, within any limit, and conforms. -/
theorem conforms_of_parseDocument_scalar :
    let day : Document := ⟨[.scalar ⟨some "A day.", ⟨"Date", none⟩, [], none⟩], none⟩
    parseDocument ⟨"##  A day. \nscalar Date", "dates.graphqls"⟩ ⟨true, false, 0⟩ = .ok day ∧
        day.Conforms 0 := by
  intro day
  have parsed : parseDocument ⟨"##  A day. \nscalar Date", "dates.graphqls"⟩ ⟨true, false, 0⟩ =
      .ok day := by
    decide +kernel
  exact ⟨parsed, conforms_of_parseDocument parsed⟩

end SchemaLang
