import SchemaLang.Proofs.Documents
import SchemaLang.Proofs.Locations.Parse
import SchemaLang.Proofs.Slices.Anchored
import SchemaLang.Proofs.Traversal.Conforms

/-!
# What locations delimit

The location of a definition covers the definition from its first word to its last token, and that
of a value covers the value. On its own the text there is a document of that one definition, or is
that value, with every location counted from where the text starts. Only the description of the
definition stands in front of it and is lost.
-/

namespace SchemaLang

/-- The same place in a text that starts `n` bytes later. -/
def Loc.moveLeft (n : Nat) (source : Source) (l : Loc) : Loc :=
  ⟨l.start - n, l.stop - n, some source⟩

/-- The same place in a text that starts `n` bytes earlier. -/
def Loc.moveRight (n : Nat) (source : Source) (l : Loc) : Loc :=
  ⟨l.start + n, l.stop + n, some source⟩

/-- The definition without its own description; those inside it stay. -/
def Definition.undescribed : Definition → Definition
  | .scalar d => .scalar { d with description := none }
  | .object d => .object { d with description := none }
  | .interface d => .interface { d with description := none }
  | .union d => .union { d with description := none }
  | .enum d => .enum { d with description := none }
  | .inputObject d => .inputObject { d with description := none }
  | .typeExtension d => .typeExtension { d with description := none }
  | .directive d => .directive { d with description := none }
  | .mutation d => .mutation { d with description := none }
  | .query d => .query { d with description := none }
  | .filter d => .filter { d with description := none }
  | .order d => .order { d with description := none }

namespace Definition

variable {d : Definition} {depth : Nat}

private theorem form_undescribed (d : Definition) : d.undescribed.form = d.form.undescribed := by
  cases d <;> rfl

theorem Conforms.undescribed (h : d.Conforms depth) : d.undescribed.Conforms depth := by
  have hnone : ConformsDescription none := fun _ h => nomatch h
  cases d with
  | scalar d => exact { h with description := hnone }
  | object d => exact { h with description := hnone }
  | interface d => exact { h with description := hnone }
  | union d => exact { h with description := hnone }
  | enum d => exact { h with description := hnone }
  | inputObject d => exact { h with description := hnone }
  | typeExtension d => exact { h with description := hnone }
  | directive d => exact { h with description := hnone }
  | mutation d => exact { h with description := hnone }
  | query d => exact { h with description := hnone }
  | filter d => exact { h with description := hnone }
  | order d => exact { h with description := hnone }

private theorem loc_of_spans {locate : Nat → Nat → Option Loc} {c c' : Cursor}
    (h : d.form.Spans locate c c') : d.loc = locate c.current.span.start c'.lastStop := by
  cases d <;> exact h.2

theorem hasPart_form (d : Definition) : d.form.HasPart d.form := by
  cases d <;> exact .inl rfl

end Definition

private theorem Value.loc_of_spans {v : Value} {locate : Nat → Nat → Option Loc} {c c' : Cursor}
    (h : v.form.Spans locate c c') : v.loc = locate c.current.span.start c'.lastStop := by
  cases v <;> exact h.2

/-- No description belongs to the first token of a value. -/
theorem Value.undescribed_form (v : Value) : v.form.undescribed = v.form := by
  cases v <;> rfl

namespace Parser

/-- What is answered with other locations is answered with the right ones, if these
can be had back. -/
theorem run_of_relocate {α : Type} {p : Parser α} {g : (Loc → Option Loc) → α → α}
    (hp : ∀ m : Simulation, Simulates m (g m.relocate) p p) {s : Source} {o : ParseOptions}
    {c c' : Cursor} {a : α} (hc : c.lexemes = s.lexemes) (hstop : c.lastStop = 0)
    {away back : Loc → Option Loc}
    (hback : ∀ start stop, ((o.locate s start stop).bind away).bind back = o.locate s start stop)
    (h : p ((s.setting o).relocate away) c = .ok (a, c')) :
    p.run s o = .ok (g back a) ∧ g away (g back a) = a := by
  have hrelocate : ((s.setting o).relocate away).relocate back = s.setting o := by
    simp only [Setting.relocate, Source.setting, hback]
  have hthere := hp (.relocation ((s.setting o).relocate away) back) (rfl : c = c)
  have hagain := hp (.relocation (s.setting o) away) (rfl : c = c)
  simp only [Simulation.relocation, hrelocate, h] at hthere hagain
  cases hrun : p (s.setting o) c with
  | error e =>
    rw [hrun] at hthere
    exact hthere.elim
  | ok r =>
    rw [hrun] at hthere hagain
    obtain ⟨hr, -⟩ := hthere
    refine ⟨run_eq_ok.2 ⟨c, r.2, hc, hstop, hrun.trans ?_⟩, ?_⟩
    · rw [← hr]
    · rw [← hr]
      exact hagain.1.symm

end Parser

open SchemaLang.Parser

variable {s : Source} {levels : Nat}

/-- Where a node stands in a piece of a text that starts at byte `n`. -/
def leftOf (n : Nat) (piece : Source) : Loc → Option Loc := fun l => some (l.moveLeft n piece)

/-- Where a node in a piece of `s` that starts at byte `n` stands in `s`. -/
def rightOf (n : Nat) (s : Source) : Loc → Option Loc := fun l => some (l.moveRight n s)

private theorem locate_rightOf_leftOf (n : Nat) (s piece : Source) (start stop : Nat) :
    ((ParseOptions.locate ⟨false, false, levels⟩ piece start stop).bind (rightOf n s)).bind
      (leftOf n piece) = ParseOptions.locate ⟨false, false, levels⟩ piece start stop := by
  simp [ParseOptions.locate, rightOf, leftOf, Loc.moveRight, Loc.moveLeft]

/-- A node of a parsed document is, where it was parsed from, what a parse of that text alone reads,
up to where locations count from. -/
theorem exists_slice {d : Document} {F : Form} {loc : Option Loc}
    (h : parseDocument s ⟨false, false, levels⟩ = .ok d) (hF : d.form.HasPart F)
    (hloc : ∀ c c' : Cursor, F.Spans (ParseOptions.locate ⟨false, false, levels⟩ s) c c' →
      loc = some ⟨c.current.span.start, c'.lastStop, some s⟩) :
    ∃ l text, loc = some l ∧ l.text? = some text ∧
      ∀ piece : Source, piece.body = text → ∃ c m : Cursor,
        c.lexemes = piece.lexemes ∧ c.lastStop = 0 ∧ c.current.span.start = 0 ∧
        piece.tokens.fault = none ∧
        F.undescribed.Spans
          ((piece.setting ⟨false, false, levels⟩).relocate (rightOf l.start s)).locate c m ∧
        m.lexemes = [⟨.endOfInput, ⟨piece.byteLength, piece.byteLength⟩, none⟩] := by
  obtain ⟨hd, -, c, m, hc, -, fd, -⟩ := isSpelledBy_of_parseDocument h
  obtain ⟨hstarts, hanchored⟩ := (Document.isAnchored_form hd).of_hasPart hF
  obtain ⟨k, k', hk, fk⟩ := hF.exists_spans fd
  rw [hc] at hk
  obtain ⟨text, htext, hslice⟩ := Form.spans_slice hstarts hanchored hk fk
  refine ⟨_, text, hloc k k' fk, htext, fun piece hpiece => ?_⟩
  obtain ⟨hfault, e, e', he, hstop, hstart, fe, hend⟩ := hslice piece
    ((piece.setting ⟨false, false, levels⟩).relocate (rightOf k.current.span.start s)).locate hpiece
    fun start stop hstart hstop => by
      simp [ParseOptions.locate, Setting.relocate, Source.setting, rightOf, Loc.moveRight,
        Nat.sub_add_cancel, hstart, hstop]
  exact ⟨e, e', he, hstop, hstart, hfault, fe, hend⟩

/-- What was parsed as a definition or a value is the same definition or value on its own, where its
location says. -/
structure Document.IsDelimited (d : Document) (s : Source) (levels : Nat) : Prop where
  /-- A parse of the text of a definition reads that definition alone, without the description
  in front of it. -/
  definitions : ∀ x ∈ d.definitions, ∃ l text, x.loc = some l ∧ l.text? = some text ∧
    ∀ piece : Source, piece.body = text →
      parseDocument piece ⟨false, false, levels⟩ =
        .ok ⟨[x.undescribed.mapLoc (leftOf l.start piece)],
          some ⟨0, piece.byteLength, some piece⟩⟩ ∧
        (x.undescribed.mapLoc (leftOf l.start piece)).mapLoc (rightOf l.start s) = x.undescribed
  /-- A parse of the text of a value, anywhere in the document, reads that value. -/
  values : ∀ v, (Node.document d).Within (.value v) → ∃ l text, v.loc = some l ∧
    l.text? = some text ∧ ∀ piece : Source, piece.body = text →
      parseValue piece ⟨false, false, levels⟩ = .ok (v.mapLoc (leftOf l.start piece)) ∧
        (v.mapLoc (leftOf l.start piece)).mapLoc (rightOf l.start s) = v

/-- The text of a definition is a document of that definition alone. -/
theorem parseDocument_text {d : Document} (h : parseDocument s ⟨false, false, levels⟩ = .ok d)
    {x : Definition} (hx : x ∈ d.definitions) :
    ∃ l text, x.loc = some l ∧ l.text? = some text ∧ ∀ piece : Source, piece.body = text →
      parseDocument piece ⟨false, false, levels⟩ =
        .ok ⟨[x.undescribed.mapLoc (leftOf l.start piece)],
          some ⟨0, piece.byteLength, some piece⟩⟩ ∧
        (x.undescribed.mapLoc (leftOf l.start piece)).mapLoc (rightOf l.start s) =
          x.undescribed := by
  have hpart : d.form.HasPart x.form := Form.hasPart_all (List.mem_map_of_mem hx) x.hasPart_form
  obtain ⟨l, text, hloc, htext, hslice⟩ := exists_slice h hpart fun _ _ => Definition.loc_of_spans
  refine ⟨l, text, hloc, htext, fun piece hpiece => ?_⟩
  obtain ⟨c, m, hc, hstop, hstart, hfault, fx, hend⟩ := hslice piece hpiece
  obtain ⟨hcurrent, hrest⟩ := List.cons.inj hend
  -- The document of the definition alone, with the locations that it has in the source.
  let alone : Document := ⟨[x.undescribed], some ⟨l.start, piece.byteLength + l.start, some s⟩⟩
  have hconforms : alone.Conforms levels :=
    ⟨List.cons_ne_nil _ _,
      by simpa [alone] using ((isSpelledBy_of_parseDocument h).1.definitions x hx).undescribed⟩
  have hform : alone.form.Spans
      ((piece.setting ⟨false, false, levels⟩).relocate (rightOf l.start s)).locate c m := by
    rw [← Definition.form_undescribed] at fx
    exact ⟨m, fx, rfl⟩
  have halone := document_of_spans hconforms hfault hform (by rw [hcurrent]) hrest (by
    rw [hstart, hcurrent]
    simp [alone, Setting.relocate, Source.setting, ParseOptions.locate, rightOf, Loc.moveRight])
  obtain ⟨hparse, hback⟩ := run_of_relocate (fun _ => simulates_document) hc hstop
    (locate_rightOf_leftOf l.start s piece) halone
  refine ⟨hparse.trans ?_, ?_⟩
  · simp [alone, Document.mapLoc, leftOf, Loc.moveLeft]
  · have hdefinitions := congrArg Document.definitions hback
    exact (List.cons.inj hdefinitions).1

/-- The text of a value is that value. -/
theorem parseValue_text {d : Document} (h : parseDocument s ⟨false, false, levels⟩ = .ok d)
    {v : Value} (hv : (Node.document d).Within (.value v)) :
    ∃ l text, v.loc = some l ∧ l.text? = some text ∧ ∀ piece : Source, piece.body = text →
      parseValue piece ⟨false, false, levels⟩ = .ok (v.mapLoc (leftOf l.start piece)) ∧
        (v.mapLoc (leftOf l.start piece)).mapLoc (rightOf l.start s) = v := by
  obtain ⟨_, rfl, hpart⟩ :=
    hv.hasNode (rfl : (Node.document d).IsWrittenAs d.form) (fun heq => nomatch heq)
  obtain ⟨l, text, hloc, htext, hslice⟩ := exists_slice h hpart fun _ _ => Value.loc_of_spans
  refine ⟨l, text, hloc, htext, fun piece hpiece => ?_⟩
  obtain ⟨c, m, hc, hstop, -, hfault, fv, hend⟩ := hslice piece hpiece
  obtain ⟨hcurrent, hrest⟩ := List.cons.inj hend
  rw [Value.undescribed_form] at fv
  have hd : (Node.document d).Conforms levels := (isSpelledBy_of_parseDocument h).1
  have hconforms : v.Conforms false levels := hd.within hv
  have halone := wholeValue_of_spans hconforms hfault fv (by rw [hcurrent]) hrest
  exact run_of_relocate (fun _ => simulates_wholeValue) hc hstop
    (locate_rightOf_leftOf l.start s piece) halone

/-- The locations of a parse delimit what they are the locations of, for every limit
to the nesting. -/
theorem isDelimited_of_parseDocument {d : Document}
    (h : parseDocument s ⟨false, false, levels⟩ = .ok d) : d.IsDelimited s levels :=
  ⟨fun _ hx => parseDocument_text h hx, fun _ hv => parseValue_text h hv⟩

/-- A description in front, a list in a directive and another definition behind. -/
theorem isDelimited_of_parseDocument_scalars :
    ∃ d, parseDocument ⟨"## A day.\nscalar Date @days(are: [1, $x]) scalar Time", "dates.graphqls"⟩
        ⟨false, false, 1⟩ = .ok d ∧
      d.IsDelimited
        ⟨"## A day.\nscalar Date @days(are: [1, $x]) scalar Time", "dates.graphqls"⟩ 1 := by
  have parsed :
      (parseDocument ⟨"## A day.\nscalar Date @days(are: [1, $x]) scalar Time", "dates.graphqls"⟩
        ⟨false, false, 1⟩).isOk = true := by
    decide +kernel
  cases hd : parseDocument
      ⟨"## A day.\nscalar Date @days(are: [1, $x]) scalar Time", "dates.graphqls"⟩
      ⟨false, false, 1⟩ with
  | error e =>
    rw [hd] at parsed
    exact nomatch parsed
  | ok d => exact ⟨d, rfl, isDelimited_of_parseDocument hd⟩

end SchemaLang
