import SchemaLang.Command.Format
import SchemaLang.Proofs.Locations.Conforms
import SchemaLang.Proofs.Locations.Parse
import SchemaLang.Proofs.RoundTrip

/-!
# Formatting one text

The canonical text of a parsed document parses to the same document, up to locations, and is its own
canonical text. What formatting makes of a text does not hang on the path it is read from. So
formatting a text that was formatted leaves it alone.
-/

namespace SchemaLang

/-- Two documents that differ in locations only. -/
def Document.SameUpToLoc (d d' : Document) : Prop :=
  d.mapLoc (fun _ => none) = d'.mapLoc (fun _ => none)

namespace Document.SameUpToLoc

variable {d d' : Document}

theorem render (h : d.SameUpToLoc d') : d.render = d'.render := by
  rw [← d.render_mapLoc fun _ => none, ← d'.render_mapLoc fun _ => none, h]

theorem length_definitions (h : d.SameUpToLoc d') :
    d.definitions.length = d'.definitions.length := by
  have lengths := congrArg (fun d : Document => d.definitions.length) h
  simpa [Document.mapLoc] using lengths

end Document.SameUpToLoc

variable {body name : String} {o : ParseOptions} {d : Document}

theorem map_eq_ok {ε α β : Type} {f : α → β} {r : Except ε α} {b : β} (h : r.map f = .ok b) :
    ∃ a, r = .ok a ∧ f a = b := by
  cases r with
  | error e => exact absurd h (by simp [Except.map])
  | ok a => exact ⟨a, rfl, Except.ok.inj h⟩

/-- A text that parses does so under any name. -/
theorem parseDocument_renamed (h : parseDocument ⟨body, name⟩ o = .ok d) (other : String) :
    ∃ d', parseDocument ⟨body, other⟩ o = .ok d' ∧ d'.SameUpToLoc d := by
  have bare : parseDocument ⟨body, name⟩ ⟨true, false, o.maxDepth⟩ =
      (parseDocument ⟨body, name⟩ o).map (·.mapLoc fun _ => none) :=
      parseDocument_withoutLoc rfl rfl rfl
  have bare' : parseDocument ⟨body, name⟩ ⟨true, false, o.maxDepth⟩ =
      (parseDocument ⟨body, other⟩ o).map (·.mapLoc fun _ => none) :=
      parseDocument_withoutLoc rfl rfl rfl
  rw [h] at bare
  exact map_eq_ok (bare'.symm.trans bare)

/-- Documents that are parsed from one text differ in locations only. -/
theorem sameUpToLoc_of_parseDocument {other : String} {d' : Document}
    (h : parseDocument ⟨body, name⟩ o = .ok d) (h' : parseDocument ⟨body, other⟩ o = .ok d') :
    d.SameUpToLoc d' := by
  obtain ⟨e, he, hsame⟩ := parseDocument_renamed h' name
  rw [h] at he
  rw [Except.ok.inj he]
  exact hsame

/-- A source with the tokens of a document that conforms parses to the document, up to locations. -/
theorem parseDocument_of_tokenSequence {s : Source} (conforms : d.Conforms o.maxDepth)
    (tokens : s.tokenSequence = d.form.tokens ++ [.endOfInput]) :
    ∃ d', parseDocument s o = .ok d' ∧ d'.SameUpToLoc d := by
  have bare : parseDocument s ⟨true, false, o.maxDepth⟩ = .ok (d.mapLoc fun _ => none) :=
    parseDocument_of_isSpelledBy (Document.conforms_mapLoc conforms)
      (Document.isSpelledBy_of_tokenSequence tokens rfl)
  have located : parseDocument s ⟨true, false, o.maxDepth⟩ =
      (parseDocument s o).map (·.mapLoc fun _ => none) := parseDocument_withoutLoc rfl rfl rfl
  exact map_eq_ok (located.symm.trans bare)

/-- A text with the tokens of a document that conforms parses to the document, up to locations. -/
theorem parseDocument_of_lexes (conforms : d.Conforms o.maxDepth)
    (lexes : Lexes body.toList d.form.tokens) (name : String) :
    ∃ d', parseDocument ⟨body, name⟩ o = .ok d' ∧ d'.SameUpToLoc d :=
  parseDocument_of_tokenSequence conforms (Lexes.tokenSequence (s := ⟨body, name⟩) lexes)

/-- The canonical text of a parsed document parses to the document again, up to locations. -/
theorem parseDocument_canonical (h : parseDocument ⟨body, name⟩ o = .ok d) (other : String) :
    ∃ d', parseDocument ⟨d.render, other⟩ o = .ok d' ∧ d'.SameUpToLoc d := by
  have conforms : d.Conforms o.maxDepth := (isSpelledBy_of_parseDocument h).1
  exact parseDocument_of_lexes conforms (Document.lexes_render conforms) other

namespace Format

/-- Writing puts another text in place of one: the canonical text of the document that it holds,
unless it is canonical already or has comments to keep. -/
def Rewrites (mode : Mode) (body text : String) : Prop :=
  ∃ name d, parseDocument ⟨body, name⟩ {} = .ok d ∧ text = d.render ∧ text ≠ body ∧
    (mode = .write → (Source.mk body name).comments = .ok [])

theorem Rewrites.unique {mode : Mode} {text text' : String} (h : Rewrites mode body text)
    (h' : Rewrites mode body text') : text = text' := by
  obtain ⟨name, d, hd, rfl, -⟩ := h
  obtain ⟨name', d', hd', rfl, -⟩ := h'
  exact (sameUpToLoc_of_parseDocument hd hd').render

/-- A text that was put in place of another one is left alone. -/
theorem Rewrites.settles {mode : Mode} {text text' : String} (h : Rewrites mode body text) :
    ¬Rewrites mode text text' := by
  rintro ⟨name', d', hd', rfl, hne, -⟩
  obtain ⟨name, d, hd, rfl, -⟩ := h
  obtain ⟨e, he, hsame⟩ := parseDocument_canonical hd name'
  rw [hd'] at he
  rw [Except.ok.inj he] at hne
  exact hne hsame.render

private theorem update?_eq_updated {mode : Mode} {canonical text : String} (name : String) :
    update? mode body canonical = .updated text ↔
      text = canonical ∧ text ≠ body ∧
      (mode = .write → (Source.mk body name).comments = .ok []) := by
  have comments : (Source.mk body Source.defaultName).comments = (Source.mk body name).comments :=
    rfl
  rw [update?]
  by_cases hbody : canonical = body
  · rw [if_pos hbody]
    simp only [reduceCtorEq, false_iff]
    rintro ⟨rfl, hne, -⟩
    exact hne hbody
  · rw [if_neg hbody]
    by_cases hmode : mode = .write
    · rw [if_pos hmode]
      simp only [comments, hmode, true_implies]
      cases (Source.mk body name).comments with
      | error e => simp
      | ok cs =>
        cases cs with
        | nil =>
          simp only [Result.updated.injEq, and_true]
          constructor
          · rintro rfl
            exact ⟨rfl, hbody⟩
          · rintro ⟨rfl, -⟩
            rfl
        | cons c cs => simp
    · rw [if_neg hmode]
      simp only [Result.updated.injEq, hmode, false_implies, and_true]
      constructor
      · rintro rfl
        exact ⟨rfl, hbody⟩
      · rintro ⟨rfl, -⟩
        rfl

/-- Which files are written, and with what, hangs on what they hold and not on their paths. -/
theorem file_eq_updated {mode : Mode} (hmode : mode ≠ .print) {path text : String}
    {content : Option Content} : file mode (Loaded.ofContent path content) = .updated text ↔
      ∃ body, content = some (.text body) ∧ Rewrites mode body text := by
  cases content with
  | none => simp [file, Loaded.ofContent, Loaded.parse]
  | some content =>
    cases content with
    | binary bytes => simp [file, Loaded.ofContent, Loaded.parse]
    | text body =>
      simp only [file, Loaded.ofContent, Loaded.parse]
      cases hd : parseDocument ⟨body, path⟩ {} with
      | error e =>
        simp only [reduceCtorEq, false_iff]
        rintro ⟨_, hbody, name, d, hd', -⟩
        obtain rfl := Content.text.inj (Option.some.inj hbody)
        obtain ⟨e', he', -⟩ := parseDocument_renamed hd' path
        rw [hd] at he'
        exact absurd he' (by simp)
      | ok d =>
        simp only [hmode, if_false, Node.print_eq_render, Node.render]
        rw [update?_eq_updated path]
        constructor
        · rintro ⟨rfl, hne, hcomments⟩
          exact ⟨body, rfl, path, d, hd, rfl, hne, hcomments⟩
        · rintro ⟨_, hbody, name, d', hd', rfl, hne, hcomments⟩
          obtain rfl := Content.text.inj (Option.some.inj hbody)
          exact ⟨(sameUpToLoc_of_parseDocument hd' hd).render, hne, hcomments⟩

end Format

end SchemaLang
