import Mathlib.Data.List.Flatten
import Mathlib.Data.List.Nodup
import SchemaLang.Proofs.Formatting.Text
import SchemaLang.Proofs.Preservation.Headings

/-!
# Descriptions that formatting keeps

A line that starts with two sharps is a line of a description, but the tree of a document has room
for it only in front of the parts that can be described. What stands in front of any other token,
or at the very end, is in no tree. The canonical text has the lines that the tree has: so
formatting keeps every line, in order, if each stands in front of a part that can be described, and
loses a line otherwise.
-/

namespace SchemaLang

/-- The lines of descriptions in a source, wherever they stand. -/
def Source.descriptionLines (s : Source) : List String :=
  s.tokenSequence.filterMap Token.descriptionText?

/-- Every token of a source without a fault is one of its lexemes, or a line in front of one. -/
theorem Source.flatMap_tokens_lexemes {s : Source} (h : s.tokens.fault = none) :
    s.lexemes.flatMap Lexeme.tokens = s.tokenSequence := by
  obtain ⟨init, -, htokens⟩ := endsOnce_scan 0 s.chars
  have valid : ∀ r ∈ s.tokens.readings, r.token.IsValid := isValid_of_mem_scan
  change s.tokenSequence = init ++ ite (s.tokens.fault.isSome = true) _ _ at htokens
  rw [h, Option.isSome_none, if_neg Bool.false_ne_true] at htokens
  obtain ⟨xs, ys, hreadings, -, hys⟩ := List.map_eq_append_iff.1 htokens
  obtain ⟨r, rfl, hr⟩ := List.map_eq_singleton_iff.1 hys
  rw [lexemes, tokenSequence, hreadings]
  refine Lexeme.flatMap_tokens_gather [] (by simp) (fun x hx => valid x ?_) (by rw [hr]; rfl)
  rw [hreadings]
  exact List.mem_append_left _ hx

private theorem Source.descriptionLines_eq {s : Source} (h : s.tokens.fault = none) :
    s.descriptionLines = s.lexemes.flatMap Lexeme.descriptionLines := by
  rw [descriptionLines, ← flatMap_tokens_lexemes h, List.filterMap_flatMap]
  rfl

/-- A lexeme has lines in front of it if it has a description. -/
theorem Lexeme.descriptionLines_ne_nil_iff {l : Lexeme} (h : l.token.isDescription = false) :
    l.descriptionLines ≠ [] ↔ l.description ≠ none := by
  obtain ⟨token, span, description⟩ := l
  have plain : token.descriptionText? = none := Token.descriptionText?_eq_none h
  cases description with
  | none => simp [descriptionLines, tokens, descriptionTokens, plain]
  | some text =>
    obtain ⟨line, lines, hlines⟩ :=
      List.exists_cons_of_ne_nil (List.splitOn_ne_nil '\n' text.toList)
    simp [descriptionLines, tokens, descriptionTokens, hlines, Token.descriptionText?]

/-- What is said of some elements is what is said of all, if nothing is said of the others. -/
theorem flatMap_eq_iff_of_sublist {α β : Type} {f : α → List β} {xs ys : List α} (h : xs.Sublist ys)
    (hys : ys.Nodup) : xs.flatMap f = ys.flatMap f ↔ ∀ y ∈ ys, f y ≠ [] → y ∈ xs := by
  induction h with
  | slnil => simp
  | @cons xs ys y h ih =>
    -- The element is left out, so that what is said of it is missing: the lists are the same only
    -- if that is nothing.
    obtain ⟨hy, hys⟩ := List.nodup_cons.1 hys
    have shorter := (h.flatMap f).length_le
    rw [List.flatMap_cons, List.forall_mem_cons]
    constructor
    · intro heq
      have lengths := congrArg List.length heq
      rw [List.length_append] at lengths
      have nothing : f y = [] := List.length_eq_zero_iff.1 (by omega)
      rw [nothing, List.nil_append] at heq
      exact ⟨absurd nothing, (ih hys).1 heq⟩
    · rintro ⟨first, rest⟩
      have nothing : f y = [] := by_contra fun hne => hy (h.subset (first hne))
      rw [nothing, List.nil_append]
      exact (ih hys).2 rest
  | @cons_cons xs ys y h ih =>
    obtain ⟨hy, hys⟩ := List.nodup_cons.1 hys
    rw [List.flatMap_cons, List.flatMap_cons, List.append_cancel_left_eq, ih hys,
      List.forall_mem_cons]
    constructor
    · intro rest
      exact ⟨fun _ => List.mem_cons_self, fun z hz hne => List.mem_cons_of_mem y (rest z hz hne)⟩
    · rintro ⟨-, rest⟩ z hz hne
      refine (List.mem_cons.1 (rest z hz hne)).resolve_left ?_
      rintro rfl
      exact hy hz

/-- The parts of a document that can be described stand where the lexemes start that their
descriptions belong to. -/
theorem Document.hasHeadingAt_iff {d : Document} {s : Source} {o : ParseOptions}
    (located : o.noLocation = false) {heads : List Lexeme}
    (h : List.Forall₂ (fun heading l => ∀ loc ∈ heading,
      ∃ stop, loc = o.locate s l.span.start stop) (d.form.headings none) heads) (position : Nat) :
    d.HasHeadingAt position ↔ position ∈ heads.map fun l => l.span.start := by
  have starts : d.headings.map (Option.map Loc.start) = heads.map fun l => some l.span.start := by
    rw [Document.headings_form, List.forall₂_map_left_iff] at h
    refine List.forall₂_eq_eq_eq ▸ List.forall₂_map_left_iff.2
      (List.forall₂_map_right_iff.2 (h.imp ?_))
    intro loc l hl
    obtain ⟨stop, rfl⟩ := hl loc rfl
    simp [ParseOptions.locate, located]
  have heading : d.HasHeadingAt position ↔ some position ∈
      d.headings.map (Option.map Loc.start) := by
    simp [HasHeadingAt]
  rw [heading, starts]
  simp

/-- The lines in the form of a parsed document are lines of its source, and all of them if each
stands in front of a part that can be described. -/
theorem descriptionLines_of_parseDocument {s : Source} {o : ParseOptions} {d : Document}
    (h : parseDocument s o = .ok d) (located : o.noLocation = false) :
    (d.form.tokens.filterMap Token.descriptionText?).Sublist s.descriptionLines ∧
      (d.form.tokens.filterMap Token.descriptionText? = s.descriptionLines ↔
        ∀ l ∈ s.lexemes, l.description ≠ none → d.HasHeadingAt l.span.start) := by
  obtain ⟨-, hfault, -⟩ := isSpelledBy_of_parseDocument h
  obtain ⟨-, ls, last, hls, -, covers, -⟩ := parseDocument_eq_ok_iff_covers.1 h
  obtain ⟨heads, hsub, hlines, hheads⟩ := covers.exists_heads none nofun
  have sublist : heads.Sublist s.lexemes := by
    rw [hls]
    exact hsub.trans (List.sublist_append_left ls [last])
  -- No two lexemes start at one place, so that a lexeme is known by where it starts.
  have distinct := s.nodup_start_lexemes
  have isHead : ∀ l ∈ s.lexemes, l ∈ heads ↔ d.HasHeadingAt l.span.start := by
    intro l hl
    rw [Document.hasHeadingAt_iff located hheads]
    constructor
    · intro hhead
      exact List.mem_map.2 ⟨l, hhead, rfl⟩
    · intro hstart
      obtain ⟨k, hk, hsame⟩ := List.mem_map.1 hstart
      have same : k = l := List.inj_on_of_nodup_map distinct (sublist.subset hk) hl hsame
      exact same ▸ hk
  rw [hlines, Source.descriptionLines_eq hfault]
  refine ⟨sublist.flatMap _, ?_⟩
  rw [flatMap_eq_iff_of_sublist sublist (List.Nodup.of_map _ distinct)]
  refine forall₂_congr fun l hl => ?_
  rw [isHead l hl, Lexeme.descriptionLines_ne_nil_iff (Source.isDescription_of_mem_lexemes hl)]

/-- The canonical text of a document has the lines of its form. -/
theorem Document.descriptionLines_render {d : Document} {depth : Nat} (h : d.Conforms depth)
    (name : String) : (Source.mk d.render name).descriptionLines =
      d.form.tokens.filterMap Token.descriptionText? := by
  obtain ⟨-, htokens⟩ := Document.lexes_render h 0
  change (Source.mk d.render name).tokenSequence = _ at htokens
  rw [Source.descriptionLines, htokens, List.filterMap_append]
  exact List.append_nil _

namespace Format

/-- Formatting a file in place loses no line of a description, and changes none, exactly if every
line stands in front of a part that can be described. The lines that are kept are kept in order. -/
theorem descriptionLines_eq_iff {path body text : String} {d : Document}
    (hd : parseDocument ⟨body, path⟩ {} = .ok d)
    (h : file .write ⟨path, .ok body⟩ = .updated text) :
    (Source.mk text path).descriptionLines.Sublist (Source.mk body path).descriptionLines ∧
      ((Source.mk text path).descriptionLines = (Source.mk body path).descriptionLines ↔
        ∀ l ∈ (Source.mk body path).lexemes, l.description ≠ none →
        d.HasHeadingAt l.span.start) := by
  have written : Mode.write ≠ .print := nofun
  have loaded : (⟨path, .ok body⟩ : Loaded) = Loaded.ofContent path (some (.text body)) := rfl
  rw [loaded, file_eq_updated written] at h
  obtain ⟨_, hbody, name, d', hd', rfl, -⟩ := h
  obtain rfl := Content.text.inj (Option.some.inj hbody)
  rw [(sameUpToLoc_of_parseDocument hd' hd).render,
    Document.descriptionLines_render (conforms_of_parseDocument hd)]
  exact descriptionLines_of_parseDocument hd rfl

/-- The line in front of a field of an extension is kept. -/
theorem descriptionLines_eq_iff_extension :
    let s : Source := ⟨"extend type A\x7b##All.\nb:B\x7d", "a.graphql"⟩
    let t : Source := ⟨"extend type A \x7b\n  ## All.\n  b: B\n\x7d\n", "a.graphql"⟩
    ∃ d, parseDocument s {} = .ok d ∧ file .write ⟨s.name, .ok s.body⟩ = .updated t.body ∧
      t.descriptionLines.Sublist s.descriptionLines ∧ (t.descriptionLines = s.descriptionLines ↔
        ∀ l ∈ s.lexemes, l.description ≠ none → d.HasHeadingAt l.span.start) := by
  intro s t
  have parsed : (parseDocument s {}).isOk = true := by
    decide +kernel
  have updated : file .write ⟨s.name, .ok s.body⟩ = .updated t.body := by
    decide +kernel
  cases hd : parseDocument s {} with
  | error e =>
    rw [hd] at parsed
    exact nomatch parsed
  | ok d => exact ⟨d, rfl, updated, descriptionLines_eq_iff hd updated⟩

/-- A line behind the last definition is lost. -/
theorem not_descriptionLines_eq :
    let body := "scalar   Date\n## end\n"
    let text := "scalar Date\n"
    (parseDocument ⟨body, "a.graphql"⟩ {}).isOk = true ∧
      file .write ⟨"a.graphql", .ok body⟩ = .updated text ∧
      (Source.mk text "a.graphql").descriptionLines ≠
      (Source.mk body "a.graphql").descriptionLines := by
  intro body text
  refine ⟨by decide +kernel, ?_, by decide +kernel⟩
  decide +kernel

end Format

end SchemaLang
