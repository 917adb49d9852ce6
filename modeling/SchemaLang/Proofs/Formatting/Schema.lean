import SchemaLang.Proofs.Formatting.Run
import SchemaLang.Proofs.Lexing.Comments
import SchemaLang.Proofs.Printing.Ends

/-!
# Printing the files of a tree as one schema

A run that prints puts the canonical texts of all files that parse one behind the other, each under
a comment with its path if there is more than one file. What it prints is one schema: its
definitions are those of the files, and it has no comments but these.
-/

namespace SchemaLang

/-- The document of the file at a path, if it holds a text that parses. -/
def FileTree.document? (t : FileTree Content) (path : String) : Option Document :=
  match t.read? path with
  | some (.text body) => (parseDocument ⟨body, path⟩ {}).toOption
  | _ => none

private theorem FileTree.conforms_of_document? {t : FileTree Content} {path : String} {d : Document}
    (h : t.document? path = some d) : d.Conforms ({} : ParseOptions).maxDepth := by
  rw [document?] at h
  split at h
  · rename_i body _
    cases hd : parseDocument ⟨body, path⟩ {} with
    | error e =>
      rw [hd] at h
      exact nomatch h
    | ok d' =>
      rw [hd] at h
      rw [← Option.some.inj h]
      exact (isSpelledBy_of_parseDocument hd).1
  · exact nomatch h

theorem Document.tokens_form (d : Document) :
    d.form.tokens = d.definitions.flatMap fun x => x.form.tokens :=
  (Form.tokens_map Definition.form d.definitions).trans List.flatMap_def.symm

/-- The definitions of documents one behind the other make a document, with the tokens of these. -/
theorem Document.tokens_flatMap (fs : List (String × Document)) :
    (Document.mk (fs.flatMap fun f => f.2.definitions) none).form.tokens = fs.flatMap fun f =>
    f.2.form.tokens := by
  simp only [Document.tokens_form, List.flatMap_assoc]

private theorem Document.conforms_flatMap {fs : List (String × Document)}
    {depth : Nat} (hne : fs ≠ []) (h : ∀ f ∈ fs, f.2.Conforms depth) :
    (Document.mk (fs.flatMap fun f => f.2.definitions) none).Conforms depth := by
  refine ⟨fun hnil => ?_, List.forall_mem_flatMap.2 fun f hf => (h f hf).definitions⟩
  obtain ⟨f, hf⟩ := List.exists_mem_of_ne_nil fs hne
  exact (h f hf).definitions_ne_nil (List.flatMap_eq_nil_iff.1 hnil f hf)

namespace Format

variable {t : FileTree Content} {found : List String}

/-- The documents of the files at some paths, each with its path. -/
def documentsAt (t : FileTree Content) (found : List String) : List (String × Document) :=
  found.filterMap fun path => (t.document? path).map fun d => (path, d)

private theorem of_mem_documentsAt {f : String × Document} (h : f ∈ documentsAt t found) :
    f.1 ∈ found ∧ t.document? f.1 = some f.2 := by
  obtain ⟨path, hpath, hmap⟩ := List.mem_filterMap.1 h
  obtain ⟨d, hd, rfl⟩ := Option.map_eq_some_iff.1 hmap
  exact ⟨hpath, hd⟩

/-- What stands above each document of a schema from `count` files. -/
def heading (count : Nat) (path : String) : String := if count > 1 then "# " ++ path ++ "\n" else ""

/-- The comments of what stands there. -/
def headingNotes (count : Nat) (path : String) : List (List Char) :=
  if count > 1 then [("# " ++ path).toList] else []

/-- The part of a schema that comes from one file, without the line feed behind it. -/
def part (count : Nat) (f : String × Document) : String :=
  heading count f.1 ++ Layout.join "\n\n" (f.2.definitions.map (·.render))

/-- One part behind the other, with a blank line between them. -/
def schema (count : Nat) (fs : List (String × Document)) : String :=
  "\n\n".intercalate (fs.map (part count))

/-- Only the files with documents are printed. -/
theorem printedTexts_resultsAt (t : FileTree Content) (found : List String) :
    printedTexts (resultsAt .print t found) = (documentsAt t found).map fun f =>
    part found.length f ++ "\n" := by
  rw [printedTexts, documentsAt, resultsAt, List.length_map, List.filterMap_map, List.map_filterMap]
  refine List.filterMap_congr fun path _ => ?_
  simp only [Function.comp_apply, FileTree.document?]
  rcases hcontent : t.read? path with _ | (body | bytes)
  · rfl
  · simp only [Loaded.ofContent, file, Loaded.parse]
    cases parseDocument ⟨body, path⟩ {} with
    | error e => rfl
    | ok d =>
      simp only [if_true, Node.print_eq_render, Node.render, Except.toOption, Option.map_some,
        Option.some.injEq, part, heading, Document.render, Layout.document]
      split
      · simp only [toString, String.append_assoc]
      · rw [String.empty_append]
  · rfl

private theorem intercalate_ended {texts : List String} (h : texts ≠ []) :
    "\n".intercalate (texts.map (· ++ "\n")) = "\n\n".intercalate texts ++ "\n" := by
  induction texts with
  | nil => exact absurd rfl h
  | cons text texts ih =>
    cases texts with
    | nil => simp
    | cons next texts =>
      have ih := ih (List.cons_ne_nil next texts)
      rw [List.map_cons] at ih
      have feeds : "\n\n" = "\n" ++ "\n" := rfl
      rw [List.map_cons, List.map_cons, String.intercalate_cons_cons, ih,
        String.intercalate_cons_cons, feeds]
      simp only [String.append_assoc]

private theorem endsTight_part {count depth : Nat} {f : String × Document}
    (h : f.2.Conforms depth) : EndsTight (part count f) := by
  obtain ⟨front, x, hx⟩ :=
    (List.eq_nil_or_concat' f.2.definitions).resolve_left h.definitions_ne_nil
  have last : EndsTight x.render := Definition.endsTight (h.definitions x (by simp [hx]))
  rw [part, hx, List.map_append]
  exact (last.join _).append _

private theorem endsTight_schema {count depth : Nat} {fs : List (String × Document)} (hne : fs ≠ [])
    (h : ∀ f ∈ fs, f.2.Conforms depth) : EndsTight (schema count fs) := by
  obtain ⟨front, f, rfl⟩ := (List.eq_nil_or_concat' fs).resolve_left hne
  rw [schema, List.map_append]
  exact (endsTight_part (h f (by simp))).intercalate _

/-- What is printed ends where the last document ends. -/
theorem printedSchema_resultsAt {depth : Nat} (hne : documentsAt t found ≠ [])
    (h : ∀ f ∈ documentsAt t found, f.2.Conforms depth) :
    printedSchema (resultsAt .print t found) = schema found.length (documentsAt t found) := by
  have texts : printedTexts (resultsAt .print t found) =
      ((documentsAt t found).map (part found.length)).map (· ++ "\n") := by
    rw [printedTexts_resultsAt, List.map_map]
    rfl
  have parts : (documentsAt t found).map (part found.length) ≠ [] := by simpa using hne
  have feed : ∀ c ∈ "\n".toList, Text.isBlank c := by
    intro c hc
    obtain rfl : c = '\n' := by simpa using hc
    rfl
  rw [printedSchema, texts, intercalate_ended parts, String.toList_append]
  exact (congrArg String.ofList ((endsTight_schema hne h).trimEnd feed)).trans
    (String.ofList_toList)

/-- A schema is printed even if some of the files fail. -/
theorem stdout_outcome_print {rs : Results} (h : printedSchema rs ≠ "") :
    (outcome .print rs).stdout = some (printedSchema rs) := by
  simp only [outcome, if_true]
  cases failures rs with
  | nil => rfl
  | cons told others => exact if_neg h

/-- A part in front of a text adds its own tokens and comments. -/
theorem lexes_part (count : Nat) {depth : Nat} {f : String × Document} (hd : f.2.Conforms depth)
    (hpath : ∀ c ∈ f.1.toList, Ignored.endsLine c = false) {notes : List (List Char)}
    {rest : List Char} {us : List Token} (hrest : Breaks rest) (h : LexesWith notes rest us) :
    LexesWith (headingNotes count f.1 ++ notes) ((part count f).toList ++ rest)
      (f.2.form.tokens ++ us) := by
  have spelled := Document.spells_definitions hd 0 rest us hrest h
  rw [indentBy_zero] at spelled
  rw [part, String.toList_append, List.append_assoc, heading, headingNotes]
  split
  · have line : ∀ c ∈ ' ' :: f.1.toList, Ignored.endsLine c = false :=
      List.forall_mem_cons.2 ⟨rfl, hpath⟩
    have commented := spelled.comment line (by simp)
    simpa [String.toList_append] using commented
  · exact spelled

private theorem lexes_schema {count depth : Nat} {fs : List (String × Document)}
    (h : ∀ f ∈ fs, f.2.Conforms depth ∧ ∀ c ∈ f.1.toList, Ignored.endsLine c = false) :
    LexesWith (fs.flatMap fun f => headingNotes count f.1) (schema count fs).toList
      (fs.flatMap fun f => f.2.form.tokens) := by
  induction fs with
  | nil => exact lexes_nil
  | cons f fs ih =>
    obtain ⟨⟨hd, hpath⟩, hfs⟩ := List.forall_mem_cons.1 h
    cases fs with
    | nil =>
      have last := lexes_part count hd hpath Breaks.nil lexes_nil
      simpa [schema] using last
    | cons next fs =>
      have feeds : ∀ c ∈ "\n\n".toList, Ignored.isSeparator c := by
        intro c hc
        obtain rfl : c = '\n' := by simpa using hc
        rfl
      have rest := (ih hfs).separators feeds
      have first := lexes_part count hd hpath (Breaks.cons (by decide)) rest
      rw [schema, List.map_cons, List.map_cons, String.intercalate_cons_cons, String.toList_append,
        String.toList_append, List.append_assoc]
      exact first

/-- The comments of a schema are the headings of its parts. -/
theorem map_headingNotes (count : Nat) (fs : List (String × Document)) :
    (fs.flatMap fun f => headingNotes count f.1).map (fun note => some (String.ofList note)) =
      if count > 1 then fs.map fun f => some ("# " ++ f.1) else [] := by
  by_cases several : count > 1
  · simp only [headingNotes, if_pos several]
    rw [← List.map_eq_flatMap, List.map_map]
    exact List.map_congr_left fun f _ => congrArg some String.ofList_toList
  · simp [headingNotes, several]

end Format

namespace Command

variable {t : FileTree Content} {paths exts : List String}

/-- What is printed for the files of a tree, if every path leads somewhere and some file
parses: one schema with the definitions of all files that parse, in the order in which they
were found. It has no comments but a heading for each of these files, and these only if more
than one file was found. -/
theorem run_format_prints (hscan : (Discovery.discover t.lookup paths exts).missing = []) :
    let found := (format .print paths exts).found t
    let fs := Format.documentsAt t found
    (∀ path ∈ found, '\n' ∉ path.toList ∧ '\r' ∉ path.toList) → fs ≠ [] →
      ∃ text, ((format .print paths exts).run t).1.stdout = some text ∧
        ∀ name, (∃ d, parseDocument ⟨text, name⟩ {} = .ok d ∧
            d.SameUpToLoc ⟨fs.flatMap fun f => f.2.definitions, none⟩) ∧
          ∃ spans, (Source.mk text name).comments = .ok spans ∧
          spans.map (Source.mk text name).text? =
            if found.length > 1 then fs.map fun f => some ("# " ++ f.1) else [] := by
  intro found fs hpaths hne
  have conforms : ∀ f ∈ fs, f.2.Conforms ({} : ParseOptions).maxDepth := fun f hf =>
    FileTree.conforms_of_document? (Format.of_mem_documentsAt hf).2
  have lines : ∀ f ∈ fs, ∀ c ∈ f.1.toList, Ignored.endsLine c = false := by
    intro f hf c hc
    obtain ⟨hfeed, hreturn⟩ := hpaths f.1 (Format.of_mem_documentsAt hf).1
    simp only [Ignored.endsLine, Bool.or_eq_false_iff, beq_eq_false_iff_ne]
    exact ⟨fun h => hfeed (h ▸ hc), fun h => hreturn (h ▸ hc)⟩
  have printed : Format.printedSchema (Format.resultsAt .print t found) =
      Format.schema found.length fs :=
    Format.printedSchema_resultsAt hne conforms
  have lexes : LexesWith _ (Format.schema found.length fs).toList _ :=
    Format.lexes_schema fun f hf => ⟨conforms f hf, lines f hf⟩
  refine ⟨Format.schema found.length fs, ?_, fun name => ⟨?_, ?_⟩⟩
  · rw [run_format hscan, ← printed]
    refine Format.stdout_outcome_print ?_
    rw [printed]
    exact (Format.endsTight_schema hne conforms).ne_empty
  · have tokens := lexes.lexes
    rw [← Document.tokens_flatMap] at tokens
    exact parseDocument_of_lexes (Document.conforms_flatMap hne conforms) tokens name
  · obtain ⟨spans, hspans, htexts⟩ :=
      LexesWith.comments (s := ⟨Format.schema found.length fs, name⟩) lexes
    exact ⟨spans, hspans, htexts.trans (Format.map_headingNotes found.length fs)⟩

/-- Of three files one does not parse. The path of the first one starts with a sharp, and its
document with a description. -/
theorem run_format_prints_three :
    let t : FileTree Content := .directory
      [("#day.graphqls", .file (.text "## A day.\nscalar  Day # of 24 hours")),
       ("hour.graphqls", .file (.text "scalar Hour scalar Minute")),
       ("year.graphqls", .file (.text "scalar"))]
    let paths := ["#day.graphqls", "year.graphqls", "hour.graphqls"]
    let found := (format .print paths ["graphqls"]).found t
    let fs := Format.documentsAt t found
    (Discovery.discover t.lookup paths ["graphqls"]).missing = [] ∧
      (∀ path ∈ found, '\n' ∉ path.toList ∧ '\r' ∉ path.toList) ∧ fs ≠ [] ∧
      ∃ text, ((format .print paths ["graphqls"]).run t).1.stdout = some text ∧
        ∀ name, (∃ d, parseDocument ⟨text, name⟩ {} = .ok d ∧
            d.SameUpToLoc ⟨fs.flatMap fun f => f.2.definitions, none⟩) ∧
          ∃ spans, (Source.mk text name).comments = .ok spans ∧
          spans.map (Source.mk text name).text? =
            if found.length > 1 then fs.map fun f => some ("# " ++ f.1) else [] := by
  intro t paths found fs
  have exts : Path.normalizeExtensions ["graphqls"] = ["graphqls"] := List.mergeSort_singleton _
  have discovered : Discovery.discover t.lookup paths ["graphqls"] = ⟨paths, 0, []⟩ := by
    rw [Discovery.discover, exts]
    decide +kernel
  have scan : (Discovery.discover t.lookup paths ["graphqls"]).missing = [] :=
    congrArg Discovery.missing discovered
  have all : found = paths := congrArg Discovery.paths discovered
  have lines : ∀ path ∈ found, '\n' ∉ path.toList ∧ '\r' ∉ path.toList := by
    rw [all]
    decide +kernel
  have documents : fs ≠ [] := by
    change Format.documentsAt t found ≠ []
    rw [all]
    decide +kernel
  exact ⟨scan, lines, documents, run_format_prints scan lines documents⟩

end Command

end SchemaLang
