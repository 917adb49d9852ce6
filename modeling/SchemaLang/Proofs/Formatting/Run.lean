import SchemaLang.Command.Run
import SchemaLang.Proofs.Files.Tree
import SchemaLang.Proofs.Formatting.Text

/-!
# Formatting the files of a tree

A run that writes puts the canonical text in place of what a file holds, in the files that were
found and can be rewritten, and does nothing to any other file. What it leaves behind checks as
before, and formats to itself.
-/

namespace SchemaLang

open Format (Mode Rewrites)

/-- The paths of the files that a command works on. -/
def Command.found (c : Command) (t : FileTree Content) : List String :=
  (Discovery.discover t.lookup c.paths c.exts).paths

namespace Format

variable {mode : Mode} {t : FileTree Content} {found : List String}

/-- What is done with the files at some paths. -/
def resultsAt (mode : Mode) (t : FileTree Content) (found : List String) : Results :=
  found.map fun path => (path, file mode (Loaded.ofContent path (t.read? path)))

/-- The writes of a run over the files at some paths, with the contents that they write. -/
def contentsAt (mode : Mode) (t : FileTree Content) (found : List String) :
    List (String × Content) :=
  (writes (resultsAt mode t found)).map fun w => (w.1, .text w.2)

/-- The tree after writing. -/
def rewritten (mode : Mode) (t : FileTree Content) (found : List String) : FileTree Content :=
  t.writeAll (contentsAt mode t found)

private theorem mem_writes {rs : Results} {path text : String} :
    (path, text) ∈ writes rs ↔ (path, Result.updated text) ∈ rs := by
  simp only [writes, List.mem_filterMap]
  constructor
  · rintro ⟨⟨p, r⟩, hmem, h⟩
    cases r with
    | updated x =>
      simp only [Option.some.injEq, Prod.mk.injEq] at h
      obtain ⟨rfl, rfl⟩ := h
      exact hmem
    | _ => simp at h
  · intro h
    exact ⟨_, h, rfl⟩

/-- A content is written to a path if it is what the text there is rewritten to. -/
theorem mem_contentsAt (hmode : mode ≠ .print) {path : String} {new : Content} :
    (path, new) ∈ contentsAt mode t found ↔
      path ∈ found ∧ ∃ body text, t.read? path = some (.text body) ∧ new = .text text ∧
      Rewrites mode body text := by
  simp only [contentsAt, List.mem_map, Prod.mk.injEq, Prod.exists]
  constructor
  · rintro ⟨p, text, hw, rfl, rfl⟩
    obtain ⟨q, hq, hresult⟩ := List.mem_map.1 (mem_writes.1 hw)
    obtain ⟨rfl, hfile⟩ := Prod.mk.inj hresult
    obtain ⟨body, hbody, hrewrites⟩ := (file_eq_updated hmode).1 hfile
    exact ⟨hq, body, text, hbody, rfl, hrewrites⟩
  · rintro ⟨hpath, body, text, hbody, rfl, hrewrites⟩
    refine ⟨path, text, mem_writes.2 (List.mem_map.2 ⟨path, hpath, ?_⟩), rfl, rfl⟩
    exact congrArg (Prod.mk path) ((file_eq_updated hmode).2 ⟨body, hbody, hrewrites⟩)

private theorem shape_rewritten : (rewritten mode t found).shape = t.shape := t.shape_writeAll _

/-- A file that was found and can be rewritten is rewritten. -/
theorem contentAt_of_rewrites (hmode : mode ≠ .print) {path body text : String}
    {names : List String} (hpath : path ∈ found) (hnames : t.resolve path = some names)
    (hbody : t.contentAt names = some (.text body)) (h : Rewrites mode body text) :
    (rewritten mode t found).contentAt names = some (.text text) := by
  have read : ∀ {p : String}, t.resolve p = some names → t.read? p = some (.text body) := by
    intro p hp
    rw [FileTree.read?_eq, hp]
    exact hbody
  refine FileTree.contentAt_writeAll_of_mem hbody ⟨(path, .text text), ?_, hnames⟩ ?_
  · exact (mem_contentsAt hmode).2 ⟨hpath, body, text, read hnames, rfl, h⟩
  -- Several paths may lead to the file, but what it is rewritten to does not depend on the path.
  · rintro ⟨p, new⟩ hw hp
    obtain ⟨-, body', text', hbody', rfl, h'⟩ := (mem_contentsAt hmode).1 hw
    rw [read hp] at hbody'
    obtain rfl := Content.text.inj (Option.some.inj hbody')
    exact congrArg Content.text (h'.unique h)

/-- A file that was not found, or cannot be rewritten, keeps what it holds. -/
theorem contentAt_of_not_rewrites (hmode : mode ≠ .print) {names : List String}
    (h : ∀ path ∈ found, t.resolve path = some names →
      ∀ body text, t.contentAt names = some (.text body) → ¬Rewrites mode body text) :
    (rewritten mode t found).contentAt names = t.contentAt names := by
  refine FileTree.contentAt_writeAll_of_not_mem ?_
  rintro ⟨p, new⟩ hw hp
  obtain ⟨hpath, body, text, hbody, rfl, hrewrites⟩ := (mem_contentsAt hmode).1 hw
  rw [FileTree.read?_eq, hp] at hbody
  exact h p hpath hp body text hbody hrewrites

/-- What a file that was found may hold after a run: what it held, which cannot be rewritten, or
what that was rewritten to. -/
inductive Becomes (mode : Mode) : Content → Content → Prop
  | kept (c : Content) (h : ∀ body text, c = .text body → ¬Rewrites mode body text) :
    Becomes mode c c
  | rewritten (body text : String) (h : Rewrites mode body text) :
    Becomes mode (.text body) (.text text)

private theorem exists_becomes (hmode : mode ≠ .print) {path : String}
    {names : List String} {old : Content} (hpath : path ∈ found)
    (hnames : t.resolve path = some names) (hold : t.contentAt names = some old) :
    ∃ new, (rewritten mode t found).contentAt names = some new ∧ Becomes mode old new := by
  by_cases h : ∃ body text, old = .text body ∧ Rewrites mode body text
  · obtain ⟨body, text, rfl, hrewrites⟩ := h
    exact ⟨.text text, contentAt_of_rewrites hmode hpath hnames hold hrewrites,
      .rewritten body text hrewrites⟩
  · refine ⟨old, ?_, .kept old fun body text hbody hrewrites => h ⟨body, text, hbody, hrewrites⟩⟩
    rw [contentAt_of_not_rewrites hmode, hold]
    intro _ _ _ body text hbody hrewrites
    rw [hold] at hbody
    exact h ⟨body, text, Option.some.inj hbody, hrewrites⟩

/-- What is read of a file that was found, before and after a run. -/
theorem read?_rewritten (t : FileTree Content) (hmode : mode ≠ .print) {path : String}
    (hpath : path ∈ found) : (t.read? path = none ∧ (rewritten mode t found).read? path = none) ∨
      ∃ old new, t.read? path = some old ∧ (rewritten mode t found).read? path = some new ∧
      Becomes mode old new := by
  rw [FileTree.read?_eq, FileTree.read?_eq, FileTree.resolve_of_shape shape_rewritten]
  cases hnames : t.resolve path with
  | none => exact .inl ⟨rfl, rfl⟩
  | some names =>
    change (t.contentAt names = none ∧ _ = none) ∨ _
    cases hold : t.contentAt names with
    | none => exact .inl ⟨rfl, (FileTree.contentAt_eq_none_of_shape shape_rewritten).2 hold⟩
    | some old =>
      obtain ⟨new, hnew, h⟩ := exists_becomes hmode hpath hnames hold
      exact .inr ⟨old, new, hold, hnew, h⟩

/-- What a run leaves behind cannot be rewritten again. -/
theorem Becomes.settles {old new : Content} (h : Becomes mode old new) {body text : String}
    (hbody : new = .text body) : ¬Rewrites mode body text := by
  cases h with
  | kept c h => exact h body text hbody
  | rewritten before after h =>
    obtain rfl := Content.text.inj hbody
    exact h.settles

/-- A file has as many definitions, or fails with the same report, before and after a run. -/
theorem Becomes.definitions {old new : Content} (h : Becomes mode old new) (path : String) :
    Check.definitions (Loaded.ofContent path (some new)) =
      Check.definitions (Loaded.ofContent path (some old)) := by
  cases h with
  | kept => rfl
  | rewritten body text h =>
    obtain ⟨name, d, hd, rfl, -⟩ := h
    obtain ⟨e, he, hsame⟩ := parseDocument_renamed hd path
    obtain ⟨e', he', hsame'⟩ := parseDocument_canonical hd path
    have lengths : e'.definitions.length = e.definitions.length :=
      Document.SameUpToLoc.length_definitions (hsame'.trans hsame.symm)
    simp only [Check.definitions, Loaded.parse, Loaded.ofContent, he, he']
    exact congrArg Except.ok lengths

/-- What has been formatted is not written again. -/
theorem contentsAt_rewritten (hmode : mode ≠ .print) :
    contentsAt mode (rewritten mode t found) found = [] := by
  refine List.eq_nil_iff_forall_not_mem.2 ?_
  rintro ⟨path, new⟩ hw
  obtain ⟨hpath, body, text, hbody, -, hrewrites⟩ := (mem_contentsAt hmode).1 hw
  rcases read?_rewritten t hmode hpath with ⟨-, hnone⟩ | ⟨old, new, -, hnew, h⟩
  · rw [hnone] at hbody
    exact absurd hbody (by simp)
  · rw [hnew] at hbody
    exact h.settles (Option.some.inj hbody) hrewrites

private theorem rewritten_rewritten (hmode : mode ≠ .print) :
    rewritten mode (rewritten mode t found) found = rewritten mode t found := by
  rw [rewritten, contentsAt_rewritten hmode]
  rfl

private theorem writeSummary_of_no_writes {rs : Results} (h : writes rs = []) :
    ∃ rest, writeSummary rs = Outcome.goodMark ++ " Rewrote 0 of " ++ rest := by
  have zero : s!" Rewrote {0} of " = " Rewrote 0 of " := rfl
  simp only [writeSummary, h, List.length_nil, zero]
  split
  · simp only [String.append_assoc]
    exact ⟨_, rfl⟩
  · simp only [String.append_assoc]
    exact ⟨_, rfl⟩

/-- A run that writes nothing says so. -/
theorem stdout_outcome (hmode : mode ≠ .print) {rs : Results} (h : writes rs = []) :
    ∃ rest, (outcome mode rs).stdout = some (Outcome.goodMark ++ " Rewrote 0 of " ++ rest) := by
  obtain ⟨rest, summary⟩ := writeSummary_of_no_writes h
  have nonempty : Outcome.goodMark ++ " Rewrote 0 of " ++ rest ≠ "" := by
    intro empty
    have start := congrArg (fun text : String => text.toList.head?) empty
    simp [Outcome.goodMark] at start
  refine ⟨rest, ?_⟩
  simp only [outcome, hmode, if_false, summary]
  cases failures rs with
  | nil => rfl
  | cons told others =>
    change (if Outcome.goodMark ++ " Rewrote 0 of " ++ rest = "" then none else some _) = _
    rw [if_neg nonempty]

end Format

namespace Check

private theorem failures_eq (files : List Loaded) :
    failures files = (files.map definitions).filterMap fun r =>
      match r with
      | .error told => some told
      | .ok _ => none := by
  rw [List.filterMap_map]
  rfl

private theorem total_eq (files : List Loaded) :
    total files = ((files.map definitions).map fun r =>
      match r with
      | .error _ => 0
      | .ok n => n).foldl (· + ·) 0 := by
  rw [List.map_map]
  rfl

/-- A check sees of each file how many definitions there are in it, or what to tell about it. -/
theorem run_congr {files files' : List Loaded} (h : files'.map definitions = files.map definitions)
    (skipped : Nat) : run files' skipped = run files skipped := by
  have lengths : files'.length = files.length := by
    rw [← List.length_map (f := definitions), h, List.length_map]
  simp only [run, summary, failures_eq, total_eq, h, lengths]

end Check

/-- What writing may do to the files of a tree, where those at the paths `found` are worked on. -/
structure Format.IsSafe (mode : Mode) (found : List String) (t t' : FileTree Content) : Prop where
  /-- No file or directory comes or goes. -/
  shape : t'.shape = t.shape
  /-- A file that was not found keeps what it holds. -/
  unfound : ∀ names, (∀ path ∈ found, t.resolve path ≠ some names) →
    t'.contentAt names = t.contentAt names
  /-- So does one that holds no text. -/
  binary : ∀ names bytes, t.contentAt names = some (.binary bytes) →
    t'.contentAt names = some (.binary bytes)
  /-- So does one that does not parse. -/
  malformed : ∀ names body name e, t.contentAt names = some (.text body) →
    parseDocument ⟨body, name⟩ {} = .error e → t'.contentAt names = some (.text body)
  /-- So does one with comments, unless they are to be discarded. -/
  commented : mode = .write → ∀ names body name comments, t.contentAt names = some (.text body) →
    (Source.mk body name).comments = .ok comments → comments ≠ [] →
    t'.contentAt names = some (.text body)
  /-- Every other file that was found holds the canonical text of its document, which parses to
  that document. -/
  canonical : ∀ path ∈ found, ∀ names body name d, t.resolve path = some names →
    t.contentAt names = some (.text body) → parseDocument ⟨body, name⟩ {} = .ok d →
    (mode = .write → (Source.mk body name).comments = .ok []) →
    t'.contentAt names = some (.text (Node.document d).print) ∧
      ∀ name', ∃ d', parseDocument ⟨(Node.document d).print, name'⟩ {} = .ok d' ∧ d'.SameUpToLoc d

private theorem Format.isSafe_rewritten {mode : Mode} (hmode : mode ≠ .print) (found : List String)
    (t : FileTree Content) : Format.IsSafe mode found t (Format.rewritten mode t found) where
  shape := shape_rewritten
  unfound names h := contentAt_of_not_rewrites hmode fun path hpath hnames =>
    absurd hnames (h path hpath)
  binary names bytes hold := by
    rw [contentAt_of_not_rewrites hmode, hold]
    intro _ _ _ body text hbody
    rw [hold] at hbody
    exact absurd hbody (by simp)
  malformed names body name e hold he := by
    rw [contentAt_of_not_rewrites hmode, hold]
    rintro _ _ _ _ text hbody ⟨name', d, hd, -⟩
    rw [hold] at hbody
    obtain rfl := Content.text.inj (Option.some.inj hbody)
    obtain ⟨d', hd', -⟩ := parseDocument_renamed hd name
    rw [he] at hd'
    exact absurd hd' (by simp)
  commented hwrite names body name comments hold hcomments hne := by
    rw [contentAt_of_not_rewrites hmode, hold]
    rintro _ _ _ _ text hbody ⟨name', d, -, -, -, hnone⟩
    rw [hold] at hbody
    obtain rfl := Content.text.inj (Option.some.inj hbody)
    exact hne (Except.ok.inj (hcomments.symm.trans (hnone hwrite)))
  canonical path hpath names body name d hnames hold hd hcomments := by
    rw [Node.print_eq_render, Node.render]
    refine ⟨?_, parseDocument_canonical hd⟩
    by_cases hbody : d.render = body
    · rw [contentAt_of_not_rewrites hmode, hold, hbody]
      rintro _ _ _ _ text hbody' ⟨name', d', hd', rfl, hne, -⟩
      rw [hold] at hbody'
      obtain rfl := Content.text.inj (Option.some.inj hbody')
      exact hne ((sameUpToLoc_of_parseDocument hd' hd).render.trans hbody)
    · exact contentAt_of_rewrites hmode hpath hnames hold ⟨name, d, hd, rfl, hbody, hcomments⟩

namespace Command

variable {t t' : FileTree Content} {paths exts : List String}

/-- The files at some paths, with what is read of them. -/
def load (t : FileTree Content) (found : List String) : List Loaded :=
  found.map fun path => Loaded.ofContent path (t.read? path)

private theorem path_ofContent (path : String) (content : Option Content) :
    (Loaded.ofContent path content).path = path := by
  rcases content with _ | (_ | _) <;> rfl

theorem discover_of_shape (h : t'.shape = t.shape) (c : Command) :
    Discovery.discover t'.lookup c.paths c.exts = Discovery.discover t.lookup c.paths c.exts :=
  Discovery.discover_of_shape h c.paths c.exts

private theorem run_eq (c : Command) (t : FileTree Content) :
    let r := c.finish (Discovery.discover t.lookup c.paths c.exts) (load t (c.found t))
    c.run t = (r.1, t.writeAll (r.2.map fun w => (w.1, .text w.2))) := by
  intro r
  rw [FileTree.writeAll, List.foldl_map]
  rfl

theorem run_format {mode : Format.Mode}
    (h : (Discovery.discover t.lookup paths exts).missing = []) : (format mode paths exts).run t =
      (Format.outcome mode (Format.resultsAt mode t ((format mode paths exts).found t)),
        Format.rewritten mode t ((format mode paths exts).found t)) := by
  have results : (load t ((format mode paths exts).found t)).map
      (fun f => (f.path, Format.file mode f)) =
        Format.resultsAt mode t ((format mode paths exts).found t) := by
    rw [load, Format.resultsAt, List.map_map]
    refine List.map_congr_left fun path _ => ?_
    exact congrArg (·, _) (path_ofContent path _)
  have finished : (format mode paths exts).finish (Discovery.discover t.lookup paths exts)
      (load t ((format mode paths exts).found t)) =
        (Format.outcome mode (Format.resultsAt mode t ((format mode paths exts).found t)),
          Format.writes (Format.resultsAt mode t ((format mode paths exts).found t))) := by
    simp only [finish, h, ne_eq, not_true_eq_false, if_false, Format.run, results]
  have run := run_eq (format mode paths exts) t
  change (format mode paths exts).run t =
    (((format mode paths exts).finish (Discovery.discover t.lookup paths exts) _).1, t.writeAll
      (((format mode paths exts).finish (Discovery.discover t.lookup paths exts) _).2.map _)) at run
  rw [finished] at run
  exact run

/-- A check answers the same if the same files are found and each is seen as the same. -/
theorem run_check_congr (shape : t'.shape = t.shape)
    (seen : ∀ path ∈ (check paths exts).found t,
      Check.definitions (Loaded.ofContent path (t'.read? path)) =
        Check.definitions (Loaded.ofContent path (t.read? path))) :
    ((check paths exts).run t').1 = ((check paths exts).run t).1 := by
  have files : (load t' ((check paths exts).found t)).map Check.definitions =
      (load t ((check paths exts).found t)).map Check.definitions := by
    rw [load, load, List.map_map, List.map_map]
    exact List.map_congr_left seen
  change ((check paths exts).finish (Discovery.discover t'.lookup paths exts)
      (load t' (Discovery.discover t'.lookup paths exts).paths)).1 =
    ((check paths exts).finish (Discovery.discover t.lookup paths exts)
      (load t (Discovery.discover t.lookup paths exts).paths)).1
  rw [Discovery.discover_of_shape shape]
  simp only [finish]
  split
  · rfl
  · exact Check.run_congr files _

/-- Where every path leads somewhere, writing is safe: it touches only files that were found, that
parse and that have no comments to keep, and leaves the canonical text of its document in each of
these. A check answers the same before and after, and formatting once more changes nothing. -/
theorem run_format_safe (t : FileTree Content) (paths exts : List String) {mode : Format.Mode}
    (hmode : mode ≠ .print) (hscan : (Discovery.discover t.lookup paths exts).missing = []) :
    let c := format mode paths exts
    let t' := (c.run t).2
    Format.IsSafe mode (c.found t) t t' ∧
      ((check paths exts).run t').1 = ((check paths exts).run t).1 ∧
      (c.run t').2 = t' ∧
      ∃ rest, (c.run t').1.stdout = some (Outcome.goodMark ++ " Rewrote 0 of " ++ rest) := by
  intro c t'
  have first : t' = Format.rewritten mode t (c.found t) := congrArg Prod.snd (run_format hscan)
  have shape : t'.shape = t.shape := by rw [first, Format.shape_rewritten]
  have found : c.found t' = c.found t := congrArg Discovery.paths (discover_of_shape shape c)
  have scan' : (Discovery.discover t'.lookup paths exts).missing = [] := by
    rw [Discovery.discover_of_shape shape, hscan]
  have second : c.run t' = (Format.outcome mode (Format.resultsAt mode t' (c.found t)),
      Format.rewritten mode t' (c.found t)) := by
    rw [← found]
    exact run_format scan'
  have settled : Format.contentsAt mode t' (c.found t) = [] := by
    rw [first, Format.contentsAt_rewritten hmode]
  refine ⟨by rw [first]; exact Format.isSafe_rewritten hmode (c.found t) t, ?_, ?_, ?_⟩
  · refine run_check_congr shape fun path hpath => ?_
    rw [first]
    have hpath : path ∈ c.found t := hpath
    rcases Format.read?_rewritten t hmode hpath with ⟨old, new⟩ | ⟨old, new, hold, hnew, h⟩
    · rw [old, new]
    · rw [hold, hnew]
      exact h.definitions path
  · rw [second, first]
    exact Format.rewritten_rewritten hmode
  · rw [second]
    exact Format.stdout_outcome hmode (List.map_eq_nil_iff.1 settled)

/-- Of three files one is rewritten, one has a comment and one does not parse. -/
theorem run_format_safe_directory :
    let t : FileTree Content := .directory
      [("day.graphqls", .file (.text "scalar  Day")),
        ("hour.graphqls", .file (.text "# twelve\nscalar  Hour")),
       ("year.graphqls", .file (.text "scalar"))]
    let paths := ["day.graphqls", "./hour.graphqls", "year.graphqls"]
    let c := format .write paths ["graphqls"]
    let t' := (c.run t).2
    (Discovery.discover t.lookup paths ["graphqls"]).missing = [] ∧
      t'.contentAt ["day.graphqls"] = some (.text "scalar Day\n") ∧
      Format.IsSafe .write (c.found t) t t' ∧
      ((check paths ["graphqls"]).run t').1 = ((check paths ["graphqls"]).run t).1 ∧
      (c.run t').2 = t' ∧
      ∃ rest, (c.run t').1.stdout = some (Outcome.goodMark ++ " Rewrote 0 of " ++ rest) := by
  intro t paths c t'
  have exts : Path.normalizeExtensions ["graphqls"] = ["graphqls"] := List.mergeSort_singleton _
  have found : Discovery.discover t.lookup paths ["graphqls"] = ⟨paths, 0, []⟩ := by
    rw [Discovery.discover, exts]
    decide +kernel
  have scan : (Discovery.discover t.lookup paths ["graphqls"]).missing = [] :=
    congrArg Discovery.missing found
  have day : t'.contentAt ["day.graphqls"] = some (.text "scalar Day\n") := by
    have run : t' = Format.rewritten .write t (c.found t) := congrArg Prod.snd (run_format scan)
    rw [run, show c.found t = paths from congrArg Discovery.paths found]
    decide +kernel
  exact ⟨scan, day, run_format_safe t paths ["graphqls"] (by decide) scan⟩

end Command

end SchemaLang
