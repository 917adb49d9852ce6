import Mathlib.Data.Option.Basic
import SchemaLang.Proofs.Files.Walk

/-!
# Which files are found

Of the files that walks from the given paths meet, those are found whose extension is wanted, path
by path and in the order of the walks, and the others are counted. A file that was given alone is
found whatever its extension is.
-/

namespace SchemaLang

variable {α : Type} {t u : FileTree α}

namespace FileTree

variable {path : String} {names place : List String}

theorem lookup_eq_some_iff :
    t.lookup path = some u ↔ ∃ place, t.resolve path = some place ∧ t.at? place = some u :=
  Option.bind_eq_some_iff

/-- A step stays at a directory, goes up from it, or goes to one of its entries. -/
theorem step_cases {part : String} (h : t.step names part = some place) :
    t.isDirectoryAt names = true ∧
    (place = names ∨ place = names.dropLast ∨ place = names ++ [part]) := by
  unfold step at h
  obtain ⟨_, guarded, h⟩ := Option.bind_eq_some_iff.1 h
  refine ⟨(Option.guard_eq_some' _).1 guarded, ?_⟩
  by_cases stays : part = "" ∨ part = "."
  · rw [if_pos stays] at h
    exact .inl (Option.some.inj h).symm
  · rw [if_neg stays] at h
    by_cases goesUp : part = ".."
    · rw [if_pos goesUp] at h
      obtain ⟨_, -, h⟩ := Option.bind_eq_some_iff.1 h
      exact .inr (.inl (Option.some.inj h).symm)
    · rw [if_neg goesUp] at h
      obtain ⟨_, -, h⟩ := Option.bind_eq_some_iff.1 h
      exact .inr (.inr (Option.some.inj h).symm)

/-- Above a directory there is a directory. -/
theorem exists_entries_dropLast {entries : List (String × FileTree α)}
    (h : t.at? names = some (.directory entries)) :
    ∃ above, t.at? names.dropLast = some (.directory above) := by
  rcases List.eq_nil_or_concat names with rfl | ⟨front, name, rfl⟩
  · exact ⟨entries, h⟩
  · rw [List.concat_eq_append] at h ⊢
    obtain ⟨above, habove, -⟩ := exists_entries_of_at? h
    rw [List.dropLast_concat]
    exact ⟨above, habove⟩

/-- A file is called in the tree what its path calls it. -/
theorem exists_front_of_resolve {content : α} (h : t.resolve path = some place)
    (hfile : t.at? place = some (.file content)) :
    ∃ front, place = front ++ [String.ofList (Path.fileName path)] := by
  obtain ⟨init, hparts⟩ := Path.exists_parts path
  unfold resolve at h
  obtain ⟨_, -, h⟩ := Option.bind_eq_some_iff.1 h
  rw [hparts, List.foldlM_append] at h
  obtain ⟨names, -, h⟩ := Option.bind_eq_some_iff.1 h
  obtain ⟨last, hlast, h⟩ := Option.bind_eq_some_iff.1 h
  obtain rfl : last = place := Option.some.inj h
  obtain ⟨directory, hplace⟩ := step_cases hlast
  obtain ⟨entries, hentries⟩ := isDirectoryAt_iff.1 directory
  rcases hplace with rfl | rfl | rfl
  · rw [hentries] at hfile
    cases hfile
  · obtain ⟨above, habove⟩ := exists_entries_dropLast hentries
    rw [habove] at hfile
    cases hfile
  · exact ⟨names, rfl⟩

end FileTree

/-- A file that a walk meets: the path that the walk began at, and the names that lead
on from there. -/
structure Sighting where
  root : String
  names : List String
deriving DecidableEq, Repr

namespace Sighting

/-- The path of the file. -/
def path (m : Sighting) : String := m.names.foldl Path.join m.root

/-- What the file is called in the tree. -/
def name? (t : FileTree α) (m : Sighting) : Option String :=
  ((t.resolve m.root).map (· ++ m.names)).bind List.getLast?

/-- The file has a wanted extension. -/
def IsWanted (t : FileTree α) (exts : List String) (m : Sighting) : Prop :=
  ∃ name ∈ m.name? t, Path.IsWanted exts name.toList

instance (t : FileTree α) (exts : List String) (m : Sighting) : Decidable (m.IsWanted t exts) :=
  inferInstanceAs (Decidable (∃ name ∈ m.name? t, Path.IsWanted exts name.toList))

/-- The path of a file ends in what the file is called in the tree. -/
theorem name?_eq {names : List String} {root : String} {content : α} (proper : t.IsProper)
    (hu : t.lookup root = some u) (hfile : u.at? names = some (.file content)) :
    (Sighting.mk root names).name? t =
      some (String.ofList (Path.fileName (Sighting.mk root names).path)) := by
  obtain ⟨place, hplace, hat⟩ := FileTree.lookup_eq_some_iff.1 hu
  rcases List.eq_nil_or_concat names with rfl | ⟨front, name, rfl⟩
  · obtain rfl := Option.some.inj hfile
    obtain ⟨above, rfl⟩ := FileTree.exists_front_of_resolve hplace hat
    simp [name?, hplace, path]
  · rw [List.concat_eq_append] at hfile ⊢
    obtain ⟨entries, hentries, hname⟩ := FileTree.exists_entries_of_at? hfile
    have plain := ((proper.at? hat) front entries hentries).2 name
      (List.mem_map_of_mem (FileTree.mem_of_lookup hname))
    have called : Path.fileName (Sighting.mk root (front ++ [name])).path = name.toList := by
      rw [path, List.foldl_append]
      exact Path.fileName_join plain _
    rw [called, String.ofList_toList]
    simp [name?, hplace]

end Sighting

/-- The files that walks from some paths meet, path by path; at a path where there is
nothing none is met. -/
inductive Walks (t : FileTree α) : List String → List Sighting → Prop
  | nil : Walks t [] []
  | missing {root : String} {roots : List String} {met : List Sighting}
    (nothing : t.lookup root = none)
    (rest : Walks t roots met) : Walks t (root :: roots) met
  | found {root : String} {roots : List String} {u : FileTree α} {files : List (List String)}
    {met : List Sighting}
    (here : t.lookup root = some u) (lists : u.Lists files) (rest : Walks t roots met) :
    Walks t (root :: roots) (files.map (Sighting.mk root) ++ met)

theorem FileTree.IsProper.lookup (h : t.IsProper) {root : String} (hu : t.lookup root = some u) :
    u.IsProper :=
  (FileTree.lookup_eq_some_iff.1 hu).elim fun _ hplace => h.at? hplace.2

namespace Walks

variable {roots : List String} {met : List Sighting}

/-- In every tree there is a walk from any paths. -/
theorem exists_met (h : t.IsProper) (roots : List String) : ∃ met, Walks t roots met := by
  induction roots with
  | nil => exact ⟨[], .nil⟩
  | cons root roots ih =>
    obtain ⟨met, rest⟩ := ih
    cases hroot : t.lookup root with
    | none => exact ⟨met, .missing hroot rest⟩
    | some u => exact ⟨_, .found hroot (FileTree.lists_fileNames (h.lookup hroot)) rest⟩

private theorem candidates_eq (h : t.IsProper) (walks : Walks t roots met) :
    Discovery.candidates t.lookup roots = met.map Sighting.path := by
  induction walks with
  | nil => rfl
  | missing nothing _ ih =>
    rw [Discovery.candidates, List.flatMap_cons, nothing]
    exact ih
  | @found root roots u files met here lists _ ih =>
    obtain rfl := lists.unique (FileTree.lists_fileNames (h.lookup here))
    rw [Discovery.candidates, List.flatMap_cons, here, List.map_append, List.map_map, ← ih]
    exact congrArg (· ++ _) (u.filePaths_eq root)

theorem isWanted_iff (h : t.IsProper) (walks : Walks t roots met) (exts : List String) :
    ∀ m ∈ met, m.IsWanted t exts ↔ Path.IsWanted exts (Path.fileName m.path) := by
  induction walks with
  | nil => exact List.forall_mem_nil _
  | missing _ _ ih => exact ih
  | @found root roots u files met here lists _ ih =>
    refine List.forall_mem_append.2 ⟨fun m hm => ?_, ih⟩
    obtain ⟨names, hnames, rfl⟩ := List.mem_map.1 hm
    obtain ⟨content, hfile⟩ := (lists.mem_iff names).1 hnames
    rw [Sighting.IsWanted, Sighting.name?_eq h here hfile]
    simp

/-- From a file alone the walk meets this file. -/
theorem eq_of_file {root : String} {content : α} (walks : Walks t [root] met)
    (hfile : t.lookup root = some (.file content)) : met = [⟨root, []⟩] := by
  cases walks with
  | missing nothing => cases nothing.symm.trans hfile
  | found here lists rest =>
    cases here.symm.trans hfile
    cases rest
    obtain rfl := lists.unique (FileTree.lists_fileNames (FileTree.isProper_file content))
    rfl

end Walks

/-- A path is the only one that was given, and means a file. -/
def IsLoneFile (t : FileTree α) (roots : List String) (root : String) : Prop :=
  roots = [root] ∧ ∃ content, t.lookup root = some (.file content)

private theorem lone?_eq_some_iff {roots : List String} {root : String} :
    Discovery.lone? t.lookup roots = some root ↔ IsLoneFile t roots root := by
  constructor
  · intro h
    unfold Discovery.lone? at h
    split at h
    · split at h
      · rename_i content hfile
        cases h
        exact ⟨rfl, content, hfile⟩
      · cases h
    · cases h
  · rintro ⟨rfl, content, hfile⟩
    rw [Discovery.lone?, hfile]

/-- What is found of the files that are met: those with a wanted extension, or the one that
was given alone. -/
structure Discovery.Selects (d : Discovery) (t : FileTree α) (roots exts : List String)
    (met : List Sighting) : Prop where
  lone : ∀ root, IsLoneFile t roots root → (∀ m ∈ met, ¬m.IsWanted t exts) → d.paths = [root]
  wanted : ¬((∃ root, IsLoneFile t roots root) ∧ ∀ m ∈ met, ¬m.IsWanted t exts) →
    d.paths = (met.filter fun m => m.IsWanted t exts).map Sighting.path
  counted : d.paths.length + d.skipped = met.length

/-- Either nothing has a wanted extension and one file was given alone, or what has one is found. -/
theorem Discovery.discover_cases (find : String → Option (FileTree α)) (roots exts : List String) :
    let has := Path.hasExtension (Path.normalizeExtensions exts)
    let d := discover find roots exts
    (∃ root, lone? find roots = some root ∧ (candidates find roots).filter has = [] ∧
      d.paths = [root] ∧
        d.skipped = ((candidates find roots).filter (!has ·)).length - 1) ∨
      (¬((∃ root, lone? find roots = some root) ∧ (candidates find roots).filter has = []) ∧
        d.paths = (candidates find roots).filter has ∧
        d.skipped = ((candidates find roots).filter (!has ·)).length) := by
  intro has d
  have discovered : d = discover find roots exts := rfl
  simp only [discover, List.partition_eq_filter_filter] at discovered
  split at discovered
  · rename_i root hnothing hlone
    refine .inl ⟨root, hlone, hnothing, ?_, ?_⟩
    · rw [discovered]
    · rw [discovered]
      rfl
  · rename_i other
    refine .inr ⟨?_, ?_, ?_⟩
    · rintro ⟨⟨root, hlone⟩, hnothing⟩
      exact other root hnothing hlone
    · rw [discovered]
    · rw [discovered]
      rfl

private theorem selects_discover (h : t.IsProper) {roots : List String} {met : List Sighting}
    (walks : Walks t roots met) (exts : List String) :
    (Discovery.discover t.lookup roots exts).Selects t roots exts met := by
  have found : (Discovery.candidates t.lookup roots).filter
      (Path.hasExtension (Path.normalizeExtensions exts)) =
          (met.filter fun m => m.IsWanted t exts).map Sighting.path := by
    rw [walks.candidates_eq h, List.filter_map]
    refine congrArg _ (List.filter_congr fun m hm => ?_)
    rw [Bool.eq_iff_iff, decide_eq_true_eq, walks.isWanted_iff h exts m hm]
    exact Path.hasExtension_iff
  have nothing : (Discovery.candidates t.lookup roots).filter
      (Path.hasExtension (Path.normalizeExtensions exts)) = [] ↔ ∀ m ∈ met, ¬m.IsWanted t exts := by
    simp [found, List.filter_eq_nil_iff]
  have count := (List.filter_append_perm (Path.hasExtension (Path.normalizeExtensions exts))
    (Discovery.candidates t.lookup roots)).length_eq
  have all : (Discovery.candidates t.lookup roots).length = met.length := by
    rw [walks.candidates_eq h, List.length_map]
  rw [List.length_append, all] at count
  rcases Discovery.discover_cases t.lookup roots exts with
    ⟨root, hlone, hnothing, hpaths, hskipped⟩ | ⟨others, hpaths, hskipped⟩
  · obtain ⟨only, content, hfile⟩ := lone?_eq_some_iff.1 hlone
    subst only
    have one := walks.eq_of_file hfile
    refine ⟨?_, fun not => absurd ⟨⟨root, rfl, content, hfile⟩, nothing.1 hnothing⟩ not, ?_⟩
    · rintro _ ⟨same, -⟩ -
      rw [hpaths, same]
    · rw [hnothing, one] at count
      rw [hpaths, hskipped, one]
      simp only [List.length_nil, List.length_singleton] at *
      omega
  · refine ⟨fun root lone unwanted => ?_, fun _ => hpaths.trans found, ?_⟩
    · exact absurd ⟨⟨root, lone?_eq_some_iff.2 lone⟩, nothing.2 unwanted⟩ others
    · rw [hpaths, hskipped]
      exact count

/-- The same is found for the same extensions, however they are given. -/
theorem Discovery.discover_sameExtensions {exts exts' : List String}
    (h : Path.SameExtensions exts exts') (find : String → Option (FileTree α))
    (roots : List String) : discover find roots exts' = discover find roots exts := by
  simp only [discover, h.hasExtension]

/-- Discovery is exact: of the files that walks from the paths meet it finds those with a wanted
extension, or else the one that was given alone, and counts the others; and it hangs on the
extensions no more than on what they stand for. -/
theorem Discovery.discover_exact (h : t.IsProper) (roots exts : List String) :
    (∃ met, Walks t roots met) ∧
      (∀ met, Walks t roots met → (discover t.lookup roots exts).Selects t roots exts met) ∧
      ∀ exts', Path.SameExtensions exts exts' →
      discover t.lookup roots exts' = discover t.lookup roots exts :=
  ⟨Walks.exists_met h roots, fun _ walks => selects_discover h walks exts,
    fun _ same => discover_sameExtensions same t.lookup roots⟩

/-- Two walks that meet the same file, a path that is a file, and extensions with dots and in
another case. -/
theorem Discovery.discover_exact_overlapping :
    let t : FileTree Unit := FileTree.directory
      [("b", FileTree.directory [("x.GraphQL", FileTree.file ()), ("notes.txt", FileTree.file ())]),
        ("a.graphqls", FileTree.file ()), (".graphql", FileTree.file ())]
    let roots := ["b", "./", "b/notes.txt"]
    let exts := ["..graphql", "GRAPHQLS"]
    t.IsProper ∧ (∃ met, Walks t roots met) ∧
      (∀ met, Walks t roots met → (discover t.lookup roots exts).Selects t roots exts met) ∧
      ∀ exts', Path.SameExtensions exts exts' →
      discover t.lookup roots exts' = discover t.lookup roots exts := by
  intro t roots exts
  have proper : t.IsProper := by
    refine FileTree.isProper_directory (by decide) (by decide) ?_
    simp only [List.forall_mem_cons, FileTree.isProper_file, List.not_mem_nil, false_implies,
      implies_true, and_true]
    exact FileTree.isProper_directory (by decide) (by decide) (by simp [FileTree.isProper_file])
  exact ⟨proper, discover_exact proper roots exts⟩

end SchemaLang
