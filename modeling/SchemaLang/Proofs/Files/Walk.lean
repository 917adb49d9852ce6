import SchemaLang.Files.Discovery
import SchemaLang.Proofs.Files.Extensions

/-!
# Walking a file tree

A walk meets the files of a tree one after the other: the entries of a directory in the order of
their names, and all that is below one of them before the next. So it meets them in the order of the
names that lead to them, each once.
-/

namespace SchemaLang

namespace FileTree

variable {α : Type} {t u : FileTree α} {names : List String}

private theorem at?_append (front back : List String) (t : FileTree α) :
    t.at? (front ++ back) = (t.at? front).bind (·.at? back) := by
  induction front generalizing t with
  | nil => rfl
  | cons name front ih =>
    cases t with
    | file c => rfl
    | directory entries =>
      rw [List.cons_append, at?, at?]
      cases entries.lookup name with
      | none => rfl
      | some u => exact ih u

/-- What has anything below it is a directory. -/
theorem exists_entries_of_at? {front : List String} {name : String}
    (h : t.at? (front ++ [name]) = some u) :
    ∃ entries, t.at? front = some (.directory entries) ∧ entries.lookup name = some u := by
  rw [at?_append] at h
  obtain ⟨v, hv, hname⟩ := Option.bind_eq_some_iff.1 h
  cases v with
  | file c => cases hname
  | directory entries =>
    obtain ⟨w, hw, hsame⟩ := Option.bind_eq_some_iff.1 hname
    cases hsame
    exact ⟨entries, hv, hw⟩

theorem isDirectoryAt_iff :
    t.isDirectoryAt names = true ↔ ∃ entries, t.at? names = some (.directory entries) := by
  unfold isDirectoryAt
  cases t.at? names with
  | none => simp
  | some u => cases u <;> simp

/-- The entries of each directory have different names, and none of these has a slash in it. -/
def IsProper (t : FileTree α) : Prop :=
  ∀ names entries, t.at? names = some (.directory entries) →
    (entries.map Prod.fst).Nodup ∧ ∀ name ∈ entries.map Prod.fst, '/' ∉ name.toList

theorem IsProper.at? (h : t.IsProper) (hu : t.at? names = some u) : u.IsProper := by
  intro more entries hentries
  refine h (names ++ more) entries ?_
  rw [at?_append, hu]
  exact hentries

theorem isProper_file (content : α) : (file content).IsProper := by
  intro names entries h
  cases names with
  | nil => cases h
  | cons => cases h

theorem mem_of_lookup {entries : List (String × FileTree α)} {name : String}
    (h : entries.lookup name = some u) : (name, u) ∈ entries := by
  obtain ⟨before, after, rfl, -⟩ := List.lookup_eq_some_iff.1 h
  exact List.mem_append_right before List.mem_cons_self

private theorem lookup_of_mem {entries : List (String × FileTree α)} {name : String}
    (h : (entries.map Prod.fst).Nodup) (hmem : (name, u) ∈ entries) :
    entries.lookup name = some u := by
  obtain ⟨before, after, rfl⟩ := List.append_of_mem hmem
  refine List.lookup_eq_some_iff.2 ⟨before, after, rfl, fun e he => ?_⟩
  rw [List.map_append, List.nodup_append] at h
  have other : e.1 ≠ name := h.2.2 e.1 (List.mem_map_of_mem he) name List.mem_cons_self
  exact bne_iff_ne.2 other.symm

private theorem IsProper.entry {entries : List (String × FileTree α)}
    (h : (directory entries).IsProper) : ∀ e ∈ entries, e.2.IsProper := by
  intro e he
  have below : (directory entries).at? [e.1] = some e.2 := by
    rw [FileTree.at?, lookup_of_mem (h [] entries rfl).1 he]
    rfl
  exact h.at? below

/-- A directory is proper if its names are and all of its entries are. -/
theorem isProper_directory {entries : List (String × FileTree α)}
    (distinct : (entries.map Prod.fst).Nodup)
    (plain : ∀ name ∈ entries.map Prod.fst, '/' ∉ name.toList)
    (inner : ∀ e ∈ entries, e.2.IsProper) : (directory entries).IsProper := by
  intro names entries' h
  cases names with
  | nil =>
    cases h
    exact ⟨distinct, plain⟩
  | cons name names =>
    obtain ⟨u, hu, h⟩ := Option.bind_eq_some_iff.1 h
    exact inner (name, u) (mem_of_lookup hu) names entries' h

/-- The names that lead to the files of a tree, in the order in which a walk meets these: where the
names that lead to two files differ first, the file with the smaller one comes first. -/
structure Lists (t : FileTree α) (files : List (List String)) : Prop where
  mem_iff : ∀ names, names ∈ files ↔ ∃ content, t.at? names = some (.file content)
  ordered : files.Pairwise (· < ·)

/-- There is one such list at most. -/
theorem Lists.unique {files files' : List (List String)} (h : t.Lists files) (h' : t.Lists files') :
    files = files' := by
  have nodup : ∀ {names : List (List String)}, names.Pairwise (· < ·) → names.Nodup :=
      fun ordered =>
    ordered.imp fun {a b} (less : a < b) (same : a = b) => List.lt_irrefl b (same ▸ less)
  have perm : files.Perm files' :=
    (List.perm_ext_iff_of_nodup (nodup h.ordered) (nodup h'.ordered)).2 fun names =>
      (h.mem_iff names).trans (h'.mem_iff names).symm
  exact perm.eq_of_pairwise (fun _ _ _ _ less more =>
    absurd more (Std.Asymm.asymm _ _ less)) h.ordered h'.ordered

mutual

/-- The names that lead to the files of a tree. -/
def fileNames : FileTree α → List (List String)
  | .file _ => [[]]
  | .directory entries =>
    ((entryNames entries).mergeSort fun a b => a.1 ≤ b.1).flatMap fun e => e.2.map (e.1 :: ·)

/-- The names that lead to the files in each entry of a directory. -/
def entryNames : List (String × FileTree α) → List (String × List (List String))
  | [] => []
  | (name, t) :: es => (name, t.fileNames) :: entryNames es

end

private theorem entryNames_eq_map (entries : List (String × FileTree α)) :
    entryNames entries = entries.map fun e => (e.1, e.2.fileNames) := by
  induction entries with
  | nil => rfl
  | cons e entries ih => rw [entryNames, ih, List.map_cons]

private theorem entryPaths_eq_map (path : String) (entries : List (String × FileTree α)) :
    entryPaths path entries = entries.map fun e => (e.1, e.2.filePaths (Path.join path e.1)) := by
  induction entries with
  | nil => rfl
  | cons e entries ih => rw [entryPaths, ih, List.map_cons]

mutual

/-- What holds of files, and of directories if it holds of their entries, holds of all trees. -/
theorem induction {P : FileTree α → Prop} (file : ∀ content, P (.file content))
    (directory : ∀ entries, (∀ e ∈ entries, P e.2) → P (.directory entries)) : ∀ t, P t
  | .file content => file content
  | .directory entries => directory entries (entries_induction file directory entries)

theorem entries_induction {P : FileTree α → Prop} (file : ∀ content, P (.file content))
    (directory : ∀ entries, (∀ e ∈ entries, P e.2) → P (.directory entries)) :
    ∀ entries : List (String × FileTree α), ∀ e ∈ entries, P e.2
  | [] => List.forall_mem_nil _
  | e :: es => List.forall_mem_cons.2 ⟨FileTree.induction file directory e.2,
    entries_induction file directory es⟩

end

/-- Entries with different names are in the order of these once they are sorted. -/
theorem pairwise_lt_mergeSort {β : Type} {entries : List (String × β)}
    (h : (entries.map Prod.fst).Nodup) :
    (entries.mergeSort fun a b => a.1 ≤ b.1).Pairwise fun a b => a.1 < b.1 := by
  have sorted := @List.pairwise_mergeSort _ (fun a b : String × β => decide (a.1 ≤ b.1))
    (fun a b c hab hbc =>
      decide_eq_true (String.le_trans (of_decide_eq_true hab) (of_decide_eq_true hbc)))
    (fun a b => by simpa using String.le_total a.1 b.1) entries
  have distinct : (entries.mergeSort fun a b => a.1 ≤ b.1).Pairwise fun a b => a.1 ≠ b.1 :=
    List.pairwise_map.1 ((List.mergeSort_perm entries _).map Prod.fst |>.nodup_iff.2 h)
  refine sorted.imp₂ (fun a b hle hne => ?_) distinct
  exact String.not_le.1 fun hge => hne (String.le_antisymm (of_decide_eq_true hle) hge)

theorem lists_fileNames (h : t.IsProper) : t.Lists t.fileNames := by
  induction t using FileTree.induction with
  | file content =>
    refine ⟨fun names => ?_, List.pairwise_singleton _ _⟩
    cases names with
    | nil => simp [fileNames, at?]
    | cons name names => simp [fileNames, at?]
  | directory entries ih =>
    obtain ⟨distinct, -⟩ := h [] entries rfl
    have inner : ∀ e ∈ entries, e.2.Lists e.2.fileNames := fun e he => ih e he (h.entry e he)
    constructor
    · intro names
      rw [fileNames, entryNames_eq_map]
      simp only [List.mem_flatMap, List.mem_mergeSort, List.mem_map]
      constructor
      · rintro ⟨_, ⟨e, he, rfl⟩, more, hmore, rfl⟩
        rw [at?, lookup_of_mem distinct he]
        exact ((inner e he).mem_iff more).1 hmore
      · rintro ⟨content, hcontent⟩
        cases names with
        | nil => cases hcontent
        | cons name names =>
          obtain ⟨u, hu, hcontent⟩ := Option.bind_eq_some_iff.1 hcontent
          have he := mem_of_lookup hu
          exact ⟨_, ⟨(name, u), he, rfl⟩, names,
            ((inner (name, u) he).mem_iff names).2 ⟨content, hcontent⟩, rfl⟩
    · rw [fileNames, entryNames_eq_map, List.pairwise_flatMap]
      constructor
      · intro below hbelow
        obtain ⟨e, he, rfl⟩ := List.mem_map.1 (List.mem_mergeSort.1 hbelow)
        exact List.pairwise_map.2 ((inner e he).ordered.imp List.cons_lt_cons_self.2)
      · have names : ((entries.map fun e => (e.1, e.2.fileNames)).map Prod.fst).Nodup := by
          rwa [List.map_map]
        refine (pairwise_lt_mergeSort names).imp fun hlt x hx y hy => ?_
        obtain ⟨x, -, rfl⟩ := List.mem_map.1 hx
        obtain ⟨y, -, rfl⟩ := List.mem_map.1 hy
        exact List.cons_lt_cons_iff.2 (.inl hlt)

/-- The paths of the files are put together from the names that lead to them. -/
theorem filePaths_eq (t : FileTree α) (path : String) :
    t.filePaths path = t.fileNames.map (·.foldl Path.join path) := by
  induction t using FileTree.induction generalizing path with
  | file content => rfl
  | directory entries ih =>
    let below (e : String × List (List String)) : String × List String :=
      (e.1, e.2.map (·.foldl Path.join (Path.join path e.1)))
    have inner : entryPaths path entries = (entryNames entries).map below := by
      rw [entryPaths_eq_map, entryNames_eq_map, List.map_map]
      exact List.map_congr_left fun e he => Prod.ext rfl (ih e he (Path.join path e.1))
    have sorted : ((entryNames entries).map below).mergeSort (fun a b => a.1 ≤ b.1) =
        ((entryNames entries).mergeSort fun a b => a.1 ≤ b.1).map below :=
      (List.map_mergeSort (f := below) fun _ _ _ _ => rfl).symm
    rw [filePaths, fileNames, inner, sorted, List.flatMap_map, List.map_flatMap]
    refine congrArg (List.flatMap · _) (funext fun e => ?_)
    rw [List.map_map]
    rfl

end FileTree

end SchemaLang
