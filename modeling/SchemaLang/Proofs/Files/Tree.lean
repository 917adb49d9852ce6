import SchemaLang.Files.Discovery

/-!
# Writing to a file tree

Writing to a file changes what the file holds and nothing else: no other file, and not the shape of
the tree. What a path means and which files are found at and below it hang on the shape alone.
-/

namespace SchemaLang

namespace FileTree

variable {α β : Type}

mutual

/-- The tree with other contents. -/
def map (f : α → β) : FileTree α → FileTree β
  | .file content => .file (f content)
  | .directory entries => .directory (mapEntries f entries)

/-- The entries of a directory with other contents. -/
def mapEntries (f : α → β) : List (String × FileTree α) → List (String × FileTree β)
  | [] => []
  | (name, t) :: es => (name, t.map f) :: mapEntries f es

end

/-- The tree without what its files hold. -/
def shape (t : FileTree α) : FileTree Unit := t.map fun _ => ()

private theorem lookup_mapEntries (f : α → β) (name : String) (es : List (String × FileTree α)) :
    (mapEntries f es).lookup name = (es.lookup name).map (map f) := by
  induction es with
  | nil => rfl
  | cons e es ih =>
    obtain ⟨k, t⟩ := e
    rw [mapEntries, List.lookup_cons, List.lookup_cons, ih]
    cases name == k <;> rfl

private theorem at?_map (f : α → β) (names : List String) (t : FileTree α) :
    (t.map f).at? names = (t.at? names).map (map f) := by
  induction names generalizing t with
  | nil => rfl
  | cons name names ih =>
    cases t with
    | file c => rfl
    | directory es =>
      rw [map, at?, at?, lookup_mapEntries]
      cases es.lookup name with
      | none => rfl
      | some t => exact ih t

mutual

theorem filePaths_map (f : α → β) :
    ∀ (path : String) (t : FileTree α), filePaths path (t.map f) = filePaths path t
  | _, .file _ => rfl
  | path, .directory es => by rw [map, filePaths, filePaths, entryPaths_map f path es]

theorem entryPaths_map (f : α → β) : ∀ (path : String) (es : List (String × FileTree α)),
    entryPaths path (mapEntries f es) = entryPaths path es
  | _, [] => rfl
  | path, (name, t) :: es => by
    rw [mapEntries, entryPaths, entryPaths, filePaths_map f (Path.join path name) t,
      entryPaths_map f path es]

end

private theorem isDirectoryAt_map (f : α → β) (t : FileTree α) (names : List String) :
    (t.map f).isDirectoryAt names = t.isDirectoryAt names := by
  rw [isDirectoryAt, isDirectoryAt, at?_map]
  cases t.at? names with
  | none => rfl
  | some t => cases t <;> rfl

private theorem step_map (f : α → β) (t : FileTree α) : (t.map f).step = t.step := by
  funext names part
  unfold step
  rw [isDirectoryAt_map, at?_map, Option.isSome_map]

private theorem resolve_map (f : α → β) (t : FileTree α) (path : String) :
    (t.map f).resolve path = t.resolve path := by
  rw [resolve, resolve, step_map]

private theorem lookup_map (f : α → β) (t : FileTree α) (path : String) :
    (t.map f).lookup path = (t.lookup path).map (map f) := by
  rw [lookup, lookup, resolve_map]
  cases t.resolve path with
  | none => rfl
  | some names => exact at?_map f names t

/-- What a path means hangs on the shape of the tree. -/
theorem resolve_of_shape {t t' : FileTree α} (h : t'.shape = t.shape) (path : String) :
    t'.resolve path = t.resolve path := by
  rw [← resolve_map (fun _ => ()) t', ← resolve_map (fun _ => ()) t]
  exact congrArg (resolve · path) h

/-- What the file at the end of some names holds, if there is a file. -/
def contentAt (t : FileTree α) (names : List String) : Option α :=
  match t.at? names with
  | some (.file c) => some c
  | _ => none

private theorem contentAt_map (f : α → β) (t : FileTree α) (names : List String) :
    (t.map f).contentAt names = (t.contentAt names).map f := by
  rw [contentAt, contentAt, at?_map]
  cases t.at? names with
  | none => rfl
  | some u => cases u <;> rfl

/-- Where files are hangs on the shape of the tree. -/
theorem contentAt_eq_none_of_shape {t t' : FileTree α} (h : t'.shape = t.shape)
    {names : List String} : t'.contentAt names = none ↔ t.contentAt names = none := by
  have same : t'.shape.contentAt names = t.shape.contentAt names := by rw [h]
  rw [shape, shape, contentAt_map, contentAt_map] at same
  rw [← Option.map_eq_none_iff, same, Option.map_eq_none_iff]

theorem read?_eq (t : FileTree α) (path : String) :
    t.read? path = (t.resolve path).bind t.contentAt := by
  rw [read?, lookup]
  cases t.resolve path with
  | none => rfl
  | some names =>
    change (t.at? names).bind _ = t.contentAt names
    rw [contentAt]
    cases t.at? names with
    | none => rfl
    | some u => cases u <;> rfl

private theorem lookup_modifyEntry (name other : String) (f : FileTree α → FileTree α)
    (es : List (String × FileTree α)) : (modifyEntry name f es).lookup other =
      if other = name then (es.lookup other).map f else es.lookup other := by
  induction es with
  | nil => simp [modifyEntry]
  | cons e es ih =>
    obtain ⟨k, t⟩ := e
    rw [modifyEntry]
    by_cases hk : k = name
    · subst hk
      rw [if_pos rfl, List.lookup_cons, List.lookup_cons]
      by_cases ho : other = k
      · simp [ho]
      · rw [if_neg ho, beq_false_of_ne ho]
    · rw [if_neg hk, List.lookup_cons, List.lookup_cons, ih]
      by_cases ho : other = k
      · simp [ho, hk]
      · rw [beq_false_of_ne ho]

private theorem mapEntries_modifyEntry (f : α → β) (name : String) (g : FileTree α → FileTree α)
    (hg : ∀ t, (g t).map f = t.map f) (es : List (String × FileTree α)) :
    mapEntries f (modifyEntry name g es) = mapEntries f es := by
  induction es with
  | nil => rfl
  | cons e es ih =>
    obtain ⟨k, t⟩ := e
    rw [modifyEntry]
    split
    · rw [mapEntries, mapEntries, hg]
    · rw [mapEntries, mapEntries, ih]

/-- Writing does not change the shape of a tree. -/
theorem shape_setAt (content : α) (names : List String) (t : FileTree α) :
    (setAt content names t).shape = t.shape := by
  induction names generalizing t with
  | nil => cases t <;> rfl
  | cons name names ih =>
    cases t with
    | file c => rfl
    | directory es =>
      exact congrArg FileTree.directory (mapEntries_modifyEntry (fun _ => ()) name _ ih es)

/-- Writing changes what one file holds. -/
theorem contentAt_setAt (content : α) (names other : List String) (t : FileTree α) :
    (setAt content names t).contentAt other =
      if other = names then (t.contentAt other).map fun _ => content else t.contentAt other := by
  induction names generalizing t other with
  | nil =>
    cases other with
    | nil => cases t <;> rfl
    | cons o other => cases t <;> rfl
  | cons name names ih =>
    cases t with
    | file c => cases other <;> simp [setAt, contentAt, at?]
    | directory es =>
      cases other with
      | nil => rfl
      | cons o other =>
        have inside : ∀ es : List (String × FileTree α),
            (FileTree.directory es).contentAt (o :: other) = (es.lookup o).bind fun t =>
            t.contentAt other := by
          intro es
          rw [contentAt, at?]
          cases es.lookup o <;> rfl
        rw [setAt, inside, inside, lookup_modifyEntry]
        by_cases ho : o = name
        · subst ho
          rw [if_pos rfl]
          cases es.lookup o with
          | none => simp
          | some t =>
            change (setAt content names t).contentAt other = _
            rw [ih]
            simp
        · rw [if_neg ho, if_neg (by simp [ho])]

private theorem shape_write (t : FileTree α) (path : String) (content : α) :
    (t.write path content).shape = t.shape := by
  rw [write]
  split
  · rfl
  · exact shape_setAt content _ t

private theorem contentAt_write (t : FileTree α) (path : String) (content : α)
    (names : List String) : (t.write path content).contentAt names =
      if t.resolve path = some names then (t.contentAt names).map fun _ =>
      content else t.contentAt names := by
  rw [write]
  cases h : t.resolve path with
  | none => simp
  | some found =>
    simp only [contentAt_setAt, Option.some.injEq]
    by_cases hn : names = found
    · rw [if_pos hn, if_pos hn.symm]
    · rw [if_neg hn, if_neg fun h => hn h.symm]

/-- Writes one after the other. -/
def writeAll (t : FileTree α) (ws : List (String × α)) : FileTree α :=
  ws.foldl (fun t w => t.write w.1 w.2) t

theorem shape_writeAll (t : FileTree α) (ws : List (String × α)) :
    (t.writeAll ws).shape = t.shape := by
  induction ws generalizing t with
  | nil => rfl
  | cons w ws ih => exact (ih (t.write w.1 w.2)).trans (t.shape_write w.1 w.2)

/-- A file that no write goes to keeps what it holds. -/
theorem contentAt_writeAll_of_not_mem {t : FileTree α} {ws : List (String × α)}
    {names : List String} (h : ∀ w ∈ ws, t.resolve w.1 ≠ some names) :
    (t.writeAll ws).contentAt names = t.contentAt names := by
  induction ws generalizing t with
  | nil => rfl
  | cons w ws ih =>
    obtain ⟨hw, hws⟩ := List.forall_mem_cons.1 h
    have later : ∀ w' ∈ ws, (t.write w.1 w.2).resolve w'.1 ≠ some names := by
      intro w' hw'
      rw [resolve_of_shape (t.shape_write w.1 w.2)]
      exact hws w' hw'
    exact (ih later).trans (by rw [contentAt_write, if_neg hw])

/-- A file that all writes to it give the same content holds that content. -/
theorem contentAt_writeAll_of_mem {t : FileTree α} {ws : List (String × α)}
    {names : List String} {old new : α} (hold : t.contentAt names = some old)
    (hmem : ∃ w ∈ ws, t.resolve w.1 = some names)
    (hnew : ∀ w ∈ ws, t.resolve w.1 = some names → w.2 = new) :
    (t.writeAll ws).contentAt names = some new := by
  induction ws generalizing t old with
  | nil => simp at hmem
  | cons w ws ih =>
    have later : ∀ path, (t.write w.1 w.2).resolve path = t.resolve path :=
      resolve_of_shape (t.shape_write w.1 w.2)
    have written := contentAt_write t w.1 w.2 names
    change ((t.write w.1 w.2).writeAll ws).contentAt names = some new
    -- The last write to the file decides: either there is one among the others, or it is this one.
    by_cases hrest : ∃ w' ∈ ws, t.resolve w'.1 = some names
    · obtain ⟨w', hw', hpath⟩ := hrest
      have between : ∃ c, (t.write w.1 w.2).contentAt names = some c := by
        rw [written, hold]
        split
        · exact ⟨_, rfl⟩
        · exact ⟨_, rfl⟩
      obtain ⟨c, hc⟩ := between
      refine ih hc ⟨w', hw', by rw [later, hpath]⟩ fun v hv hpath => ?_
      rw [later] at hpath
      exact hnew v (List.mem_cons_of_mem w hv) hpath
    · have none : ∀ w' ∈ ws, (t.write w.1 w.2).resolve w'.1 ≠ some names := by
        intro w' hw' hpath
        rw [later] at hpath
        exact hrest ⟨w', hw', hpath⟩
      obtain ⟨v, hv, hpath⟩ := hmem
      have first : v = w := by
        rcases List.mem_cons.1 hv with rfl | hv
        · rfl
        · exact absurd ⟨v, hv, hpath⟩ hrest
      subst first
      rw [contentAt_writeAll_of_not_mem none, written, if_pos hpath, hold, Option.map_some,
        hnew v List.mem_cons_self hpath]

end FileTree

namespace Discovery

/-- Which files are found hangs on the shape of the tree. -/
theorem discover_map {α β : Type} (f : α → β) (t : FileTree α) (roots exts : List String) :
    discover (t.map f).lookup roots exts = discover t.lookup roots exts := by
  have paths : candidates (t.map f).lookup roots = candidates t.lookup roots := by
    refine congrArg (roots.flatMap ·) (funext fun root => ?_)
    rw [FileTree.lookup_map]
    cases t.lookup root with
    | none => rfl
    | some u => exact FileTree.filePaths_map f root u
  have missing : (roots.filter fun root => ((t.map f).lookup root).isNone) =
      roots.filter fun root => (t.lookup root).isNone := by
    refine congrArg (roots.filter ·) (funext fun root => ?_)
    rw [FileTree.lookup_map, Option.isNone_map]
  have lone : lone? (t.map f).lookup roots = lone? t.lookup roots := by
    rcases roots with _ | ⟨root, _ | ⟨other, roots⟩⟩
    · rfl
    · rw [lone?, lone?, FileTree.lookup_map]
      cases t.lookup root with
      | none => rfl
      | some u => cases u <;> rfl
    · rfl
  simp only [discover, paths, missing, lone]

theorem discover_of_shape {α : Type} {t t' : FileTree α} (h : t'.shape = t.shape)
    (roots exts : List String) : discover t'.lookup roots exts = discover t.lookup roots exts := by
  rw [← discover_map (fun _ => ()) t', ← discover_map (fun _ => ()) t]
  exact congrArg (fun u : FileTree Unit => discover u.lookup roots exts) h

end Discovery

end SchemaLang
