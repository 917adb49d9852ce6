import Mathlib.Data.List.TakeWhile
import SchemaLang.Files.Path

/-!
# Names and extensions of files

What a file is called is the last part of its path, and its extension is what stands behind the last
dot of that. Whether the extension is a wanted one hangs only on what is behind the dots of the
extensions that were given and on their letters, and not on how often, in which order or in which
case these were written.
-/

namespace SchemaLang

namespace Path

section Last

variable {c : Char} {cs front ending : List Char}

/-- The text behind the last one of a character, or the whole text. -/
theorem takeWhile_reverse_append (h : c ∉ ending) (front : List Char) :
    ((front ++ c :: ending).reverse.takeWhile (· ≠ c)).reverse = ending := by
  have plain : ∀ d ∈ ending.reverse, decide (d ≠ c) = true := by
    intro d hd
    have other : d ≠ c := fun same => h (same ▸ List.mem_reverse.1 hd)
    exact decide_eq_true other
  rw [List.reverse_append, List.reverse_cons, List.append_assoc, List.takeWhile_append_of_pos plain]
  simp

private theorem takeWhile_reverse_of_not_mem (h : c ∉ cs) :
    (cs.reverse.takeWhile (· ≠ c)).reverse = cs := by
  have plain : ∀ d ∈ cs.reverse, decide (d ≠ c) = true := by
    intro d hd
    have other : d ≠ c := fun same => h (same ▸ List.mem_reverse.1 hd)
    exact decide_eq_true other
  rw [List.takeWhile_eq_self_iff.2 plain, List.reverse_reverse]

/-- A text is cut at the last one of a character. -/
theorem exists_last_of_mem (h : c ∈ cs) :
    ∃ front ending, cs = front ++ c :: ending ∧ c ∉ ending := by
  obtain ⟨behind, before, hcs, last⟩ := List.eq_append_cons_of_mem (List.mem_reverse.2 h)
  refine ⟨before.reverse, behind.reverse, ?_, fun hc => last (List.mem_reverse.1 hc)⟩
  rw [← List.reverse_reverse cs, hcs]
  simp

end Last

private theorem fileName_append {path : String} {front name : List Char}
    (hpath : path.toList = front ++ '/' :: name) (hname : '/' ∉ name) : fileName path = name := by
  rw [fileName, hpath]
  exact takeWhile_reverse_append hname front

/-- An entry of a directory is called what it is called there. -/
theorem fileName_join {name : String} (hname : '/' ∉ name.toList) (path : String) :
    fileName (join path name) = name.toList := by
  unfold join
  split
  · rename_i hslash
    obtain ⟨front, hfront⟩ := List.getLast?_eq_some_iff.1 hslash
    have whole : (path ++ name).toList = front ++ '/' :: name.toList := by
      rw [String.toList_append, hfront, List.append_assoc]
      rfl
    exact fileName_append whole hname
  · have whole : (path ++ "/" ++ name).toList = path.toList ++ '/' :: name.toList := by
      rw [String.toList_append, String.toList_append, List.append_assoc]
      rfl
    exact fileName_append whole hname

/-- The last part of a path is what it calls a file. -/
theorem exists_parts (path : String) :
    ∃ init, parts path = init ++ [String.ofList (fileName path)] := by
  have slash : ∀ cs : List Char, '/' ∉ cs → cs.splitOn '/' = [cs] := by
    intro cs plain
    refine List.splitOnP_eq_singleton fun d hd => ?_
    have other : d ≠ '/' := fun same => plain (same ▸ hd)
    exact beq_false_of_ne other
  by_cases h : '/' ∈ path.toList
  · obtain ⟨front, name, hpath, hname⟩ := exists_last_of_mem h
    refine ⟨(front.splitOn '/').map String.ofList, ?_⟩
    have cut : (front ++ '/' :: name).splitOn '/' = front.splitOn '/' ++ name.splitOn '/' :=
      List.splitOnP_append_cons front name (beq_self_eq_true '/')
    rw [parts, fileName_append hpath hname, hpath, cut, slash name hname, List.map_append]
    rfl
  · refine ⟨[], ?_⟩
    rw [parts, slash _ h, fileName, takeWhile_reverse_of_not_mem h]
    rfl

/-- What stands behind the last dot of a name, where that dot does not come first. -/
def EndsInExtension (name ext : List Char) : Prop :=
  ∃ stem, stem ≠ [] ∧ name = stem ++ '.' :: ext ∧ '.' ∉ ext

private theorem extension?_eq_some_iff {name ext : List Char} :
    extension? name = some ext ↔ EndsInExtension name ext := by
  unfold extension?
  constructor
  · intro h
    by_cases dotted : '.' ∈ name
    · obtain ⟨stem, ending, rfl, plain⟩ := exists_last_of_mem dotted
      simp only [takeWhile_reverse_append plain] at h
      split at h
      · rename_i longer
        obtain rfl := Option.some.inj h
        refine ⟨stem, ?_, rfl, plain⟩
        rintro rfl
        simp at longer
      · cases h
    · simp only [takeWhile_reverse_of_not_mem dotted] at h
      split at h
      · omega
      · cases h
  · rintro ⟨stem, hstem, rfl, plain⟩
    have longer : ext.length + 1 < (stem ++ '.' :: ext).length := by
      have some := List.length_pos_iff.2 hstem
      simp only [List.length_append, List.length_cons]
      omega
    simp only [takeWhile_reverse_append plain]
    exact if_pos longer

/-- An extension as it was given stands for the one in small letters behind its dots, if
there is anything. -/
def StandsFor (given : String) (ext : List Char) : Prop :=
  ∃ dots rest, (∀ c ∈ dots, c = '.') ∧ rest.head? ≠ some '.' ∧ rest ≠ [] ∧
    given.toList = dots ++ rest ∧ ext = rest.map Char.toLower

private theorem standsFor_iff {given : String} {ext : List Char} :
    StandsFor given ext ↔ ext ≠ [] ∧ normalizeExtension given = String.ofList ext := by
  have cut :=
    List.takeWhile_append_dropWhile (p := fun c : Char => decide (c = '.')) (l := given.toList)
  constructor
  · rintro ⟨dots, rest, hdots, hhead, hrest, hgiven, rfl⟩
    refine ⟨mt List.map_eq_nil_iff.1 hrest, ?_⟩
    have dropped : (dots ++ rest).dropWhile (· = '.') = rest := by
      rw [List.dropWhile_append_of_pos fun c hc => decide_eq_true (hdots c hc)]
      obtain ⟨c, rest, rfl⟩ := List.exists_cons_of_ne_nil hrest
      have other : c ≠ '.' := fun same => hhead (congrArg some same)
      exact List.dropWhile_cons_of_neg (by simpa using other)
    rw [normalizeExtension, hgiven, dropped]
  · rintro ⟨hext, hgiven⟩
    have same : (given.toList.dropWhile (· = '.')).map Char.toLower = ext := by
      have := congrArg String.toList hgiven
      rwa [normalizeExtension, String.toList_ofList, String.toList_ofList] at this
    refine ⟨_, _, fun c hc => ?_, fun hhead => ?_, ?_, cut.symm, same.symm⟩
    · exact of_decide_eq_true (List.all_eq_true.1 List.all_takeWhile c hc)
    · have stops := List.head?_dropWhile_not (fun c : Char => decide (c = '.')) given.toList
      rw [hhead] at stops
      simp at stops
    · rintro nothing
      rw [nothing] at same
      exact hext same.symm

private theorem mem_normalizeExtensions {exts : List String} {ext : List Char} :
    String.ofList ext ∈ normalizeExtensions exts ↔ ∃ given ∈ exts, StandsFor given ext := by
  have nonempty : String.ofList ext ≠ "" ↔ ext ≠ [] := by
    rw [ne_eq, ← String.toList_inj, String.toList_ofList]
    rfl
  simp only [normalizeExtensions, List.mem_mergeSort, List.mem_eraseDups,
    List.mem_filter, List.mem_map, decide_eq_true_eq, nonempty, standsFor_iff]
  constructor
  · rintro ⟨⟨given, hgiven, same⟩, hext⟩
    exact ⟨given, hgiven, hext, same⟩
  · rintro ⟨given, hgiven, hext, same⟩
    exact ⟨⟨given, hgiven, same⟩, hext⟩

/-- A file's name ends in an extension which, in small letters, one of the given ones stands for. -/
def IsWanted (exts : List String) (name : List Char) : Prop :=
  ∃ ext, EndsInExtension name ext ∧ ∃ given ∈ exts, StandsFor given (ext.map Char.toLower)

instance (exts : List String) (name : List Char) : Decidable (IsWanted exts name) :=
  decidable_of_iff (∃ ext ∈ extension? name, String.ofList (ext.map Char.toLower) ∈
    normalizeExtensions exts) (by
    simp only [IsWanted, Option.mem_def, extension?_eq_some_iff, mem_normalizeExtensions])

theorem hasExtension_iff {exts : List String} {path : String} :
    hasExtension (normalizeExtensions exts) path = true ↔ IsWanted exts (fileName path) := by
  unfold hasExtension IsWanted
  simp only [← extension?_eq_some_iff]
  cases extension? (fileName path) with
  | none => simp
  | some ext => simp [mem_normalizeExtensions]

/-- The extension with its letters in other cases and with some dots more in front. -/
def Respells (ext ext' : String) : Prop :=
  ∃ dots rest, (∀ c ∈ dots, c = '.') ∧ ext'.toList = dots ++ rest ∧
    rest.map Char.toLower = ext.toList.map Char.toLower

/-- Lists of extensions that differ in the order, in repetitions, in what is empty behind its dots,
and in spelling. -/
inductive SameExtensions : List String → List String → Prop
  | permuted {exts exts' : List String} (h : exts.Perm exts') : SameExtensions exts exts'
  | repeated {ext : String} {exts : List String} (h : ext ∈ exts) :
    SameExtensions exts (ext :: exts)
  | blank {ext : String} (exts : List String) (h : ∀ c ∈ ext.toList, c = '.') :
    SameExtensions exts (ext :: exts)
  | respelled {ext ext' : String} (exts : List String) (h : Respells ext ext') :
    SameExtensions (ext :: exts) (ext' :: exts)
  | symm {exts exts' : List String} (h : SameExtensions exts exts') : SameExtensions exts' exts
  | trans {exts exts' exts'' : List String} (h : SameExtensions exts exts')
    (h' : SameExtensions exts' exts'') :
    SameExtensions exts exts''

/-- No letter stands for a dot in another case. -/
theorem toLower_eq_dot_iff {c : Char} : c.toLower = '.' ↔ c = '.' := by
  unfold Char.toLower
  split
  · rename_i upper
    have first : 65 ≤ c.val.toNat := upper.1
    have last : c.val.toNat ≤ 90 := upper.2
    constructor
    · intro h
      have lowered : (c.val + 32).toNat = 46 := congrArg (fun c => c.val.toNat) h
      rw [UInt32.toNat_add] at lowered
      change (c.val.toNat + 32) % _ = 46 at lowered
      omega
    · rintro rfl
      exact absurd first (by decide)
  · rfl

private theorem normalizeExtension_eq (ext : String) :
    normalizeExtension ext = String.ofList ((ext.toList.map Char.toLower).dropWhile (· = '.')) := by
  have dots : (fun c : Char => decide (c = '.')) ∘ Char.toLower = fun c => decide (c = '.') := by
    funext c
    exact decide_eq_decide.2 toLower_eq_dot_iff
  rw [normalizeExtension, List.dropWhile_map, dots]

private theorem normalizeExtension_of_respells {ext ext' : String} (h : Respells ext ext') :
    normalizeExtension ext' = normalizeExtension ext := by
  obtain ⟨dots, rest, hdots, hext', hrest⟩ := h
  have small : ∀ c ∈ dots.map Char.toLower, decide (c = '.') = true :=
    List.forall_mem_map.2 fun d hd => decide_eq_true (toLower_eq_dot_iff.2 (hdots d hd))
  rw [normalizeExtension_eq, normalizeExtension_eq, hext', List.map_append,
    List.dropWhile_append_of_pos small, hrest]

/-- The same extensions, given in another way, stand for the same. -/
theorem SameExtensions.standsFor {exts exts' : List String} (h : SameExtensions exts exts')
    (ext : List Char) :
    (∃ given ∈ exts', StandsFor given ext) ↔ ∃ given ∈ exts, StandsFor given ext := by
  induction h with
  | permuted h => simp only [h.mem_iff]
  | @repeated given exts h =>
    constructor
    · rintro ⟨given', hmem, stands⟩
      rcases List.mem_cons.1 hmem with rfl | hmem
      · exact ⟨_, h, stands⟩
      · exact ⟨_, hmem, stands⟩
    · rintro ⟨given', hmem, stands⟩
      exact ⟨given', List.mem_cons_of_mem _ hmem, stands⟩
  | @blank given exts h =>
    have nothing : ¬StandsFor given ext := by
      rintro ⟨dots, rest, -, hhead, hrest, hgiven, -⟩
      obtain ⟨c, rest, rfl⟩ := List.exists_cons_of_ne_nil hrest
      have dot : c = '.' := h c (hgiven ▸ List.mem_append_right dots List.mem_cons_self)
      exact hhead (congrArg some dot)
    simp [nothing]
  | respelled exts h => simp [standsFor_iff, normalizeExtension_of_respells h]
  | symm _ ih => exact ih.symm
  | trans _ _ ih ih' => exact ih'.trans ih

theorem SameExtensions.isWanted_iff {exts exts' : List String} (h : SameExtensions exts exts')
    (name : List Char) : IsWanted exts' name ↔ IsWanted exts name := by
  simp only [IsWanted, h.standsFor]

theorem SameExtensions.hasExtension {exts exts' : List String} (h : SameExtensions exts exts') :
    Path.hasExtension (normalizeExtensions exts') =
      Path.hasExtension (normalizeExtensions exts) := by
  funext path
  rw [Bool.eq_iff_iff, hasExtension_iff, hasExtension_iff, h.isWanted_iff]

end Path

end SchemaLang
