import Mathlib.Data.List.DropRight
import SchemaLang.Token.Scan

/-!
# The vocabulary of documents

Which texts are names, numbers and descriptions, said without regard to how they are read. Reading a
text that is one of them, in front of a character that could not go on with it, gives it back as a
token; and every token that is read has a text of the sort it claims.
-/

namespace SchemaLang

/-- A letter or an underscore, then letters, digits and underscores. -/
def IsName (text : String) : Prop :=
  ∃ c cs, text.toList = c :: cs ∧ isNameStart c ∧ ∀ x ∈ cs, isNameChar x

instance (text : String) : Decidable (IsName text) :=
  match h : text.toList with
  | [] => isFalse fun ⟨_, _, hcs, _⟩ => List.cons_ne_nil _ _ (hcs.symm.trans h)
  | c :: cs =>
    decidable_of_iff (isNameStart c ∧ cs.all isNameChar) (by
      rw [List.all_eq_true]
      constructor
      · intro hc
        exact ⟨c, cs, h, hc⟩
      · rintro ⟨_, _, hcs, hc⟩
        obtain ⟨rfl, rfl⟩ := List.cons.inj (h.symm.trans hcs)
        exact hc)

/-- One or more digits. -/
def IsDigits (ds : List Char) : Prop := ds ≠ [] ∧ ∀ d ∈ ds, d.isDigit

/-- A zero, or digits that start with none. -/
def IsWhole (w : List Char) : Prop := w = ['0'] ∨ IsDigits w ∧ w.head? ≠ some '0'

/-- A point and digits, or nothing. -/
def IsFraction (f : List Char) : Prop := f = [] ∨ ∃ ds, f = '.' :: ds ∧ IsDigits ds

/-- A letter for the exponent, a sign or none, and digits; or nothing. -/
def IsExponent (e : List Char) : Prop :=
  e = [] ∨ ∃ letter sign ds, e = letter :: sign ++ ds ∧ (letter = 'e' ∨ letter = 'E') ∧
    (sign = [] ∨ sign = ['+'] ∨ sign = ['-']) ∧ IsDigits ds

/-- A number; `isFloat` says whether it has a fraction or an exponent. -/
def IsNumber (text : String) (isFloat : Bool) : Prop :=
  ∃ sign w f e, text.toList = sign ++ w ++ f ++ e ∧ (sign = [] ∨ sign = ['-']) ∧
    IsWhole w ∧ IsFraction f ∧ IsExponent e ∧ (isFloat = true ↔ f ++ e ≠ [])

/-- A line of a description: no white space around it and no CR in it. -/
def IsDescriptionLine (line : List Char) : Prop := Text.trim line = line ∧ '\r' ∉ line

/-- A description: each of its lines, between line feeds, is one of a description. -/
def IsDescription (text : String) : Prop :=
  ∀ line ∈ text.toList.splitOn '\n', IsDescriptionLine line

/-- A line up to its first CR, at which a description ends. -/
def Text.beforeReturn (line : List Char) : List Char := line.takeWhile fun c => c != '\r'

/-- A line from its first CR on. -/
def Text.fromReturn (line : List Char) : List Char := line.dropWhile fun c => c != '\r'

theorem Text.beforeReturn_append_fromReturn (line : List Char) :
    beforeReturn line ++ fromReturn line = line :=
  List.takeWhile_append_dropWhile

theorem Text.fromReturn_of_not_mem {line : List Char} (h : '\r' ∉ line) : fromReturn line = [] :=
  List.dropWhile_eq_nil_iff.2 fun c hc => by simpa using fun he : c = '\r' => h (he ▸ hc)

/-- A line that is read to its end in a description: behind its first CR there is nothing but white
space that may stand between tokens. -/
def Text.IsUnbroken (line : List Char) : Prop :=
  ∀ c ∈ fromReturn line, c = ' ' ∨ c = '\t' ∨ c = '\r'

instance (line : List Char) : Decidable (Text.IsUnbroken line) :=
  List.decidableBAll (fun c => c = ' ' ∨ c = '\t' ∨ c = '\r') (Text.fromReturn line)

/-- A text of which each line, between line feeds, is read to its end. -/
def Text.HasUnbrokenLines (text : String) : Prop :=
  ∀ line ∈ text.toList.splitOn '\n', IsUnbroken line

instance (text : String) : Decidable (Text.HasUnbrokenLines text) :=
  List.decidableBAll Text.IsUnbroken (text.toList.splitOn '\n')

/-- A text with each of its lines, between line feeds, trimmed of white space. -/
def Text.trimLines (text : String) : String :=
  String.ofList (['\n'].intercalate ((text.toList.splitOn '\n').map trim))

/-- Whether the token is a line of a description. -/
def Token.isDescription : Token → Bool
  | .description _ => true
  | _ => false

/-- A token whose text is of the sort it claims. -/
def Token.IsValid : Token → Prop
  | .name text => IsName text
  | .int text => IsNumber text false
  | .float text => IsNumber text true
  | .description text => IsDescriptionLine text.toList ∧ '\n' ∉ text.toList
  | _ => True

/-- What may follow a name or a number without becoming part of it. -/
def Breaks (rest : List Char) : Prop := ∀ c ∈ rest.head?, isNameChar c = false ∧ c ≠ '.'

-- There are finitely many characters: without its name, the instance found would go
-- through all of them.
instance (rest : List Char) : Decidable (Breaks rest) := Option.decidableForallMem rest.head?

theorem Breaks.nil : Breaks [] := by simp [Breaks]

theorem Breaks.cons {c : Char} {cs : List Char} (h : isNameChar c = false ∧ c ≠ '.') :
    Breaks (c :: cs) := by
  simpa [Breaks] using h

theorem Breaks.append {cs ds : List Char} (hc : Breaks cs) (hd : Breaks ds) :
    Breaks (cs ++ ds) := by
  cases cs with
  | nil => exact hd
  | cons c cs => exact hc

private theorem isNameChar_of_isDigit {c : Char} (h : c.isDigit) : isNameChar c := by
  simp [isNameChar, Char.isAlphanum, h]

theorem isNameChar_of_isName {text : String} (h : IsName text) :
    ∀ c ∈ text.toList, isNameChar c := by
  obtain ⟨c, cs, htext, hc, hcs⟩ := h
  rw [htext]
  exact List.forall_mem_cons.2 ⟨isNameChar_of_isNameStart hc, hcs⟩

/-- The characters that numbers are made of. -/
def isNumberChar (c : Char) : Bool := c.isDigit || ['+', '-', '.', 'e', 'E'].contains c

private theorem isNumberChar_of_isDigits {ds : List Char} (h : IsDigits ds) :
    ∀ c ∈ ds, isNumberChar c :=
  fun c hc => by simp [isNumberChar, h.2 c hc]

theorem isNumberChar_of_isWhole {w : List Char} (h : IsWhole w) : ∀ c ∈ w, isNumberChar c := by
  rcases h with rfl | ⟨hdigits, -⟩
  · exact List.forall_mem_singleton.2 rfl
  · exact isNumberChar_of_isDigits hdigits

theorem isNumberChar_of_isFraction {f : List Char} (h : IsFraction f) :
    ∀ c ∈ f, isNumberChar c := by
  rcases h with rfl | ⟨ds, rfl, hdigits⟩
  · exact List.forall_mem_nil _
  · exact List.forall_mem_cons.2 ⟨rfl, isNumberChar_of_isDigits hdigits⟩

theorem isNumberChar_of_isExponent {e : List Char} (h : IsExponent e) :
    ∀ c ∈ e, isNumberChar c := by
  rcases h with rfl | ⟨letter, sign, ds, rfl, hletter, hsign, hdigits⟩
  · exact List.forall_mem_nil _
  · have letters : isNumberChar letter := by rcases hletter with rfl | rfl <;> rfl
    have signs : ∀ c ∈ sign, isNumberChar c := by
      rcases hsign with rfl | rfl | rfl
      · exact List.forall_mem_nil _
      · exact List.forall_mem_singleton.2 rfl
      · exact List.forall_mem_singleton.2 rfl
    exact List.forall_mem_cons.2 ⟨letters,
      List.forall_mem_append.2 ⟨signs, isNumberChar_of_isDigits hdigits⟩⟩

theorem isNumberChar_of_isNumber {text : String} {isFloat : Bool} (h : IsNumber text isFloat) :
    ∀ c ∈ text.toList, isNumberChar c := by
  obtain ⟨sign, w, f, e, htext, hsign, hw, hf, he, -⟩ := h
  have signs : ∀ c ∈ sign, isNumberChar c := by
    rcases hsign with rfl | rfl
    · exact List.forall_mem_nil _
    · exact List.forall_mem_singleton.2 rfl
  rw [htext]
  exact List.forall_mem_append.2 ⟨List.forall_mem_append.2 ⟨List.forall_mem_append.2
    ⟨signs, isNumberChar_of_isWhole hw⟩, isNumberChar_of_isFraction hf⟩,
    isNumberChar_of_isExponent he⟩

theorem Breaks.not_isDigit {rest : List Char} (h : Breaks rest) :
    ∀ c ∈ rest.head?, c.isDigit = false := by
  intro c hc
  cases hd : c.isDigit with
  | false => rfl
  | true =>
    have hn := isNameChar_of_isDigit hd
    rw [(h c hc).1] at hn
    exact hn.symm

/-- A run of characters that satisfy `p` is taken as a whole if what follows does not
go on with it. -/
theorem takeWhile_append_of_stop {p : Char → Bool} {cs rest : List Char} (hc : ∀ c ∈ cs, p c)
    (hr : ∀ c ∈ rest.head?, p c = false) :
    (cs ++ rest).takeWhile p = cs ∧ (cs ++ rest).dropWhile p = rest := by
  have hstop : rest.takeWhile p = [] ∧ rest.dropWhile p = rest := by
    cases rest with
    | nil => simp
    | cons c rest => simp [hr c (by simp)]
  rw [List.takeWhile_append_of_pos hc, List.dropWhile_append_of_pos hc, hstop.1, hstop.2,
    List.append_nil]
  exact ⟨rfl, rfl⟩

namespace Text

private theorem trimEnd_eq_rdropWhile (cs : List Char) : trimEnd cs = cs.rdropWhile isBlank := rfl

/-- No white space is left at the start once it was dropped, also not after dropping
it at the end. -/
theorem dropWhile_trim (cs : List Char) : (trim cs).dropWhile isBlank = trim cs := by
  obtain ⟨tail, htail⟩ := List.rdropWhile_prefix isBlank (cs.dropWhile isBlank)
  change trim cs ++ tail = _ at htail
  cases htrim : trim cs with
  | nil => rfl
  | cons c ds =>
    have hne : cs.dropWhile isBlank ≠ [] := by rw [← htail, htrim]; exact List.cons_ne_nil _ _
    have hhead : c = (cs.dropWhile isBlank).head hne := by simp only [← htail, htrim]; rfl
    have hc : isBlank c = false := by rw [hhead]; exact List.head_dropWhile_not isBlank hne
    rw [List.dropWhile_cons_of_neg (by simp [hc])]

/-- Trimming twice is trimming once. -/
theorem trim_trim (cs : List Char) : trim (trim cs) = trim cs := by
  rw [trim, dropWhile_trim, trim, trimEnd_eq_rdropWhile, trimEnd_eq_rdropWhile,
    List.rdropWhile_idempotent]

theorem mem_of_mem_trim {c : Char} {cs : List Char} (h : c ∈ trim cs) : c ∈ cs :=
  (List.dropWhile_suffix isBlank).subset ((List.rdropWhile_prefix isBlank _).subset h)

/-- A blank in front of a text is trimmed away. -/
theorem trim_cons_of_isBlank {c : Char} (h : isBlank c) (cs : List Char) :
    trim (c :: cs) = trim cs := by
  rw [trim, List.dropWhile_cons_of_pos h, trim]

theorem trimEnd_append_of_isBlank {cs blanks : List Char} (h : ∀ c ∈ blanks, isBlank c) :
    trimEnd (cs ++ blanks) = trimEnd cs := by
  rw [trimEnd, List.reverse_append, List.dropWhile_append_of_pos fun c hc =>
    h c (List.mem_reverse.1 hc), trimEnd]

/-- Blanks behind a text are trimmed away. -/
theorem trim_append_of_isBlank {cs blanks : List Char} (h : ∀ c ∈ blanks, isBlank c) :
    trim (cs ++ blanks) = trim cs := by
  rw [trim, List.dropWhile_append]
  split
  · rename_i hempty
    rw [List.dropWhile_eq_nil_iff.2 h, trim, List.isEmpty_iff.1 hempty]
  · rw [trimEnd_append_of_isBlank h, trim]

/-- What is read of a line that is read to its end. -/
theorem IsUnbroken.trim_beforeReturn {line : List Char} (h : IsUnbroken line) :
    trim (beforeReturn line) = trim line := by
  have hblank : ∀ c ∈ fromReturn line, isBlank c := by
    intro c hc
    rcases h c hc with rfl | rfl | rfl <;> decide
  conv => rhs; rw [← beforeReturn_append_fromReturn line, trim_append_of_isBlank hblank]

private theorem IsUnbroken.isDescriptionLine_trim {line : List Char} (h : IsUnbroken line) :
    IsDescriptionLine (trim line) := by
  refine ⟨trim_trim line, fun hmem => ?_⟩
  rw [← h.trim_beforeReturn] at hmem
  exact absurd (List.mem_takeWhile_imp (mem_of_mem_trim hmem)) (by decide)

/-- What conforms has no CR at which its reading could stop. -/
theorem hasUnbrokenLines_of_isDescription {text : String} (h : IsDescription text) :
    HasUnbrokenLines text := by
  intro line hline
  simp [IsUnbroken, fromReturn_of_not_mem (h line hline).2]

/-- The lines of a text have no line feed in them. -/
theorem not_mem_of_mem_splitOn {c : Char} {cs line : List Char} (h : line ∈ cs.splitOn c) :
    c ∉ line := by
  induction cs generalizing line with
  | nil =>
    obtain rfl : line = [] := by simpa using h
    simp
  | cons d ds ih =>
    rw [List.splitOn_cons_eq_if_modifyHead] at h
    split at h
    · rcases List.mem_cons.1 h with rfl | h
      · simp
      · exact ih h
    · rename_i hd
      obtain ⟨l, ls, hls⟩ := List.exists_cons_of_ne_nil (List.splitOn_ne_nil c ds)
      rw [hls, List.modifyHead_cons] at h
      rcases List.mem_cons.1 h with rfl | h
      · have hl : c ∉ l := ih (by rw [hls]; exact List.mem_cons_self)
        exact mt List.mem_cons.1 (not_or.2 ⟨fun hcd => hd (by simp [hcd]), hl⟩)
      · exact ih (by rw [hls]; exact List.mem_cons_of_mem l h)

/-- The lines of a text whose lines were trimmed. -/
theorem splitOn_trimLines (text : String) :
    (trimLines text).toList.splitOn '\n' = (text.toList.splitOn '\n').map trim := by
  rw [trimLines, String.toList_ofList]
  refine List.splitOn_intercalate '\n' (fun line hline => ?_) ?_
  · obtain ⟨l, hl, rfl⟩ := List.mem_map.1 hline
    exact fun hmem => not_mem_of_mem_splitOn hl (mem_of_mem_trim hmem)
  · simp

theorem trimLines_of_isDescription {text : String} (h : IsDescription text) :
    trimLines text = text := by
  have hlines : (text.toList.splitOn '\n').map trim = text.toList.splitOn '\n' :=
    (List.map_congr_left (g := id) fun line hline => (h line hline).1).trans (List.map_id _)
  rw [trimLines, hlines, List.intercalate_splitOn, String.ofList_toList]

/-- A text whose lines are read to their ends is a description once they are trimmed. -/
theorem isDescription_trimLines {text : String} (h : HasUnbrokenLines text) :
    IsDescription (trimLines text) := by
  intro line hline
  rw [splitOn_trimLines] at hline
  obtain ⟨l, hl, rfl⟩ := List.mem_map.1 hline
  exact (h l hl).isDescriptionLine_trim

end Text

end SchemaLang
