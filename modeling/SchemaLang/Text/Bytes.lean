/-!
# Byte lengths of text

Offsets into a document count the bytes of its UTF-8 form, while all reading is done on characters.
The functions here go from one to the other. A text can be cut only between two characters:
`splitAtByte?` answers nothing for an offset inside a character or past the end.
-/

namespace SchemaLang.Text

/-- The number of bytes of the UTF-8 form. -/
def byteLength : List Char → Nat
  | [] => 0
  | c :: cs => c.utf8Size + byteLength cs

/-- Drops characters until at least `n` bytes are gone. -/
def dropBytes : Nat → List Char → List Char
  | _, [] => []
  | n, c :: cs => if n = 0 then c :: cs else dropBytes (n - c.utf8Size) cs

/-- The characters of the first `n` bytes and the rest, if a character ends at byte `n`. -/
def splitAtByte? : Nat → List Char → Option (List Char × List Char)
  | n, [] => if n = 0 then some ([], []) else none
  | n, c :: cs =>
    if n = 0 then some ([], c :: cs)
    else if c.utf8Size ≤ n then
      (splitAtByte? (n - c.utf8Size) cs).map fun (before, after) => (c :: before, after)
    else none

/-- The characters from byte `start` up to byte `stop`, if both are character boundaries. -/
def slice? (start stop : Nat) (cs : List Char) : Option (List Char) := do
  guard (start ≤ stop)
  let (_, rest) ← splitAtByte? start cs
  let (inside, _) ← splitAtByte? (stop - start) rest
  return inside

@[simp] theorem byteLength_nil : byteLength [] = 0 := rfl

@[simp] theorem byteLength_cons (c : Char) (cs : List Char) :
    byteLength (c :: cs) = c.utf8Size + byteLength cs := rfl

@[simp] theorem byteLength_append (xs ys : List Char) :
    byteLength (xs ++ ys) = byteLength xs + byteLength ys := by
  induction xs with
  | nil => simp
  | cons c cs ih => simp [ih, Nat.add_assoc]

/-- Cutting a text right after one of its parts gives that part back. -/
theorem splitAtByte?_append (xs ys : List Char) :
    splitAtByte? (byteLength xs) (xs ++ ys) = some (xs, ys) := by
  induction xs with
  | nil => cases ys <;> simp [splitAtByte?]
  | cons c cs ih =>
    simp [splitAtByte?, ih, Nat.ne_of_gt c.utf8Size_pos]

/-- The two parts of a cut make up the text, and the first has the wanted length. -/
theorem eq_append_of_splitAtByte? {n : Nat} {cs before after : List Char}
    (h : splitAtByte? n cs = some (before, after)) :
    cs = before ++ after ∧ byteLength before = n := by
  induction cs generalizing n before after with
  | nil =>
    simp only [splitAtByte?] at h
    split at h <;> simp_all
  | cons c cs ih =>
    simp only [splitAtByte?] at h
    split at h
    · simp_all
    · split at h
      · obtain ⟨⟨b, a⟩, hb, he⟩ := Option.map_eq_some_iff.1 h
        obtain ⟨rfl, rfl⟩ := by simpa using he
        obtain ⟨rfl, hl⟩ := ih hb
        exact ⟨rfl, by simp only [byteLength_cons]; omega⟩
      · simp at h

end SchemaLang.Text
