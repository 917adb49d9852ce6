import SchemaLang.SyntaxError

/-!
# Numbers

A number is `-? (0 | [1-9][0-9]*) (. [0-9]+)? ([eE] [+-]? [0-9]+)?`. Its first digit decides that it
is one; from there each part is read as far as it goes, and a part that was begun must be completed.
So `1.` and `1e` are faults, and not the number `1` with something after it. A zero in front of
another digit is a fault too.
-/

namespace SchemaLang.Number

/-- One or more digits, `offset` bytes after the start of the number. -/
def someDigits (offset : Nat) (cs : List Char) : Except SyntaxError (List Char × List Char) :=
  match cs.takeWhile Char.isDigit with
  | [] => .error (.ofCause offset (.missingDigit cs.head?))
  | ds => .ok (ds, cs.dropWhile Char.isDigit)

/-- An optional sign among `signs`. -/
def sign (signs : List Char) : List Char → List Char × List Char
  | [] => ([], [])
  | c :: cs => if c ∈ signs then ([c], cs) else ([], c :: cs)

/-- The part before the point: a zero on its own, or digits that do not start with one. -/
def whole (offset : Nat) : List Char → Except SyntaxError (List Char × List Char)
  | '0' :: d :: cs =>
    if d.isDigit then .error (.ofCause (offset + 1) (.leadingZero d)) else .ok (['0'], d :: cs)
  | ['0'] => .ok (['0'], [])
  | cs => someDigits offset cs

/-- The point with the digits after it, if there is a point. -/
def fraction (offset : Nat) : List Char → Except SyntaxError (List Char × List Char)
  | '.' :: cs => (someDigits (offset + 1) cs).map fun (ds, rest) => ('.' :: ds, rest)
  | cs => .ok ([], cs)

/-- The exponent with its letter, if there is one. -/
def exponent (offset : Nat) : List Char → Except SyntaxError (List Char × List Char)
  | [] => .ok ([], [])
  | c :: cs =>
    if c = 'e' ∨ c = 'E' then
      let (s, digits) := sign ['+', '-'] cs
      (someDigits (offset + 1 + s.length) digits).map fun (ds, rest) => (c :: s ++ ds, rest)
    else .ok ([], c :: cs)

/-- A number at the head of a text: what it is written as, whether it has a fraction or an
exponent, the rest. -/
def scan (cs : List Char) : Except SyntaxError (List Char × Bool × List Char) := do
  let (s, cs) := sign ['-'] cs
  let (w, cs) ← whole s.length cs
  let (f, cs) ← fraction (s.length + w.length) cs
  let (e, cs) ← exponent (s.length + w.length + f.length) cs
  return (s ++ w ++ f ++ e, f ++ e ≠ [], cs)

/-- Whether a number starts here: a digit, or a minus sign in front of one. -/
def starts : List Char → Bool
  | '-' :: d :: _ => d.isDigit
  | c :: _ => c.isDigit
  | [] => false

theorem append_of_someDigits {n : Nat} {cs ds rest : List Char}
    (h : someDigits n cs = .ok (ds, rest)) : ds ++ rest = cs ∧ ds ≠ [] := by
  unfold someDigits at h
  split at h
  · simp at h
  · rename_i hne
    simp only [Except.ok.injEq, Prod.mk.injEq] at h
    obtain ⟨rfl, rfl⟩ := h
    exact ⟨List.takeWhile_append_dropWhile, hne⟩

theorem append_of_sign (signs cs : List Char) : (sign signs cs).1 ++ (sign signs cs).2 = cs := by
  cases cs with
  | nil => rfl
  | cons c cs => by_cases h : c ∈ signs <;> simp [sign, h]

theorem append_of_whole {n : Nat} {cs w rest : List Char} (h : whole n cs = .ok (w, rest)) :
    w ++ rest = cs ∧ w ≠ [] := by
  unfold whole at h
  split at h
  · split at h
    · simp at h
    · simp only [Except.ok.injEq, Prod.mk.injEq] at h
      obtain ⟨rfl, rfl⟩ := h
      simp
  · simp only [Except.ok.injEq, Prod.mk.injEq] at h
    obtain ⟨rfl, rfl⟩ := h
    simp
  · exact append_of_someDigits h

theorem append_of_fraction {n : Nat} {cs f rest : List Char} (h : fraction n cs = .ok (f, rest)) :
    f ++ rest = cs := by
  unfold fraction at h
  split at h
  · rename_i cs'
    cases hd : someDigits (n + 1) cs' with
    | error e => simp [hd, Except.map] at h
    | ok p =>
      obtain ⟨ds, r⟩ := p
      simp only [hd, Except.map, Except.ok.injEq, Prod.mk.injEq] at h
      obtain ⟨rfl, rfl⟩ := h
      simp [(append_of_someDigits hd).1]
  · simp_all

theorem append_of_exponent {n : Nat} {cs e rest : List Char} (h : exponent n cs = .ok (e, rest)) :
    e ++ rest = cs := by
  cases cs with
  | nil => simp_all [exponent]
  | cons c cs =>
    simp only [exponent] at h
    split at h
    · have hs := append_of_sign ['+', '-'] cs
      cases hd : someDigits (n + 1 + (sign ['+', '-'] cs).1.length) (sign ['+', '-'] cs).2 with
      | error e => simp [hd, Except.map] at h
      | ok p =>
        obtain ⟨ds, r⟩ := p
        simp only [hd, Except.map, Except.ok.injEq, Prod.mk.injEq] at h
        obtain ⟨rfl, rfl⟩ := h
        have hr := (append_of_someDigits hd).1
        simp [List.append_assoc, hr, hs]
    · simp_all

/-- The number and the rest make up the text, and the number is not empty. -/
theorem append_of_scan {cs text rest : List Char} {isFloat : Bool}
    (h : scan cs = .ok (text, isFloat, rest)) : text ++ rest = cs ∧ text ≠ [] := by
  have hs := append_of_sign ['-'] cs
  simp only [scan, bind, Except.bind] at h
  split at h
  · simp at h
  · rename_i w hw
    split at h
    · simp at h
    · rename_i f hf
      split at h
      · simp at h
      · rename_i e he
        simp only [pure, Except.pure, Except.ok.injEq, Prod.mk.injEq] at h
        obtain ⟨rfl, -, rfl⟩ := h
        obtain ⟨w, cw⟩ := w
        obtain ⟨f, cf⟩ := f
        obtain ⟨e, ce⟩ := e
        obtain ⟨hw, hne⟩ := append_of_whole hw
        have hf := append_of_fraction hf
        have he := append_of_exponent he
        subst he
        exact ⟨by simp [List.append_assoc, hf, hw, hs], by simp [hne]⟩

end SchemaLang.Number
