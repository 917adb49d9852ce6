import SchemaLang.Text.Blank
import SchemaLang.Token.Ignored
import SchemaLang.Token.Number
import SchemaLang.Token.StringLiteral

/-!
# From text to tokens

`scanToken` reads the token at the head of a text, `readToken` first skips what is ignored, and
`scan` goes on until the end of the text or its first fault. Reading a token looks only at the text
from there on, so a text can be read from any of its places. Each token but the last takes at least
one character, which is why `scan` ends.
-/

namespace SchemaLang

/-- The characters a name can start with. -/
def isNameStart (c : Char) : Bool := c == '_' || c.isAlpha

/-- The characters a name can go on with. -/
def isNameChar (c : Char) : Bool := c == '_' || c.isAlphanum

theorem isNameChar_of_isNameStart {c : Char} (h : isNameStart c) : isNameChar c := by
  simp only [isNameStart, Bool.or_eq_true] at h
  simp only [isNameChar, Char.isAlphanum, Bool.or_eq_true]
  rcases h with h | h
  · exact .inl h
  · exact .inr (.inl h)

/-- The token at the head of a text, the characters it covers, and the rest after it. -/
structure Scanned where
  token : Token
  text : List Char
  rest : List Char
deriving DecidableEq, Repr

namespace Scanned

/-- A description goes to the end of its line; the white space around its text does not count. -/
def description (cs : List Char) : Scanned :=
  let text := cs.takeWhile fun c => !Ignored.endsLine c
  ⟨.description (String.ofList (Text.trim (text.drop 2))), text,
    cs.dropWhile fun c => !Ignored.endsLine c⟩

/-- A name goes as far as its characters go. -/
def name (cs : List Char) : Scanned :=
  let text := cs.takeWhile isNameChar
  ⟨.name (String.ofList text), text, cs.dropWhile isNameChar⟩

/-- A number keeps its text. -/
def number (cs : List Char) : Except SyntaxError Scanned := do
  let (text, isFloat, rest) ← Number.scan cs
  return ⟨if isFloat then .float (String.ofList text) else .int (String.ofList text), text, rest⟩

/-- A string starts one byte, the quote, before its contents. -/
def string (contents : List Char) : Except SyntaxError Scanned := do
  let r ← StringLiteral.scan 1 contents
  return ⟨.string (String.ofList r.value), '"' :: r.text, r.rest⟩

end Scanned

/-- The token at the head of a text that starts with no ignored text. Positions of faults count
from the head. -/
def scanToken : List Char → Except SyntaxError Scanned
  | [] => .ok ⟨.endOfInput, [], []⟩
  | c :: cs =>
    if c = '#' then .ok (.description (c :: cs))
    else if c = '"' then Scanned.string cs
    else if Number.starts (c :: cs) then Scanned.number (c :: cs)
    else if isNameStart c then .ok (.name (c :: cs))
    else match Punctuator.ofChar? c with
      | some p => .ok ⟨.punctuator p, [c], cs⟩
      | none => .error (.ofCause 0 (.unexpectedCharacter c))

/-- A token with its span, the ignored text in front of it, and the rest of the text after it. -/
structure Reading where
  token : Token
  span : Span
  gap : List Char
  rest : List Char
deriving DecidableEq, Repr

/-- The next token of a text that starts at byte `position`. -/
def readToken (position : Nat) (cs : List Char) : Except SyntaxError Reading :=
  let (gap, cs) := Ignored.split false cs
  let start := position + Text.byteLength gap
  match scanToken cs with
  | .error e => .error (e.shift start)
  | .ok s => .ok ⟨s.token, ⟨start, start + Text.byteLength s.text⟩, gap, s.rest⟩

private theorem Scanned.append_of_string {contents : List Char} {s : Scanned}
    (h : string contents = .ok s) :
    s.text ++ s.rest = '"' :: contents ∧ (s.text = [] ↔ s.token = .endOfInput) := by
  simp only [string, bind, Except.bind] at h
  split at h
  · simp at h
  · rename_i r hr
    simp only [pure, Except.pure, Except.ok.injEq] at h
    subst h
    simp [StringLiteral.append_of_scan hr]

private theorem Scanned.append_of_number {cs : List Char} {s : Scanned} (h : number cs = .ok s) :
    s.text ++ s.rest = cs ∧ (s.text = [] ↔ s.token = .endOfInput) := by
  simp only [number, bind, Except.bind] at h
  split at h
  · simp at h
  · rename_i r hr
    obtain ⟨text, isFloat, rest⟩ := r
    simp only [pure, Except.pure, Except.ok.injEq] at h
    subst h
    have := Number.append_of_scan hr
    cases isFloat <;> simp [this]

/-- The text of a token and the rest are what there was, and only the end of the
input has no text. -/
theorem append_of_scanToken {cs : List Char} {s : Scanned} (h : scanToken cs = .ok s) :
    s.text ++ s.rest = cs ∧ (s.text = [] ↔ s.token = .endOfInput) := by
  unfold scanToken at h
  split at h
  · cases h
    simp
  · rename_i c cs
    split at h
    · rename_i hc
      cases h
      simp [hc, Scanned.description, Ignored.endsLine]
    · split at h
      · rename_i hc
        exact hc ▸ Scanned.append_of_string h
      · split at h
        · exact Scanned.append_of_number h
        · split at h
          · rename_i hc
            cases h
            simp [Scanned.name, isNameChar_of_isNameStart hc]
          · split at h
            · cases h
              simp
            · simp at h

/-- A token that is not the end leaves less of the text. -/
theorem length_rest_lt {position : Nat} {cs : List Char} {r : Reading}
    (h : readToken position cs = .ok r) (hr : r.token ≠ .endOfInput) :
    r.rest.length < cs.length := by
  have hgap := Ignored.append_of_split false cs
  simp only [readToken] at h
  split at h
  · simp at h
  · rename_i s hs
    simp only [Except.ok.injEq] at h
    subst h
    obtain ⟨hrest, hne⟩ := append_of_scanToken hs
    have htext : s.text.length ≠ 0 := fun h0 => hr (hne.1 (List.length_eq_zero_iff.1 h0))
    have := congrArg List.length hgap
    have := congrArg List.length hrest
    simp only [List.length_append] at *
    omega

/-- The tokens of a text up to its end or its first fault. Without a fault the last one is the end
of input, and no other one is. -/
structure Tokens where
  readings : List Reading
  fault : Option SyntaxError
deriving DecidableEq, Repr

/-- All tokens of a text that starts at byte `position`. -/
def scan (position : Nat) (cs : List Char) : Tokens :=
  match _h : readToken position cs with
  | .error e => ⟨[], some e⟩
  | .ok r =>
    if _hr : r.token = .endOfInput then ⟨[r], none⟩
    else
      let rest := scan r.span.stop r.rest
      { rest with readings := r :: rest.readings }
termination_by cs.length
decreasing_by exact length_rest_lt (by assumption) (by assumption)

/-- The comments in front of the tokens. -/
def commentsBefore (r : Reading) : List Span :=
  Ignored.comments (r.span.start - Text.byteLength r.gap) none r.gap

namespace Source

/-- All tokens. -/
def tokens (s : Source) : Tokens := scan 0 s.chars

/-- The token at or after byte `position`, or the fault there. Past the end there is only the
end of input. -/
def tokenAt (s : Source) (position : Nat) : Except SyntaxError Reading :=
  readToken (min position s.byteLength) (Text.dropBytes position s.chars)

/-- The spans of the comments in order, unless the text has a fault that stops the tokens. -/
def comments (s : Source) : Except SyntaxError (List Span) :=
  let tokens := s.tokens
  match tokens.fault with
  | some e => .error e
  | none => .ok (tokens.readings.flatMap commentsBefore)

end Source

end SchemaLang
