import SchemaLang.Proofs.Lexing.Contract
import SchemaLang.Proofs.Lexing.Sites
import SchemaLang.Proofs.Lexing.Slices

/-!
# Tokens of a text and of its parts

What is read at a place of a text is what is read at the start of the text from there on, with each
position counted from the start of the whole text. Nothing in front of the place has any part in it.
And a token is read from its own text alone as it was read there, so that nothing behind it has any
part in it either.
-/

namespace SchemaLang

/-- The same span in a text with `count` bytes more in front. -/
def Span.shift (count : Nat) (s : Span) : Span := ⟨count + s.start, count + s.stop⟩

/-- The same token in a text with `count` bytes more in front. -/
def Reading.shift (count : Nat) (r : Reading) : Reading := { r with span := r.span.shift count }

/-- The same note in a text with `count` bytes more in front. -/
def Note.shift (count : Nat) (note : Note) :
    Note := { note with position := note.position.map (count + ·) }

/-- The same token, or the same fault, in a text with `count` bytes more in front. -/
def displace {α : Type} (shift : Nat → α → α) (count : Nat) :
    Except SyntaxError α → Except SyntaxError α
  | .ok a => .ok (shift count a)
  | .error e => .error (e.shift count)

/-- Where a text starts has no part in what is read at its head. -/
theorem readToken_add (count position : Nat) (cs : List Char) :
    readToken (count + position) cs = displace Reading.shift count (readToken position cs) := by
  simp only [readToken, Nat.add_assoc]
  cases scanToken (Ignored.split false cs).2 with
  | error e =>
    simp only [displace, SyntaxError.shift, Nat.add_assoc]
  | ok t => rfl

/-- A note points as far in front of its fault as before, if it pointed into the text. -/
theorem SyntaxError.notes_shift {e : SyntaxError}
    (h : ∀ length, e.cause = .unterminatedString length → length ≤ e.position) (count : Nat) :
    (e.shift count).notes = e.notes.map (Note.shift count) := by
  obtain ⟨position, cause, hint⟩ := e
  have hints : (hint.map Hint.note).toList.map (Note.shift count) =
      (hint.map Hint.note).toList := by
    cases hint with
    | none => rfl
    | some hint => cases hint <;> rfl
  have causes : cause.notes (count + position) = (cause.notes position).map (Note.shift count) := by
    unfold Cause.notes
    split
    · rfl
    · rename_i length
      have inside : length ≤ position := h length rfl
      have behind : count + position - length = count + (position - length) := by omega
      rw [behind]
      rfl
    · rfl
  rw [notes, notes, List.map_append, hints, ← causes]
  rfl

namespace Source

variable {s : Source} {position : Nat}

/-- The text of a source from a boundary on. -/
theorem text?_to_end {before after : List Char} (hs : s.chars = before ++ after) :
    s.text? ⟨Text.byteLength before, s.byteLength⟩ = some (String.ofList after) := by
  have whole : s.chars = before ++ (after ++ []) := by rw [hs, List.append_nil]
  have stop : s.byteLength = Text.byteLength before + Text.byteLength after := by
    rw [byteLength, hs, Text.byteLength_append]
  rw [stop]
  exact text?_append whole

/-- What is read at a place is what is read at the start of the rest of the text, and a token is
read from its own text as it is read there. -/
structure ReadsLocally (s : Source) (position : Nat) : Prop where
  rest : ∃ text, s.text? ⟨position, s.byteLength⟩ = some text ∧ ∀ name,
    let rest : Source := ⟨text, name⟩
    s.tokenAt position = displace Reading.shift position (rest.tokenAt 0) ∧
      (Bytewise.readToken s.chars position).run = (Bytewise.readToken rest.chars 0).run.map
        (displace (fun count r => (r.1, r.2.shift count)) position) ∧
      ∀ e, rest.tokenAt 0 = .error e → (e.shift position).notes = e.notes.map (Note.shift position)
  alone : ∀ r, s.tokenAt position = .ok r → r.token ≠ .endOfInput →
    ∃ text, s.text? r.span = some text ∧ ∀ name,
      let piece : Source := ⟨text, name⟩
      piece.tokens = ⟨[⟨r.token, ⟨0, piece.byteLength⟩, [], []⟩,
        ⟨.endOfInput, ⟨piece.byteLength, piece.byteLength⟩, [], []⟩], none⟩

private theorem chars_ofList (cs : List Char) (name : String) :
    (Source.mk (String.ofList cs) name).chars = cs :=
  String.toList_ofList

private theorem isBoundary_zero (s : Source) : Text.IsBoundary 0 s.chars :=
  ⟨[], s.chars, s.chars_eq_append, rfl⟩

/-- The notes of a fault at the head of a text point into the text. -/
theorem notes_shift_of_tokenAt {e : SyntaxError} (h : s.tokenAt 0 = .error e) (count : Nat) :
    (e.shift count).notes = e.notes.map (Note.shift count) := by
  refine SyntaxError.notes_shift (fun length cause => ?_) count
  obtain ⟨before, contents, -, site⟩ := (isSited_of_tokenAt s.isBoundary_zero h).quote length cause
  rw [site]
  exact Nat.le_add_left _ _

/-- The text of a token has that token alone, over all of it. -/
theorem tokens_of_covers {before cs text : List Char} {r : Reading} (hr : r.token ≠ .endOfInput)
    (h : r.Covers (Text.byteLength before) cs text) (name : String) :
    let piece : Source := ⟨String.ofList text, name⟩
    piece.tokens = ⟨[⟨r.token, ⟨0, piece.byteLength⟩, [], []⟩,
      ⟨.endOfInput, ⟨piece.byteLength, piece.byteLength⟩, [], []⟩], none⟩ := by
  intro piece
  have own : piece.chars = text := chars_ofList text name
  have length : piece.byteLength = Text.byteLength text := congrArg Text.byteLength own
  have first := h.readToken hr (.nil r.rest) .nil 0
  simp only [List.nil_append, List.append_nil, Text.byteLength_nil, Nat.zero_add] at first
  have last : readToken (Text.byteLength text) [] =
      .ok ⟨.endOfInput, ⟨Text.byteLength text, Text.byteLength text⟩, [], []⟩ := rfl
  rw [tokens, own, scan_of_token first hr, scan_of_end last rfl, length]

/-- Lexing is local, at every character boundary of every source. -/
theorem readsLocally (h : Text.IsBoundary position s.chars) : s.ReadsLocally position where
  rest := by
    obtain ⟨before, after, hs, rfl⟩ := h
    refine ⟨String.ofList after, text?_to_end hs, fun name => ?_⟩
    intro rest
    have own : rest.chars = after := chars_ofList after name
    have head : rest.tokenAt 0 = readToken 0 after := by
      have start : rest.chars = [] ++ after := own
      exact tokenAt_append start
    have read : s.tokenAt (Text.byteLength before) =
        displace Reading.shift (Text.byteLength before) (rest.tokenAt 0) := by
      rw [tokenAt_append hs, head]
      exact readToken_add (Text.byteLength before) 0 after
    refine ⟨read, ?_, fun e he => notes_shift_of_tokenAt he _⟩
    rw [bytewise_tokenAt ⟨before, after, hs, rfl⟩, bytewise_tokenAt rest.isBoundary_zero, read]
    cases rest.tokenAt 0 with
    | ok r => rfl
    | error e => rfl
  alone := by
    intro r hr goesOn
    obtain ⟨before, after, hs, rfl⟩ := h
    rw [tokenAt_append hs] at hr
    obtain ⟨text, covers⟩ := covers_of_readToken hr
    exact ⟨String.ofList text, (covers.texts hs).2, tokens_of_covers goesOn covers⟩

/-- Behind a byte order mark and a string stands a number, and behind that what is no token. -/
theorem readsLocally_float :
    let s : Source := ⟨"\ufeff\"é\",-1.5e3é", "GraphQL"⟩
    Text.IsBoundary 7 s.chars ∧ s.tokenAt 7 = .ok ⟨.float "-1.5e3", ⟨8, 14⟩, [','], ['é']⟩ ∧
        s.ReadsLocally 7 := by
  intro s
  have boundary : Text.IsBoundary 7 s.chars := by decide +kernel
  exact ⟨boundary, by decide +kernel, readsLocally boundary⟩

end Source

end SchemaLang
