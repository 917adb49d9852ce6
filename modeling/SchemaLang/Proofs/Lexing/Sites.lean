import SchemaLang.Proofs.Lexing.Lines
import SchemaLang.Proofs.Lexing.Numbers
import SchemaLang.Proofs.Lexing.Tiling

/-!
# Sites of tokens and faults

Tokens start, and faults lie, at places that have a line and a column of their own: no token and no
fault is between the CR and the LF of a line break. A string that is never closed has its opening
quote at such a place too.
-/

namespace SchemaLang

variable {s : Source} {before cs : List Char} {e : SyntaxError}

private theorem Text.not_splitsBreak {before after : List Char}
    (h : before.getLast? ≠ some '\r' ∨ after.head? ≠ some '\n') :
    ¬ SplitsBreak (byteLength before) (before ++ after) := by
  rintro ⟨front, behind, text, hlength⟩
  have cut : before ++ after = (front ++ ['\r']) ++ ('\n' :: behind) := by simpa using text
  have same : byteLength before = byteLength (front ++ ['\r']) := by
    rw [byteLength_append]
    exact hlength
  have parts := splitAtByte?_append before after
  rw [cut, same, splitAtByte?_append] at parts
  obtain ⟨rfl, rfl⟩ := Prod.mk.inj (Option.some.inj parts)
  simp at h

/-- Between two characters that are no CR LF there is a place. -/
theorem Source.isPlace_append {before after : List Char} (hs : s.chars = before ++ after)
    (h : before.getLast? ≠ some '\r' ∨ after.head? ≠ some '\n') :
    s.IsPlace (Text.byteLength before) := by
  constructor
  · rw [hs]
    exact Text.isBoundary_append before after
  · rw [hs]
    exact Text.not_splitsBreak h

/-- What is behind ignored text starts with no line feed. -/
theorem Ignored.head?_ne_of_plain (h : Ignored.split false cs = ([], cs)) :
    cs.head? ≠ some '\n' := by
  cases cs with
  | nil => exact nofun
  | cons c cs =>
    intro hc
    obtain rfl := Option.some.inj hc
    exact absurd (congrArg (fun p => p.1.length) h) (Nat.succ_ne_zero _)

/-- A string that is never closed goes as far as the fault says. -/
theorem StringLiteral.position_of_unterminated {n k : Nat} (h : scan n cs = .error e)
    (cause : e.cause = .unterminatedString k) : e.position = k := by
  fun_induction scan n cs with
  | case2 => cases h
  | case3 n a b c d rest ch hu ih => exact ih (eq_error_of_map h)
  | case5 n e' rest _ ch he ih => exact ih (eq_error_of_map h)
  | case10 n c rest _ _ _ _ _ _ ih => exact ih (eq_error_of_map h)
  | case1 | case8 =>
    cases h
    cases cause
    rfl
  | _ =>
    cases h
    cases cause

/-- Only a string is never closed, and the fault says where its quote is. -/
theorem exists_quote_of_unterminated {k : Nat} (h : scanToken cs = .error e)
    (cause : e.cause = .unterminatedString k) :
    ∃ contents, cs = '"' :: contents ∧ e.position = k := by
  rcases scanToken_error_cases h with ⟨contents, rfl, hr⟩ | hr | ⟨c, tail, rfl, rfl⟩
  · exact ⟨contents, rfl, StringLiteral.position_of_unterminated hr cause⟩
  · have number := (Number.breaksOff_of_scan hr).1
    rw [cause] at number
    cases number
  · cases cause

/-- A fault at a place. In a string that is never closed the quote is as far in front of
it as it says. -/
structure SyntaxError.IsSited (e : SyntaxError) (s : Source) : Prop where
  position : s.IsPlace e.position
  quote : ∀ length, e.cause = .unterminatedString length →
    ∃ before contents, s.chars = before ++ '"' :: contents ∧
    e.position = Text.byteLength before + length

/-- The quote of a string that is never closed is at a place. -/
theorem SyntaxError.IsSited.isPlace_quote (h : e.IsSited s) {length : Nat}
    (cause : e.cause = .unterminatedString length) : s.IsPlace (e.position - length) := by
  obtain ⟨before, contents, hs, position⟩ := h.quote length cause
  rw [position, Nat.add_sub_cancel]
  exact Source.isPlace_append hs (.inr (by simp))

/-- What keeps a token from being read is at a place, and its cause speaks of the text there. -/
theorem exists_site_of_readToken (hs : s.chars = before ++ cs)
    (h : readToken (Text.byteLength before) cs = .error e) :
    ∃ front after, s.chars = front ++ after ∧ e.position = Text.byteLength front ∧
      (front.getLast? ≠ some '\r' ∨ after.head? ≠ some '\n') ∧ e.cause.IsAt after := by
  obtain ⟨f, hf, rfl⟩ := readToken_eq_error.1 h
  have append := Ignored.append_of_split false cs
  have plain := Ignored.head?_ne_of_plain (Ignored.split_split false cs)
  generalize Ignored.split false cs = gap at append plain hf ⊢
  obtain ⟨gap, rest⟩ := gap
  subst append
  obtain ⟨front, after, rfl, whole, position, cause⟩ := standsIn_of_scanToken hf
  refine ⟨before ++ gap ++ front, after, by simp [hs], ?_, ?_, cause⟩
  · change Text.byteLength before + Text.byteLength gap + f.position = _
    rw [position, Text.byteLength_append, Text.byteLength_append, Nat.zero_add]
  -- In front of the fault is the token, if it has begun, and ignored text otherwise.
  · cases hlast : front.getLast? with
    | none =>
      obtain rfl := List.getLast?_eq_none_iff.1 hlast
      exact .inr plain
    | some c =>
      refine .inl fun hreturn => whole ?_
      rw [List.getLast?_append, hlast] at hreturn
      exact Option.some.inj hreturn ▸ List.mem_of_getLast? hlast

theorem isAt_of_readToken (hs : s.chars = before ++ cs)
    (h : readToken (Text.byteLength before) cs = .error e) :
    e.cause.IsAt (Text.dropBytes e.position s.chars) := by
  obtain ⟨front, after, hfront, position, -, cause⟩ := exists_site_of_readToken hs h
  rw [position, hfront, Text.dropBytes_append]
  exact cause

theorem isSited_of_readToken (hs : s.chars = before ++ cs)
    (h : readToken (Text.byteLength before) cs = .error e) : e.IsSited s := by
  constructor
  · obtain ⟨front, after, hfront, position, apart, -⟩ := exists_site_of_readToken hs h
    exact position ▸ Source.isPlace_append hfront apart
  · intro length cause
    obtain ⟨f, hf, rfl⟩ := readToken_eq_error.1 h
    obtain ⟨contents, hcontents, position⟩ := exists_quote_of_unterminated hf cause
    refine ⟨before ++ (Ignored.split false cs).1, contents, ?_, ?_⟩
    · rw [List.append_assoc, ← hcontents, Ignored.append_of_split, hs]
    · rw [Text.byteLength_append, ← position]
      rfl

theorem Source.isSited_of_tokenAt {position : Nat} (boundary : Text.IsBoundary position s.chars)
    (h : s.tokenAt position = .error e) : e.IsSited s := by
  obtain ⟨before, after, hs, rfl⟩ := boundary
  rw [tokenAt_append hs] at h
  exact isSited_of_readToken hs h

/-- A token starts at a place. -/
theorem isPlace_of_covers {r : Reading} {text : List Char} (hs : s.chars = before ++ cs)
    (h : r.Covers (Text.byteLength before) cs text) : s.IsPlace r.span.start := by
  have start : r.span.start = Text.byteLength (before ++ r.gap) := by
    rw [h.span, Text.byteLength_append]
  rw [start]
  refine Source.isPlace_append ?_ (.inr (Ignored.head?_ne_of_plain h.plain))
  rw [hs, h.append, List.append_assoc]

/-- Lexemes start at places. -/
theorem Source.isPlace_of_mem_lexemes {l : Lexeme} (h : l ∈ s.lexemes) :
    s.IsPlace l.span.start := by
  obtain ⟨r, hr, hplaced⟩ := exists_reading h
  obtain ⟨before, after, hs, hread⟩ := exists_readToken_of_mem hr
  obtain ⟨text, covers⟩ := covers_of_readToken hread
  have start : r.span.start = l.span.start := congrArg (fun p => p.2.start) hplaced
  exact start ▸ isPlace_of_covers hs covers

/-- At the place of a lexeme its token is read. -/
theorem Source.exists_tokenAt_of_mem_lexemes {l : Lexeme} (h : l ∈ s.lexemes) :
    ∃ r, s.tokenAt l.span.start = .ok r ∧ r.token = l.token := by
  obtain ⟨r, hr, hplaced⟩ := exists_reading h
  obtain ⟨before, after, hs, hread⟩ := exists_readToken_of_mem hr
  obtain ⟨text, covers⟩ := covers_of_readToken hread
  have behind : s.chars = (before ++ r.gap) ++ (text ++ r.rest) := by
    rw [hs, covers.append, List.append_assoc]
  have start : l.span.start = Text.byteLength (before ++ r.gap) := by
    have same : r.span.start = l.span.start := congrArg (fun p => p.2.start) hplaced
    rw [← same, covers.span, Text.byteLength_append]
  rw [start, tokenAt_append behind, readToken_of_plain covers.plain, covers.scans.scanToken]
  exact ⟨_, rfl, congrArg Prod.fst hplaced⟩

end SchemaLang
