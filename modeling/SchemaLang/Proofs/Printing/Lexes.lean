import SchemaLang.Proofs.Lexing.Gaps
import SchemaLang.Proofs.Scanning

/-!
# Texts and their tokens

`Lexes cs ts` says that a text has the tokens `ts` before its end and no fault, and `LexesWith
notes cs ts` that it has the comments `notes` besides. This is built up from the end of the
text: a separator in front changes nothing, a comment or a token in front adds itself, as long
as it is read up to where the rest begins. The rest has to be there, since names and numbers go
on as far as they can.
-/

namespace SchemaLang

/-- The text has exactly these tokens, and then its end. -/
def Lexes (cs : List Char) (ts : List Token) : Prop :=
  ∀ position, (scan position cs).fault = none ∧
    (scan position cs).readings.map Reading.token = ts ++ [.endOfInput]

/-- The texts of the comments in ignored text that may go on with a comment that was started. -/
def Ignored.notes : (started : Option (List Char)) → List Char → List (List Char)
  | none, [] => []
  | some note, [] => [note]
  | none, c :: cs => notes (if c = '#' then some [c] else none) cs
  | some note, c :: cs =>
    if endsLine c then note :: notes none cs else notes (some (note ++ [c])) cs

/-- The texts of the comments between tokens. -/
def Reading.notes (rs : List Reading) : List (List Char) :=
  rs.flatMap fun r => Ignored.notes none r.gap

/-- The text has exactly these tokens, and then its end, and these comments. -/
def LexesWith (notes : List (List Char)) (cs : List Char) (ts : List Token) : Prop :=
  ∀ position, (scan position cs).fault = none ∧
    (scan position cs).readings.map Reading.token = ts ++ [.endOfInput] ∧
    Reading.notes (scan position cs).readings = notes

/-- A comment goes on to the end of its line. -/
theorem Ignored.notes_line {note line gap : List Char} (hline : ∀ c ∈ line, endsLine c = false)
    (hgap : ∀ c ∈ gap.head?, endsLine c = true) :
    notes (some note) (line ++ gap) = (note ++ line) :: notes none gap := by
  induction line generalizing note with
  | nil =>
    rw [List.nil_append, List.append_nil]
    cases gap with
    | nil => rfl
    | cons c gap =>
      have hc := hgap c rfl
      have hsharp : c ≠ '#' := by
        rintro rfl
        exact absurd hc (by decide)
      simp only [notes, if_pos hc, if_neg hsharp]
  | cons c line ih =>
    obtain ⟨hc, hline⟩ := List.forall_mem_cons.1 hline
    rw [List.cons_append, notes, if_neg (by simp [hc]), ih hline, List.append_assoc,
      List.singleton_append]

theorem LexesWith.lexes {notes : List (List Char)} {cs : List Char} {ts : List Token}
    (h : LexesWith notes cs ts) : Lexes cs ts :=
  fun position => ⟨(h position).1, (h position).2.1⟩

theorem scan_of_end {position : Nat} {cs : List Char} {r : Reading}
    (h : readToken position cs = .ok r) (hr : r.token = .endOfInput) :
    scan position cs = ⟨[r], none⟩ := by
  rw [scan]
  split
  · rename_i e he
    rw [h] at he
    exact absurd he (by simp)
  · rename_i r' hr'
    obtain rfl := Except.ok.inj (h.symm.trans hr')
    rw [dif_pos hr]

theorem scan_of_token {position : Nat} {cs : List Char} {r : Reading}
    (h : readToken position cs = .ok r) (hr : r.token ≠ .endOfInput) :
    scan position cs = { scan r.span.stop r.rest with
      readings := r :: (scan r.span.stop r.rest).readings } := by
  rw [scan]
  split
  · rename_i e he
    rw [h] at he
    exact absurd he (by simp)
  · rename_i r' hr'
    obtain rfl := Except.ok.inj (h.symm.trans hr')
    rw [dif_neg hr]

theorem scan_of_error {position : Nat} {cs : List Char} {e : SyntaxError}
    (h : readToken position cs = .error e) : scan position cs = ⟨[], some e⟩ := by
  rw [scan]
  split
  · rename_i e' he
    rw [Except.error.inj (h.symm.trans he)]
  · rename_i r' hr'
    rw [h] at hr'
    exact absurd hr' (by simp)

/-- Ignored text is split off as a whole, together with what is ignored behind it. -/
theorem Ignored.split_append_of_isGap {gap rest : List Char} (h : IsGap gap rest) :
    split false (gap ++ rest) = (gap ++ (split false rest).1, (split false rest).2) := by
  induction h with
  | nil => rfl
  | separator hc _ ih => rw [List.cons_append, split, if_pos hc, ih, List.cons_append]
  | @comment text gap rest line single ends _ ih =>
    have hline : ∀ c ∈ text, (!endsLine c) = true := fun c hc => by rw [line c hc]; rfl
    have hends : ∀ c ∈ (gap ++ rest).head?, (!endsLine c) = false :=
      fun c hc => by rw [ends c hc]; rfl
    obtain ⟨htake, hdrop⟩ := takeWhile_append_of_stop hline hends
    have hsingle : (text ++ (gap ++ rest)).head? ≠ some '#' := by
      cases text with
      | nil =>
        intro hsharp
        cases ends '#' hsharp
      | cons c text => exact single
    rw [List.cons_append, List.append_assoc, split, if_neg (by decide), if_pos ⟨rfl, hsingle⟩,
      split_true, htake, hdrop, ih, List.cons_append, List.append_assoc]

/-- Ignored text in front belongs to the ignored text in front of the next token. -/
theorem readToken_ignored {front cs : List Char}
    (hsplit : Ignored.split false (front ++ cs) =
      (front ++ (Ignored.split false cs).1, (Ignored.split false cs).2))
    (position : Nat) :
    readToken position (front ++ cs) =
      (readToken (position + Text.byteLength front) cs).map fun r =>
      { r with gap := front ++ r.gap } := by
  simp only [readToken, hsplit, Text.byteLength_append, ← Nat.add_assoc]
  cases scanToken (Ignored.split false cs).2 <;> rfl

variable {notes : List (List Char)}

theorem lexes_nil : LexesWith [] [] [] := by
  intro position
  have hread : readToken position [] = .ok ⟨.endOfInput, ⟨position, position⟩, [], []⟩ := rfl
  rw [scan_of_end hread rfl]
  exact ⟨rfl, rfl, rfl⟩

/-- Ignored text in front of a text whose tokens are known adds its comments. -/
theorem LexesWith.ignored {front cs : List Char} {ts : List Token} (added : List (List Char))
    (hsplit : Ignored.split false (front ++ cs) =
      (front ++ (Ignored.split false cs).1, (Ignored.split false cs).2))
    (hadded : Ignored.notes none (front ++ (Ignored.split false cs).1) =
      added ++ Ignored.notes none (Ignored.split false cs).1) (h : LexesWith notes cs ts) :
    LexesWith (added ++ notes) (front ++ cs) ts := by
  intro position
  obtain ⟨hfault, htokens, hnotes⟩ := h (position + Text.byteLength front)
  have hread := readToken_ignored hsplit position
  cases hr : readToken (position + Text.byteLength front) cs with
  | error e =>
    rw [scan_of_error hr] at hfault
    exact absurd hfault (by simp)
  | ok r =>
    rw [hr] at hread
    have hgap : r.gap = (Ignored.split false cs).1 := by
      obtain ⟨_, -, rfl⟩ := readToken_eq_ok.1 hr
      rfl
    rw [← hgap] at hadded
    by_cases hend : r.token = .endOfInput
    · rw [scan_of_end hr hend] at htokens hnotes
      rw [scan_of_end hread hend, ← hnotes]
      exact ⟨rfl, htokens, by simp [Reading.notes, hadded]⟩
    · rw [scan_of_token hr hend] at hfault htokens hnotes
      rw [scan_of_token hread hend, ← hnotes]
      exact ⟨hfault, htokens, by simp [Reading.notes, hadded]⟩

theorem LexesWith.separator {c : Char} {cs : List Char} {ts : List Token}
    (hc : Ignored.isSeparator c) (h : LexesWith notes cs ts) : LexesWith notes (c :: cs) ts := by
  have hsplit : Ignored.split false ([c] ++ cs) =
      ([c] ++ (Ignored.split false cs).1, (Ignored.split false cs).2) := by
    rw [List.singleton_append, Ignored.split, if_pos hc]
    rfl
  have hsharp : c ≠ '#' := by
    rintro rfl
    exact absurd hc (by decide)
  exact h.ignored [] hsplit (by rw [List.singleton_append, Ignored.notes, if_neg hsharp]; rfl)

theorem LexesWith.separators {gap cs : List Char} {ts : List Token}
    (hgap : ∀ c ∈ gap, Ignored.isSeparator c) (h : LexesWith notes cs ts) :
    LexesWith notes (gap ++ cs) ts := by
  induction gap with
  | nil => exact h
  | cons c gap ih =>
    obtain ⟨hc, hgap⟩ := List.forall_mem_cons.1 hgap
    exact (ih hgap).separator hc

/-- A comment up to where a line ends, or the text does. -/
theorem LexesWith.commentBefore {line cs : List Char} {ts : List Token}
    (hline : ∀ c ∈ line, Ignored.endsLine c = false) (hsingle : line.head? ≠ some '#')
    (hends : ∀ c ∈ cs.head?, Ignored.endsLine c = true) (h : LexesWith notes cs ts) :
    LexesWith (('#' :: line) :: notes) ('#' :: (line ++ cs)) ts := by
  have hgap : Ignored.IsGap ('#' :: (line ++ [])) cs := .comment hline hsingle hends .nil
  rw [List.append_nil] at hgap
  refine h.ignored ['#' :: line] (Ignored.split_append_of_isGap hgap) ?_
  have hbehind : ∀ c ∈ (Ignored.split false cs).1.head?, Ignored.endsLine c = true := by
    cases cs with
    | nil => simp [Ignored.split]
    | cons c cs =>
      rw [Ignored.split, if_pos (Ignored.isSeparator_of_endsLine (hends c rfl))]
      exact hends
  rw [List.cons_append, Ignored.notes, if_pos rfl, Ignored.notes_line hline hbehind]
  rfl

/-- A comment on a line of its own. -/
theorem LexesWith.comment {line cs : List Char} {ts : List Token}
    (hline : ∀ c ∈ line, Ignored.endsLine c = false) (hsingle : line.head? ≠ some '#')
    (h : LexesWith notes cs ts) :
    LexesWith (('#' :: line) :: notes) ('#' :: line ++ ['\n'] ++ cs) ts := by
  have ends : ∀ c ∈ ('\n' :: cs).head?, Ignored.endsLine c = true := by simp [Ignored.endsLine]
  have spelled := LexesWith.commentBefore hline hsingle ends (h.separator rfl)
  rwa [List.append_assoc, List.cons_append]

/-- Any ignored text in front. -/
theorem LexesWith.exists_gap {gap rest : List Char} {ts : List Token}
    (hgap : Ignored.IsGap gap rest) (h : LexesWith notes rest ts) :
    ∃ notes', LexesWith notes' (gap ++ rest) ts := by
  induction hgap with
  | nil => exact ⟨notes, h⟩
  | separator hc _ ih =>
    obtain ⟨notes', hgap⟩ := ih h
    exact ⟨notes', hgap.separator hc⟩
  | comment line single ends _ ih =>
    obtain ⟨notes', hgap⟩ := ih h
    have commented := hgap.commentBefore line single ends
    rw [← List.append_assoc, ← List.cons_append] at commented
    exact ⟨_, commented⟩

/-- A token in front of a text whose tokens are known. Only a comment could keep it
from being read. -/
theorem LexesWith.token {text rest : List Char} {t : Token} {ts : List Token}
    (hscan : scanToken (text ++ rest) = .ok ⟨t, text, rest⟩) (ht : t ≠ .endOfInput)
    (hsharp : ∀ cs, text ++ rest = '#' :: cs → cs.head? = some '#') (h : LexesWith notes rest ts) :
    LexesWith notes (text ++ rest) (t :: ts) := by
  intro position
  have hsplit : Ignored.split false (text ++ rest) = ([], text ++ rest) := by
    cases hcs : text ++ rest with
    | nil => rfl
    | cons c cs =>
      rw [hcs] at hscan
      rw [Ignored.split, if_neg (by simp [isSeparator_of_scanToken hscan]), if_neg]
      rintro ⟨rfl, hne⟩
      exact hne (hsharp cs hcs)
  have hread : readToken position (text ++ rest) =
      .ok ⟨t, ⟨position, position + Text.byteLength text⟩, [], rest⟩ := by
    rw [readToken_eq_ok, hsplit]
    exact ⟨_, hscan, rfl⟩
  obtain ⟨hfault, htokens, hnotes⟩ := h (position + Text.byteLength text)
  rw [scan_of_token hread ht]
  refine ⟨hfault, ?_, hnotes⟩
  rw [List.map_cons, htokens]
  rfl

theorem LexesWith.name {text : String} {rest : List Char} {ts : List Token} (htext : IsName text)
    (hrest : Breaks rest) (h : LexesWith notes rest ts) :
    LexesWith notes (text.toList ++ rest) (.name text :: ts) := by
  refine LexesWith.token (scanToken_name htext hrest) (by simp) ?_ h
  obtain ⟨c, cs, hcs, hc, -⟩ := htext
  intro ds hds
  rw [hcs, List.cons_append] at hds
  rw [(List.cons.inj hds).1] at hc
  exact absurd hc (by decide)

theorem LexesWith.number {text : String} {isFloat : Bool} {rest : List Char} {ts : List Token}
    (htext : IsNumber text isFloat) (hrest : Breaks rest) (h : LexesWith notes rest ts) :
    LexesWith notes (text.toList ++ rest) ((if isFloat then .float text else .int text) :: ts) := by
  refine LexesWith.token (scanToken_number htext hrest) (by cases isFloat <;> simp) ?_ h
  obtain ⟨c, cs, hcs, hsharp, -, -⟩ := starts_append htext rest
  intro ds hds
  rw [hcs] at hds
  exact absurd (List.cons.inj hds).1 hsharp

theorem LexesWith.quote (text : String) {rest : List Char} {ts : List Token}
    (h : LexesWith notes rest ts) :
    LexesWith notes ((Text.quote text).toList ++ rest) (.string text :: ts) := by
  refine LexesWith.token (scanToken_quote text rest) (by simp) ?_ h
  intro cs hcs
  simp [Text.quote] at hcs

theorem LexesWith.punctuator (p : Punctuator) {rest : List Char} {ts : List Token}
    (hdash : p = .dash → ∀ c ∈ rest.head?, c.isDigit = false) (h : LexesWith notes rest ts) :
    LexesWith notes (p.char :: rest) (.punctuator p :: ts) := by
  change LexesWith notes ([p.char] ++ rest) _
  refine LexesWith.token (scanToken_punctuator p hdash) (by simp) ?_ h
  intro cs hcs
  have hchar : p.char = '#' := (List.cons.inj hcs).1
  cases p <;> exact absurd hchar (by decide)

/-- A line of a description, with the line feed behind it. From its first CR on only separators
may stand in it. -/
theorem LexesWith.description {line rest : List Char} {ts : List Token} (hfeed : '\n' ∉ line)
    (hreturn : ∀ c ∈ Text.fromReturn line, Ignored.isSeparator c) (h : LexesWith notes rest ts) :
    LexesWith notes (Layout.descriptionLine line ++ rest)
      (.description (String.ofList (Text.trim (Text.beforeReturn line))) :: ts) := by
  obtain ⟨text, htext, hscan⟩ := scanToken_description hfeed rest
  have hsharp : ∀ cs, text ++ (Text.fromReturn line ++ '\n' :: rest) = '#' :: cs →
      cs.head? = some '#' := by
    intro cs hcs
    rw [← htext] at hcs
    rw [← (List.cons.inj hcs).2]
    rfl
  rw [htext]
  exact LexesWith.token hscan (by simp) hsharp ((h.separator rfl).separators hreturn)

end SchemaLang
