import SchemaLang.Proofs.Gathering
import SchemaLang.Proofs.Lexing.Slices

/-!
# The tokens of two texts with a line feed between them

A line feed ends every token and every comment that the end of the text ends. So where a text can
be read to its end, a line feed and another text behind it leave its tokens alone, and behind
them stand the tokens of the other text. These are the tokens that the other text has on its own,
only further along.
-/

namespace SchemaLang

/-- A token is read alike in front of a line feed. -/
theorem Scans.lineFeed {cs : List Char} {s : Scanned} (h : Scans cs s) (hs : s.text ≠ [])
    (tail : List Char) : Scans (s.text ++ '\n' :: tail) { s with rest := '\n' :: tail } := by
  cases h with
  | endOfInput => exact absurd rfl hs
  | description rest =>
    have stops : ∀ c ∈ ('\n' :: tail).head?, (!Ignored.endsLine c) = false := by
      simp [Ignored.endsLine]
    rw [← Scanned.description_append _ stops]
    exact .description _
  | string hr => exact .string (StringLiteral.scan_local hr _)
  | @number _ text _ isFloat hstarts hr =>
    have hnumber := Number.isNumber_of_scan hr
    obtain ⟨c, ds, hcons, -, -, hstarts⟩ := starts_append hnumber ('\n' :: tail)
    have hscan := Number.scan_append hnumber (.lineFeed tail)
    rw [String.toList_ofList] at hcons hscan
    exact .number (hcons ▸ hstarts) hscan
  | @name c rest hc =>
    have stops : ∀ c ∈ ('\n' :: tail).head?, isNameChar c = false := by simp [isNameChar]
    rw [← Scanned.name_append _ stops, Scanned.text_name hc]
    exact .name hc
  | punctuator p hplain =>
    refine .punctuator p ?_
    by_cases hp : p.char = '-'
    · rw [hp, starts_minus]
      rfl
    · rw [starts_eq_isDigit hp] at hplain ⊢
      exact hplain

/-- The same token with its place counted from `n` bytes further back. -/
def Placed.moveRight (n : Nat) (p : Placed) : Placed := (p.1, ⟨p.2.start + n, p.2.stop + n⟩)

section Moved

variable {position position' n : Nat} {gap rest : List Char}

/-- Behind other ignored text and at another place the same token is read, if any is. -/
theorem readToken_of_isGap (h : Ignored.IsGap gap rest)
    (hposition : position' + Text.byteLength gap = position + n) :
    (∃ r, readToken position rest = .ok r ∧ readToken position' (gap ++ rest) =
        .ok ⟨r.token, ⟨r.span.start + n, r.span.stop + n⟩, gap ++ r.gap, r.rest⟩) ∨
      (∃ e, readToken position rest = .error e) ∧
      ∃ e, readToken position' (gap ++ rest) = .error e := by
  have hsplit := Ignored.split_append_of_isGap h
  simp only [readToken, hsplit, Text.byteLength_append]
  cases scanToken (Ignored.split false rest).2 with
  | error e => exact .inr ⟨⟨_, rfl⟩, _, rfl⟩
  | ok s =>
    refine .inl ⟨_, rfl, ?_⟩
    simp only [Except.ok.injEq, Reading.mk.injEq, Span.mk.injEq, true_and, and_true]
    constructor
    · omega
    · omega

/-- Behind other ignored text and at another place a text has the same tokens. -/
theorem placed_scan_of_isGap (h : Ignored.IsGap gap rest)
    (hposition : position' + Text.byteLength gap = position + n) :
    (scan position' (gap ++ rest)).readings.map Reading.placed =
      (scan position rest).readings.map fun r => r.placed.moveRight n := by
  fun_induction scan position rest generalizing position' gap with
  | case1 position rest e hread =>
    obtain ⟨r, hr, -⟩ | ⟨-, e', hread'⟩ := readToken_of_isGap h hposition
    · cases hread.symm.trans hr
    · rw [scan_of_error hread']
      rfl
  | case2 position rest r hread hend =>
    obtain ⟨r', hr', hread'⟩ | ⟨⟨e, he⟩, -⟩ := readToken_of_isGap h hposition
    · obtain rfl := Except.ok.inj (hread.symm.trans hr')
      rw [scan_of_end hread' hend]
      rfl
    · cases hread.symm.trans he
  | case3 position rest r hread hend behind =>
    rename_i ih
    obtain ⟨r', hr', hread'⟩ | ⟨⟨e, he⟩, -⟩ := readToken_of_isGap h hposition
    · obtain rfl := Except.ok.inj (hread.symm.trans hr')
      rw [scan_of_token hread' hend]
      exact congrArg (List.cons _) (ih .nil rfl)
    · cases hread.symm.trans he

end Moved

/-- Ignored text that goes to the end of a text goes on with a line feed. -/
theorem Ignored.IsGap.lineFeed {gap rest : List Char} (h : IsGap gap rest) (hrest : rest = [])
    (tail : List Char) : IsGap (gap ++ ['\n']) tail := by
  induction h with
  | nil => exact .separator rfl .nil
  | separator hc _ ih => exact .separator hc (ih hrest)
  | @comment text gap rest line single ends _ ih =>
    subst hrest
    have ends' : ∀ c ∈ ((gap ++ ['\n']) ++ tail).head?, endsLine c = true := by
      cases gap with
      | nil =>
        rintro c ⟨⟩
        rfl
      | cons d gap => exact ends
    rw [List.cons_append, List.append_assoc]
    exact .comment line single ends' (ih rfl)

/-- In front of a line feed and another text the tokens of a text are its own, and behind them stand
those of the other text. -/
theorem placed_scan_lineFeed {position : Nat} {cs : List Char} (h : (scan position cs).fault = none)
    (tail : List Char) :
    ∃ front e, (scan position cs).readings = front ++ [e] ∧ e.token = .endOfInput ∧
      (scan position (cs ++ '\n' :: tail)).readings.map Reading.placed = front.map Reading.placed ++
        (scan 0 tail).readings.map fun r =>
        r.placed.moveRight (position + Text.byteLength cs + 1) := by
  fun_induction scan position cs with
  | case1 position cs e hread => exact absurd h (Option.some_ne_none e)
  | case2 position cs r hread hend =>
    obtain ⟨text, hcovers⟩ := covers_of_readToken hread
    -- What is left of the text is ignored, and the line feed with it.
    have hgap := hcovers.ignored
    rw [hcovers.isEmpty.2 hend, hcovers.ends hend] at hgap
    have happend := hcovers.append
    rw [hcovers.isEmpty.2 hend, hcovers.ends hend, List.append_nil, List.append_nil] at happend
    refine ⟨[], r, rfl, hend, ?_⟩
    have hposition : position + Text.byteLength (r.gap ++ ['\n']) =
        0 + (position + Text.byteLength cs + 1) := by
      rw [happend, Text.byteLength_append, Nat.zero_add, Nat.add_assoc]
      rfl
    rw [← placed_scan_of_isGap (hgap.lineFeed rfl tail) hposition, happend, List.append_assoc]
    rfl
  | case3 position cs r hread hend _ ih =>
    obtain ⟨text, hcovers⟩ := covers_of_readToken hread
    have htext : text ≠ [] := mt hcovers.isEmpty.1 hend
    obtain ⟨front, e, hfront, he, hjoined⟩ := ih h
    -- The line feed stands right behind the last token, and behind any other one stands what stood
    -- there before.
    have hscans : Scans (text ++ (r.rest ++ '\n' :: tail)) ⟨r.token, text,
        r.rest ++ '\n' :: tail⟩ := by
      by_cases hrest : r.rest = []
      · rw [hrest]
        exact hcovers.scans.lineFeed htext tail
      · refine hcovers.scans.local htext ?_
        obtain ⟨c, more, hmore⟩ := List.exists_cons_of_ne_nil hrest
        rw [hmore]
        exact fun _ hd => hd
    have hread' := hcovers.readToken_of_scans hend hscans hcovers.ignored position
    have hstop : r.span.stop = position + Text.byteLength r.gap + Text.byteLength text :=
      congrArg Span.stop hcovers.span
    have hlength : position + Text.byteLength cs = r.span.stop + Text.byteLength r.rest := by
      rw [hstop, hcovers.append, Text.byteLength_append, Text.byteLength_append]
      omega
    refine ⟨r :: front, e, congrArg (List.cons r) hfront, he, ?_⟩
    rw [hcovers.append, List.append_assoc, List.append_assoc, scan_of_token hread' hend,
      ← hcovers.append, hlength, List.map_cons, ← hstop, hjoined, List.map_cons, List.cons_append]
    congr 1
    rw [Reading.placed, Reading.placed, hcovers.span]

end SchemaLang
