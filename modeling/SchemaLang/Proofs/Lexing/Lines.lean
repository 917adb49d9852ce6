import SchemaLang.Proofs.Lexing.Boundaries

/-!
# Lines and columns

A place as people count it, with a line and a column, is as good as the byte offset it was made
from: the line is there and is long enough, and the offset is where the line starts and the bytes of
the characters before the column. Only the offset between CR and LF is no place of its own.
-/

namespace SchemaLang

namespace Location

/-- In the order of the text. -/
def Precedes (a b : Location) : Prop := a.line < b.line ∨ a.line = b.line ∧ a.column ≤ b.column

theorem Precedes.refl (a : Location) : a.Precedes a := .inr ⟨rfl, Nat.le_refl _⟩

theorem Precedes.trans {a b c : Location} (h : a.Precedes b) (h' : b.Precedes c) :
    a.Precedes c := by
  unfold Precedes at *
  omega

private theorem precedes_nextLine (a : Location) : a.Precedes a.nextLine :=
  .inl (Nat.lt_succ_self _)

private theorem precedes_nextColumn (a : Location) : a.Precedes a.nextColumn :=
  .inr ⟨rfl, Nat.le_succ _⟩

/-- The place `k` characters into the line that is `lines` further on. -/
def moved (here : Location) (lines k : Nat) : Location :=
  if lines = 0 then ⟨here.line, here.column + k⟩ else ⟨here.line + lines, k + 1⟩

private theorem moved_origin (lines k : Nat) : origin.moved lines k = ⟨lines + 1, k + 1⟩ := by
  cases lines <;> simp [moved, origin] <;> omega

private theorem moved_nextLine (here : Location) (lines k : Nat) :
    here.nextLine.moved lines k = here.moved (lines + 1) k := by
  cases lines <;> simp [moved, nextLine] <;> omega

private theorem moved_nextColumn (here : Location) (lines k : Nat) :
    here.nextColumn.moved lines k = here.moved lines (if lines = 0 then k + 1 else k) := by
  cases lines with
  | zero =>
    simp only [moved, nextColumn, if_true, Location.mk.injEq, true_and]
    omega
  | succ lines => simp [moved, nextColumn]

end Location

namespace Text

/-- The offset is between the two characters of a CR LF. -/
def SplitsBreak (n : Nat) (cs : List Char) : Prop :=
  ∃ before after, cs = before ++ '\r' :: '\n' :: after ∧ n = byteLength before + 1

theorem SplitsBreak.append_left {n : Nat} {cs : List Char} (h : SplitsBreak n cs)
    (front : List Char) : SplitsBreak (byteLength front + n) (front ++ cs) := by
  obtain ⟨before, after, rfl, rfl⟩ := h
  exact ⟨front ++ before, after, (List.append_assoc ..).symm,
    by rw [byteLength_append, Nat.add_assoc]⟩

/-- A text is empty, or starts with a CR LF, or starts with a character that is no CR in
front of an LF. -/
@[elab_as_elim]
theorem breakInduction {motive : List Char → Prop} (nil : motive [])
    (crlf : ∀ cs, motive cs → motive ('\r' :: '\n' :: cs))
    (char : ∀ c cs, (∀ cs', c = '\r' → cs = '\n' :: cs' → False) → motive cs → motive (c :: cs))
    (cs : List Char) : motive cs :=
  lines.induct motive nil crlf (fun c cs single _ => char c cs single)
    (fun c cs single _ => char c cs single) cs

/-- The lines, each with what ends it. Nothing ends the last one. -/
def brokenLines : List Char → List (List Char × List Char)
  | [] => [([], [])]
  | '\r' :: '\n' :: cs => ([], ['\r', '\n']) :: brokenLines cs
  | c :: cs =>
    if isLineBreak c then ([], [c]) :: brokenLines cs
    else (brokenLines cs).modifyHead fun l => (c :: l.1, l.2)

/-- Where the line starts that has `lines` lines in front of it. -/
def lineStart (lines : Nat) (cs : List Char) : Nat :=
  byteLength (((brokenLines cs).take lines).flatMap fun l => l.1 ++ l.2)

private theorem lines_eq (cs : List Char) : lines cs = (brokenLines cs).map Prod.fst := by
  fun_induction lines cs with
  | case1 => rfl
  | case2 cs ih => rw [brokenLines, ih]; rfl
  | case3 c cs single hc ih => rw [brokenLines.eq_3 _ _ single, if_pos hc, ih]; rfl
  | case4 c cs single hc ih =>
    rw [brokenLines.eq_3 _ _ single, if_neg hc, ih]
    cases brokenLines cs <;> rfl

private theorem exists_brokenLines (cs : List Char) : ∃ l ls, brokenLines cs = l :: ls := by
  fun_induction brokenLines cs with
  | case1 => exact ⟨_, _, rfl⟩
  | case2 => exact ⟨_, _, rfl⟩
  | case3 => exact ⟨_, _, rfl⟩
  | case4 c cs single hc ih =>
    obtain ⟨l, ls, h⟩ := ih
    exact ⟨_, _, congrArg (List.modifyHead _) h⟩

private theorem brokenLines_of_isLineBreak {c : Char} {cs : List Char}
    (single : ∀ cs', c = '\r' → cs = '\n' :: cs' → False) (hc : isLineBreak c = true) :
    brokenLines (c :: cs) = ([], [c]) :: brokenLines cs := by
  rw [brokenLines.eq_3 _ _ single, if_pos hc]

private theorem brokenLines_of_not_isLineBreak {c : Char} {cs : List Char}
    (hc : isLineBreak c = false) :
    brokenLines (c :: cs) = (brokenLines cs).modifyHead fun l => (c :: l.1, l.2) := by
  have single : ∀ cs', c = '\r' → cs = '\n' :: cs' → False := by
    rintro _ rfl -
    exact absurd hc (by decide)
  rw [brokenLines.eq_3 _ _ single, if_neg (by simp [hc])]

/-- A line is in the text between two line breaks, or from the start or up to the end, and
has none within. -/
structure IsLineOf (cs before line after : List Char) : Prop where
  text : cs = before ++ (line ++ after)
  front : before = [] ∨ ∃ c, before.getLast? = some c ∧ isLineBreak c = true
  whole : ∀ c ∈ line, isLineBreak c = false
  behind : after = [] ∨ ∃ c, after.head? = some c ∧ isLineBreak c = true

/-- Every line of the text is one, and starts where lines are counted to start. -/
def LinesStand (cs : List Char) : Prop :=
  ∀ lines l, (brokenLines cs)[lines]? = some l → ∃ before after, IsLineOf cs before l.1 after ∧
    byteLength before = lineStart lines cs ∧ (lines = 0 ↔ before = [])

namespace LinesStand

variable {cs : List Char}

private theorem behindBreak {ending : List Char} {first last : Char} (h : LinesStand cs)
    (broken : brokenLines (ending ++ cs) = ([], ending) :: brokenLines cs)
    (hfirst : ending.head? = some first) (firstBreaks : isLineBreak first = true)
    (hlast : ending.getLast? = some last) (lastBreaks : isLineBreak last = true) :
    LinesStand (ending ++ cs) := by
  intro lines l hl
  rw [broken] at hl
  cases lines with
  | zero =>
    obtain rfl := Option.some.inj hl
    refine ⟨[], ending ++ cs, ⟨rfl, .inl rfl, List.forall_mem_nil _, .inr ⟨first, ?_, firstBreaks⟩⟩,
      rfl, by simp⟩
    simp [hfirst]
  | succ lines =>
    obtain ⟨before, after, ⟨rfl, front, whole, behind⟩, start, -⟩ := h lines l hl
    refine ⟨ending ++ before, after, ⟨(List.append_assoc ..).symm, .inr ?_, whole, behind⟩, ?_, ?_⟩
    · rcases front with rfl | ⟨c, hc, breaks⟩
      · exact ⟨last, by simpa using hlast, lastBreaks⟩
      · exact ⟨c, by simp [hc], breaks⟩
    · simp [start, lineStart, broken]
    · cases ending with
      | nil => cases hfirst
      | cons => simp

private theorem behindChar {c : Char} (h : LinesStand cs) (hc : isLineBreak c = false) :
    LinesStand (c :: cs) := by
  intro lines l hl
  obtain ⟨l₀, ls, hcs⟩ := exists_brokenLines cs
  have broken : brokenLines (c :: cs) = _ := brokenLines_of_not_isLineBreak hc
  rw [hcs] at broken
  rw [broken] at hl
  cases lines with
  | zero =>
    obtain rfl := Option.some.inj hl
    obtain ⟨before, after, ⟨text, -, whole, behind⟩, -, first⟩ := h 0 l₀ (by rw [hcs]; rfl)
    obtain rfl := first.1 rfl
    exact ⟨[], after,
      ⟨congrArg (List.cons c) text, .inl rfl, List.forall_mem_cons.2 ⟨hc, whole⟩, behind⟩, rfl,
      by simp⟩
  | succ lines =>
    obtain ⟨before, after, ⟨rfl, front, whole, behind⟩, start, first⟩ :=
      h (lines + 1) l (by rw [hcs]; exact hl)
    have inner : before ≠ [] := fun hbefore => Nat.succ_ne_zero _ (first.2 hbefore)
    obtain ⟨d, hd, breaks⟩ := front.resolve_left inner
    refine ⟨c :: before, after,
      ⟨rfl, .inr ⟨d, by simp [List.getLast?_cons, hd], breaks⟩, whole, behind⟩, ?_, by simp⟩
    rw [byteLength_cons, start]
    simp [lineStart, broken, hcs]

end LinesStand

private theorem linesStand (cs : List Char) : LinesStand cs := by
  induction cs using breakInduction with
  | nil =>
    intro lines l hl
    cases lines with
    | zero =>
      obtain rfl := Option.some.inj hl
      exact ⟨[], [], ⟨rfl, .inl rfl, List.forall_mem_nil _, .inl rfl⟩, rfl, by simp⟩
    | succ lines => cases hl
  | crlf cs ih =>
    have behind : LinesStand (['\r', '\n'] ++ cs) :=
      ih.behindBreak rfl rfl (by decide) rfl (by decide)
    exact behind
  | char c cs single ih =>
    cases hc : isLineBreak c with
    | true =>
      have behind : LinesStand ([c] ++ cs) :=
        ih.behindBreak (brokenLines_of_isLineBreak single hc) rfl hc rfl hc
      exact behind
    | false => exact ih.behindChar hc

/-- The offset has `lines` lines and `k` characters of the next one in front of it. -/
def StandsAt (n : Nat) (cs : List Char) (lines k : Nat) : Prop :=
  ∃ l, (brokenLines cs)[lines]? = some l ∧ k ≤ l.1.length ∧
    n = lineStart lines cs + byteLength (l.1.take k)

namespace StandsAt

variable {n lines k : Nat} {cs cs' : List Char}

theorem start (cs : List Char) : StandsAt 0 cs 0 0 := by
  obtain ⟨l, ls, h⟩ := exists_brokenLines cs
  exact ⟨l, by rw [h]; rfl, Nat.zero_le _, rfl⟩

/-- Behind a line break. -/
theorem behindBreak {ending : List Char} {size : Nat} (h : StandsAt n cs lines k)
    (broken : brokenLines cs' = ([], ending) :: brokenLines cs) (hsize : byteLength ending = size) :
    StandsAt (n + size) cs' (lines + 1) k := by
  obtain ⟨l, hl, hk, rfl⟩ := h
  refine ⟨l, by rw [broken]; exact hl, hk, ?_⟩
  have front : lineStart (lines + 1) cs' = size + lineStart lines cs := by
    simp [lineStart, broken, hsize]
  rw [front]
  omega

/-- Behind a character of a line. -/
theorem behindChar {c : Char} (h : StandsAt n cs lines k)
    (broken : brokenLines cs' = (brokenLines cs).modifyHead fun l => (c :: l.1, l.2)) :
    StandsAt (c.utf8Size + n) cs' lines (if lines = 0 then k + 1 else k) := by
  obtain ⟨l, hl, hk, rfl⟩ := h
  obtain ⟨first, ls, hcs⟩ := exists_brokenLines cs
  rw [hcs] at hl broken
  cases lines with
  | zero =>
    obtain rfl := Option.some.inj hl
    exact ⟨(c :: first.1, first.2), by rw [broken]; rfl, Nat.succ_le_succ hk, by simp [lineStart]⟩
  | succ lines =>
    refine ⟨l, by rw [broken]; exact hl, hk, ?_⟩
    simp [lineStart, broken, hcs, Nat.add_assoc]

end StandsAt

section

variable (here : Location) {c : Char} {cs : List Char} (single : ∀ cs', c = '\r' →
  cs = '\n' :: cs' → False)

private theorem locate_break (n : Nat) (cs : List Char) :
    locate here (n + 2) ('\r' :: '\n' :: cs) = locate here.nextLine n cs := by
  rw [locate, if_neg (by omega), if_neg (by omega), Nat.add_sub_cancel]

include single

private theorem locate_inside {n : Nat} (h : n < c.utf8Size) : locate here n (c :: cs) = here := by
  rw [locate.eq_3 _ _ _ _ single, if_pos h]

private theorem locate_char (n : Nat) : locate here (c.utf8Size + n) (c :: cs) =
    locate (if isLineBreak c then here.nextLine else here.nextColumn) n cs := by
  rw [locate.eq_3 _ _ _ _ single, if_neg (by omega), Nat.add_sub_cancel_left]

end

private theorem utf8Size_crlf (n : Nat) : '\r'.utf8Size + ('\n'.utf8Size + n) = n + 2 := by
  rw [← Nat.add_assoc, Nat.add_comm]
  rfl

@[simp] theorem locate_zero (here : Location) (cs : List Char) : locate here 0 cs = here := by
  cases cs using breakInduction with
  | nil => rfl
  | crlf cs => rfl
  | char c cs single => exact locate_inside here single c.utf8Size_pos

private theorem IsBoundary.zero_or_exists {n : Nat} {c : Char} {cs : List Char}
    (h : IsBoundary n (c :: cs)) : n = 0 ∨ ∃ m, n = c.utf8Size + m ∧ IsBoundary m cs := by
  obtain ⟨before, after, hcs, rfl⟩ := h
  cases before with
  | nil => exact .inl rfl
  | cons d before =>
    obtain ⟨rfl, rfl⟩ := List.cons.inj hcs
    exact .inr ⟨byteLength before, rfl, before, after, rfl, rfl⟩

/-- Lines and columns are counted as far as the offset. -/
theorem exists_standsAt {n : Nat} {cs : List Char} (boundary : IsBoundary n cs)
    (whole : ¬ SplitsBreak n cs) :
    ∃ lines k, StandsAt n cs lines k ∧ ∀ here, locate here n cs = here.moved lines k := by
  induction cs using breakInduction generalizing n with
  | nil =>
    obtain rfl : n = 0 := Nat.le_zero.1 boundary.le_byteLength
    exact ⟨0, 0, .start [], fun here => rfl⟩
  | crlf cs ih =>
    rcases boundary.zero_or_exists with rfl | ⟨m, rfl, inner⟩
    · exact ⟨0, 0, .start _, fun here => locate_zero here _⟩
    rcases inner.zero_or_exists with rfl | ⟨m, rfl, behind⟩
    · exact absurd ⟨[], cs, rfl, rfl⟩ whole
    obtain ⟨lines, k, stands, located⟩ :=
      ih behind fun h => whole ((h.append_left ['\n']).append_left ['\r'])
    rw [utf8Size_crlf]
    refine ⟨lines + 1, k, stands.behindBreak rfl rfl, fun here => ?_⟩
    rw [locate_break, located, Location.moved_nextLine]
  | char c cs single ih =>
    rcases boundary.zero_or_exists with rfl | ⟨m, rfl, inner⟩
    · exact ⟨0, 0, .start _, fun here => locate_zero here _⟩
    obtain ⟨lines, k, stands, located⟩ := ih inner fun h => whole (h.append_left [c])
    cases hc : isLineBreak c with
    | true =>
      have stands' := stands.behindBreak (brokenLines_of_isLineBreak single hc) (Nat.add_zero _)
      rw [Nat.add_comm] at stands'
      refine ⟨lines + 1, k, stands', fun here => ?_⟩
      rw [locate_char here single, if_pos hc, located, Location.moved_nextLine]
    | false =>
      have notBreak : ¬ isLineBreak c = true := by simp [hc]
      refine ⟨lines, _, stands.behindChar (brokenLines_of_not_isLineBreak hc), fun here => ?_⟩
      rw [locate_char here single, if_neg notBreak, located, Location.moved_nextColumn]

private theorem precedes_locate (here : Location) (n : Nat) (cs : List Char) :
    here.Precedes (locate here n cs) := by
  induction cs using breakInduction generalizing here n with
  | nil => exact .refl here
  | crlf cs ih =>
    match n with
    | 0 => exact .refl here
    | 1 => exact here.precedes_nextLine
    | n + 2 =>
      rw [locate_break]
      exact here.precedes_nextLine.trans (ih ..)
  | char c cs single ih =>
    rcases Nat.lt_or_ge n c.utf8Size with h | h
    · rw [locate_inside here single h]
      exact .refl here
    · obtain ⟨n, rfl⟩ := Nat.exists_eq_add_of_le h
      rw [locate_char here single]
      refine .trans ?_ (ih ..)
      split
      · exact here.precedes_nextLine
      · exact here.precedes_nextColumn

private theorem locate_mono (here : Location) {m n : Nat} (h : m ≤ n) (cs : List Char) :
    (locate here m cs).Precedes (locate here n cs) := by
  induction cs using breakInduction generalizing here m n with
  | nil => exact .refl here
  | crlf cs ih =>
    match m, n with
    | 0, n => exact precedes_locate here n _
    | 1, 1 => exact .refl _
    | 1, n + 2 =>
      rw [locate_break]
      exact precedes_locate here.nextLine n cs
    | m + 2, n + 2 =>
      rw [locate_break, locate_break]
      exact ih _ (Nat.le_of_add_le_add_right h)
  | char c cs single ih =>
    rcases Nat.lt_or_ge m c.utf8Size with hm | hm
    · rw [locate_inside here single hm]
      exact precedes_locate here n _
    · obtain ⟨n, rfl⟩ := Nat.exists_eq_add_of_le (Nat.le_trans hm h)
      obtain ⟨m, rfl⟩ := Nat.exists_eq_add_of_le hm
      rw [locate_char here single, locate_char here single]
      exact ih _ (Nat.le_of_add_le_add_left h)

/-- The last boundary that is not behind an offset. -/
structure IsFloor (m n : Nat) (cs : List Char) : Prop where
  le : m ≤ n
  boundary : IsBoundary m cs
  nearest : ∀ k, m < k → k ≤ n → ¬ IsBoundary k cs

private theorem IsFloor.self {n : Nat} {cs : List Char} (h : IsBoundary n cs) : IsFloor n n cs :=
  ⟨Nat.le_refl n, h, fun _ hlt hle => absurd hle (Nat.not_le.2 hlt)⟩

theorem IsFloor.cons {m n : Nat} {cs : List Char} (h : IsFloor m n cs) (c : Char) :
    IsFloor (c.utf8Size + m) (c.utf8Size + n) (c :: cs) where
  le := Nat.add_le_add_left h.le _
  boundary := by simpa using h.boundary.append_left [c]
  nearest k hlt hle hk := by
    rcases hk.zero_or_exists with rfl | ⟨k, rfl, inner⟩
    · exact absurd hlt (Nat.not_lt_zero _)
    · exact h.nearest k (by omega) (by omega) inner

/-- Every offset stands for the last boundary that is not behind it. -/
theorem exists_isFloor (n : Nat) (cs : List Char) :
    ∃ m, IsFloor m n cs ∧ ∀ here, locate here n cs = locate here m cs := by
  induction cs using breakInduction generalizing n with
  | nil =>
    refine ⟨0, ⟨Nat.zero_le n, isBoundary_append [] [], fun k hlt _ hk => ?_⟩, fun here => rfl⟩
    exact Nat.not_lt.2 hk.le_byteLength hlt
  | crlf cs ih =>
    match n with
    | 0 => exact ⟨0, .self (isBoundary_append [] _), fun here => rfl⟩
    | 1 => exact ⟨1, .self (isBoundary_append ['\r'] _), fun here => rfl⟩
    | n + 2 =>
      obtain ⟨m, floor, same⟩ := ih n
      have behind := (floor.cons '\n').cons '\r'
      rw [utf8Size_crlf, utf8Size_crlf] at behind
      exact ⟨m + 2, behind, fun here => by rw [locate_break, locate_break, same]⟩
  | char c cs single ih =>
    rcases Nat.lt_or_ge n c.utf8Size with h | h
    · refine ⟨0, ⟨Nat.zero_le n, isBoundary_append [] _, fun k hlt hle hk => ?_⟩, fun here => ?_⟩
      · rcases hk.zero_or_exists with rfl | ⟨k, rfl, -⟩
        · exact Nat.not_lt_zero _ hlt
        · omega
      · rw [locate_inside here single h, locate_zero]
    · obtain ⟨n, rfl⟩ := Nat.exists_eq_add_of_le h
      obtain ⟨m, floor, same⟩ := ih n
      exact ⟨_, floor.cons c, fun here => by
        rw [locate_char here single, locate_char here single, same]⟩

/-- Counting goes on where a text does, unless a CR LF is cut. -/
theorem locate_append (here : Location) (n : Nat) (before : List Char) {after : List Char}
    (whole : ∀ cs, after ≠ '\n' :: cs) :
    locate here (byteLength before + n) (before ++ after) =
      locate (locate here (byteLength before) before) n after := by
  induction before using breakInduction generalizing here with
  | nil =>
    rw [byteLength_nil, Nat.zero_add]
    rfl
  | crlf before ih =>
    have size : byteLength ('\r' :: '\n' :: before) = byteLength before + 2 := utf8Size_crlf _
    rw [size, Nat.add_right_comm]
    exact (locate_break ..).trans
      ((ih here.nextLine).trans (congrArg (locate · n after) (locate_break ..).symm))
  | char c before single ih =>
    have single' : ∀ cs, c = '\r' → before ++ after = '\n' :: cs → False := by
      intro cs hc h
      cases before with
      | nil => exact whole cs h
      | cons d before =>
        obtain ⟨rfl, -⟩ := List.cons.inj h
        exact single before hc rfl
    rw [byteLength_cons, Nat.add_assoc, List.cons_append, locate_char here single',
      locate_char here single]
    exact ih _

/-- The offset between CR and LF stands for the start of the next line, as the one
behind both does. -/
theorem locate_crlf (here : Location) (before after : List Char) :
    locate here (byteLength before + 1) (before ++ '\r' :: '\n' :: after) =
        (locate here (byteLength before) (before ++ '\r' :: '\n' :: after)).nextLine ∧
      locate here (byteLength before + 2) (before ++ '\r' :: '\n' :: after) =
        (locate here (byteLength before) (before ++ '\r' :: '\n' :: after)).nextLine := by
  have whole : ∀ cs, '\r' :: '\n' :: after ≠ '\n' :: cs := fun cs h => by simp at h
  have front := locate_append here 0 before whole
  rw [locate_zero] at front
  rw [locate_append here 1 before whole, locate_append here 2 before whole, ← front]
  exact ⟨rfl, (locate_break _ 0 after).trans (locate_zero ..)⟩

end Text

namespace Source

/-- Where a line starts, counted from 1. -/
def lineStart (s : Source) (number : Nat) : Nat := Text.lineStart (number - 1) s.chars

/-- The line and the column of a position lead back to it: the line of that number has at least as
many characters as there are before the column, and the position is the start of the line and the
bytes of these characters. -/
structure LocatedIn (s : Source) (p : Nat) (line : List Char) : Prop where
  found : s.line? (s.locationAt p).line = some line
  reaches : (s.locationAt p).column - 1 ≤ line.length
  position : p = s.lineStart (s.locationAt p).line +
    Text.byteLength (line.take ((s.locationAt p).column - 1))

/-- The positions in a source that are places of their own: between two characters, but not
between CR and LF. -/
structure IsPlace (s : Source) (p : Nat) : Prop where
  boundary : Text.IsBoundary p s.chars
  whole : ¬ Text.SplitsBreak p s.chars

variable {s : Source}

theorem IsPlace.exists_locatedIn {p : Nat} (h : s.IsPlace p) : ∃ line, s.LocatedIn p line := by
  obtain ⟨lines, k, ⟨l, hl, hk, hp⟩, located⟩ := Text.exists_standsAt h.boundary h.whole
  have location : s.locationAt p = ⟨lines + 1, k + 1⟩ :=
    (located .origin).trans (Location.moved_origin lines k)
  refine ⟨l.1, ?_, ?_, ?_⟩
  · rw [location, line?, Text.lines_eq, List.getElem?_map]
    exact congrArg (Option.map Prod.fst) hl
  · rw [location]
    exact hk
  · rw [location]
    exact hp

private theorem IsPlace.eq_of_locationAt {p q : Nat} (hp : s.IsPlace p) (hq : s.IsPlace q)
    (same : s.locationAt p = s.locationAt q) : p = q := by
  obtain ⟨line, hline, -, hpos⟩ := hp.exists_locatedIn
  obtain ⟨line', hline', -, hpos'⟩ := hq.exists_locatedIn
  rw [same, hline'] at hline
  obtain rfl := Option.some.inj hline
  rw [hpos, hpos', same]

/-- A line is the text from its start to the next line break. -/
theorem exists_isLineOf {number : Nat} {line : List Char} (h : s.line? number = some line) :
    ∃ before after, Text.IsLineOf s.chars before line after ∧
    Text.byteLength before = s.lineStart number := by
  rw [line?, Text.lines_eq, List.getElem?_map] at h
  obtain ⟨l, hl, rfl⟩ := Option.map_eq_some_iff.1 h
  obtain ⟨before, after, isLine, start, -⟩ := Text.linesStand s.chars _ l hl
  exact ⟨before, after, isLine, start⟩

/-- Lines and columns say where a position is, and are in the order of the text. -/
structure LocatesFaithfully (s : Source) : Prop where
  mono : ∀ p q, p ≤ q → (s.locationAt p).Precedes (s.locationAt q)
  exact : ∀ p, s.IsPlace p → ∃ line, s.LocatedIn p line
  injective : ∀ p q, s.IsPlace p → s.IsPlace q → s.locationAt p = s.locationAt q → p = q
  /-- The lines that are counted are those between line breaks. -/
  lines : ∀ number line, s.line? number = some line →
    ∃ before after, Text.IsLineOf s.chars before line after ∧
    Text.byteLength before = s.lineStart number
  /-- Inside of a character and past the end it is the last boundary before that counts. -/
  floor : ∀ p, ∃ q, Text.IsFloor q p s.chars ∧ s.locationAt p = s.locationAt q
  /-- Between CR and LF it is the start of the next line. -/
  crlf : ∀ before after, s.chars = before ++ '\r' :: '\n' :: after →
    s.locationAt (Text.byteLength before + 1) = (s.locationAt (Text.byteLength before)).nextLine ∧
      s.locationAt (Text.byteLength before + 2) = (s.locationAt (Text.byteLength before)).nextLine

/-- Lines and columns are faithful in every source. -/
theorem locatesFaithfully (s : Source) : s.LocatesFaithfully where
  mono _ _ h := Text.locate_mono .origin h s.chars
  exact _ place := place.exists_locatedIn
  injective _ _ := IsPlace.eq_of_locationAt
  lines _ _ := exists_isLineOf
  floor p := (Text.exists_isFloor p s.chars).imp fun _ h => ⟨h.1, h.2 .origin⟩
  crlf before after h := by
    simp only [locationAt, h]
    exact Text.locate_crlf .origin before after

example :
    let s : Source := ⟨"a\r\né\u2028b", ""⟩
    [0, 1, 2, 3, 4, 5, 8, 9].map s.locationAt =
      [⟨1, 1⟩, ⟨1, 2⟩, ⟨2, 1⟩, ⟨2, 1⟩, ⟨2, 1⟩, ⟨2, 2⟩, ⟨3, 1⟩, ⟨3, 2⟩] := by decide +kernel

end Source

end SchemaLang
