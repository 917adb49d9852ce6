import SchemaLang.Proofs.Lexing.Agreement
import SchemaLang.Proofs.Lexing.Tiling
import SchemaLang.Proofs.Printing.Lexes

/-!
# Comments looked for by bytes

The search for comments takes the bytes between two tokens, looks for a sharp in them and goes on at
the end of its line. It finds the comments that the reader of characters finds there, and it never
leaves the text between the tokens.
-/

namespace SchemaLang

namespace Bytewise

variable (cs : List Char)

/-- The comments between two offsets, from the first sharp there on. -/
def gapComments (pos stop : Nat) : Reads (List Span) :=
  if _h : pos ≤ stop then
    match _hfind : (((Text.bytes cs).drop pos).take (stop - pos)).findIdx?
        (Text.isAscii (· == '#')) with
    | none => pure []
    | some offset => do
      let lineStop ← lineEnd cs (pos + offset)
      if _hstop : pos + offset < lineStop then
        let behind ← gapComments lineStop stop
        return ⟨pos + offset, lineStop⟩ :: behind
      else need none
  else need none
termination_by stop - pos
decreasing_by
  obtain ⟨hoffset, -⟩ := List.findIdx?_eq_some_iff_getElem.1 _hfind
  rw [List.length_take] at hoffset
  omega

/-- The comments in front of all tokens from an offset on. -/
def comments (pos : Nat) : Reads (List Span) := do
  let (token, span) ← readToken cs pos
  let here ← gapComments cs pos span.start
  if token = .endOfInput then return here
  else if _h : pos < span.stop ∧ span.stop ≤ Text.byteLength cs then
    let behind ← comments span.stop
    return here ++ behind
  else need none
termination_by Text.byteLength cs - pos

end Bytewise

namespace Ignored

variable {front line gap more rest : List Char} {p start : Nat}

/-- No comment starts where there is no sharp. -/
theorem comments_append (h : '#' ∉ front) (p : Nat) (gap : List Char) :
    comments p none (front ++ gap) = comments (p + Text.byteLength front) none gap := by
  induction front generalizing p with
  | nil => rfl
  | cons c front ih =>
    obtain ⟨hc, hfront⟩ := not_or.1 (mt List.mem_cons.2 h)
    rw [List.cons_append, comments, if_neg (Ne.symm hc), ih hfront,
      Text.byteLength_cons, Nat.add_assoc]

/-- A comment that was started goes up to the end of its line. -/
theorem comments_line (inside : ∀ c ∈ line, endsLine c = false)
    (ends : ∀ c ∈ gap.head?, endsLine c = true) (start p : Nat) :
    comments p (some start) (line ++ gap) =
      ⟨start, p + Text.byteLength line⟩ :: comments (p + Text.byteLength line) none gap := by
  induction line generalizing p with
  | nil =>
    cases gap with
    | nil => rfl
    | cons c gap =>
      have hc := ends c rfl
      have hsharp : c ≠ '#' := by
        rintro rfl
        exact absurd hc (by decide)
      simp only [List.nil_append, comments, if_pos hc, if_neg hsharp]
      rfl
  | cons c line ih =>
    obtain ⟨hc, inside⟩ := List.forall_mem_cons.1 inside
    rw [List.cons_append, comments, if_neg (by simp [hc]), ih inside,
      Text.byteLength_cons, Nat.add_assoc]

/-- The first sharp in ignored text starts a comment, and behind the comment stands ignored text. -/
theorem IsGap.exists_line (h : IsGap (front ++ '#' :: more) rest) (hfront : '#' ∉ front) :
    ∃ line gap, more = line ++ gap ∧ (∀ c ∈ line, endsLine c = false) ∧
      (∀ c ∈ (gap ++ rest).head?, endsLine c = true) ∧ IsGap gap rest := by
  generalize hwhole : front ++ '#' :: more = whole at h
  induction h generalizing front with
  | nil => exact absurd hwhole (by simp)
  | @separator c gap rest separates tail ih =>
    cases front with
    | nil =>
      obtain rfl : '#' = c := (List.cons.inj hwhole).1
      exact absurd separates (by decide)
    | cons d front =>
      exact ih (mt (List.mem_cons_of_mem d) hfront) (List.cons.inj hwhole).2
  | @comment text gap rest line single ends tail ih =>
    cases front with
    | nil => exact ⟨text, gap, (List.cons.inj hwhole).2, line, ends, tail⟩
    | cons d front =>
      obtain rfl : d = '#' := (List.cons.inj hwhole).1
      exact absurd List.mem_cons_self hfront

end Ignored

/-- Behind a token the text goes on with the rest. -/
theorem Text.RestAt.behind {cs rest : List Char} {p : Nat} {r : Reading} (h : RestAt cs p rest)
    (hread : readToken p rest = .ok r) : RestAt cs r.span.stop r.rest := by
  obtain ⟨text, covers⟩ := covers_of_readToken hread
  rw [covers.append] at h
  rw [covers.span]
  exact h.advance.advance

namespace Bytewise

open Text

variable {cs front gap more rest : List Char} {p : Nat} {x : Char}

/-- A byte that no character of a text is, no byte of the text is. -/
theorem findIdx?_bytes_of_notMem (hx : x.toNat < 128) (h : x ∉ front) :
    (bytes front).findIdx? (isAscii (· == x)) = none := by
  have hplain : front.takeWhile (fun c => !(c == x)) = front := by
    rw [List.takeWhile_eq_self_iff]
    intro c hc
    simpa using fun he : c = x => h (he ▸ hc)
  have hlength := length_takeWhile_not_bytes (isAsciiClass_eq hx) front
  rw [hplain, ← length_bytes] at hlength
  have hall := List.takeWhile_eq_self_iff.1 ((List.takeWhile_prefix _).eq_of_length hlength)
  rw [List.findIdx?_eq_none_iff]
  exact fun b hb => by simpa using hall b hb

/-- The first byte that is a character of one byte stands where the first such character does. -/
theorem findIdx?_bytes_append (hx : x.toNat < 128) (h : x ∉ front) :
    (bytes (front ++ x :: more)).findIdx? (isAscii (· == x)) = some (byteLength front) := by
  obtain ⟨b, bs, hbytes, hleads, -⟩ := exists_leads x
  have hfound : isAscii (· == x) b = true := by
    rw [hleads.isAscii (isAsciiClass_eq hx), beq_self_eq_true]
  rw [bytes_append, List.findIdx?_append, findIdx?_bytes_of_notMem hx h, bytes_cons, hbytes,
    List.cons_append, List.findIdx?_cons, hfound, length_bytes]
  simp

/-- The bytes that are searched in front of the rest are those of the gap. -/
theorem between_eq (h : RestAt cs p (gap ++ rest)) :
    ((bytes cs).drop p).take (p + byteLength gap - p) = bytes gap := by
  rw [h.drop_bytes, Nat.add_sub_cancel_left, ← length_bytes, bytes_append, List.take_left]

/-- Where there is no sharp nothing is found. -/
theorem gapComments_of_notMem (h : RestAt cs p (gap ++ rest)) (hsharp : '#' ∉ gap) :
    gapComments cs p (p + byteLength gap) = pure [] := by
  rw [gapComments, dif_pos (Nat.le_add_right _ _)]
  split
  · rfl
  · rename_i offset hfind
    rw [between_eq h, findIdx?_bytes_of_notMem (by decide) hsharp] at hfind
    cases hfind

/-- From the first sharp a comment goes up to the end of its line, and the search goes on there. -/
theorem gapComments_of_line {line tail : List Char}
    (h : RestAt cs p (front ++ '#' :: (line ++ tail) ++ rest)) (hfront : '#' ∉ front)
    (inside : ∀ c ∈ line, Ignored.endsLine c = false)
    (ends : ∀ c ∈ (tail ++ rest).head?, Ignored.endsLine c = true) :
    RestAt cs (p + byteLength front + byteLength ('#' :: line)) (tail ++ rest) ∧
      gapComments cs p (p + byteLength (front ++ '#' :: (line ++ tail))) = do
        let behind ← gapComments cs (p + byteLength front + byteLength ('#' :: line))
          (p + byteLength front + byteLength ('#' :: line) + byteLength tail)
        return ⟨p + byteLength front, p + byteLength front + byteLength ('#' :: line)⟩ ::
          behind := by
  have between := between_eq h
  have found : (bytes (front ++ '#' :: (line ++ tail))).findIdx? (isAscii (· == '#')) =
      some (byteLength front) :=
    findIdx?_bytes_append (by decide) hfront
  rw [List.append_assoc, List.cons_append, List.append_assoc] at h
  have hstart := h.advance
  have hline : ('#' :: (line ++ (tail ++ rest))).takeWhile (fun c => !Ignored.endsLine c) =
      '#' :: line := by
    have hinside : ∀ c ∈ '#' :: line, (!Ignored.endsLine c) = true :=
      List.forall_mem_cons.2 ⟨rfl, fun c hc => by rw [inside c hc]; rfl⟩
    exact (takeWhile_append_of_stop hinside fun c hc => by rw [ends c hc]; rfl).1
  have hstop : p + byteLength (front ++ '#' :: (line ++ tail)) =
      p + byteLength front + byteLength ('#' :: line) + byteLength tail := by
    rw [← List.cons_append, byteLength_append, byteLength_append, ← Nat.add_assoc, ← Nat.add_assoc]
  have hmore : p + byteLength front < p + byteLength front + byteLength ('#' :: line) :=
    Nat.lt_add_of_pos_right (byteLength_pos (List.cons_ne_nil _ _))
  refine ⟨hstart.advance, ?_⟩
  rw [gapComments, dif_pos (Nat.le_add_right _ _)]
  split
  · rename_i hfind
    rw [between, found] at hfind
    cases hfind
  · rename_i offset hfind
    rw [between, found] at hfind
    obtain rfl := Option.some.inj hfind
    rw [lineEnd_eq hstart, pure_bind, hline, dif_pos hmore, hstop]

/-- In ignored text the search finds the comments there. -/
theorem gapComments_eq (hgap : Ignored.IsGap gap rest) (h : RestAt cs p (gap ++ rest)) :
    gapComments cs p (p + byteLength gap) = pure (Ignored.comments p none gap) := by
  induction hlength : gap.length using Nat.strongRecOn generalizing gap p with
  | ind length ih =>
    subst hlength
    by_cases hsharp : '#' ∈ gap
    · obtain ⟨front, more, rfl, hfront⟩ := List.eq_append_cons_of_mem hsharp
      obtain ⟨line, tail, rfl, inside, ends, htail⟩ := hgap.exists_line hfront
      obtain ⟨hbehind, searched⟩ := gapComments_of_line h hfront inside ends
      have hshorter : tail.length < (front ++ '#' :: (line ++ tail)).length := by
        simp only [List.length_append, List.length_cons]
        omega
      have hends : ∀ c ∈ tail.head?, Ignored.endsLine c = true := by
        cases tail with
        | nil => simp
        | cons d tail => exact ends
      rw [searched, ih _ hshorter htail hbehind rfl, pure_bind, Ignored.comments_append hfront,
        Ignored.comments, if_pos rfl, Ignored.comments_line inside hends, byteLength_cons,
        ← Nat.add_assoc]
    · have plain := Ignored.comments_append hsharp p []
      rw [List.append_nil] at plain
      rw [gapComments_of_notMem h hsharp, plain]
      rfl

/-- In front of a token the search finds the comments of the reader of characters. -/
theorem gapComments_of_readToken {r : Reading} (hread : SchemaLang.readToken p rest = .ok r)
    (h : RestAt cs p rest) : gapComments cs p r.span.start = pure (commentsBefore r) := by
  obtain ⟨text, covers⟩ := covers_of_readToken hread
  rw [covers.append] at h
  rw [covers.span, gapComments_eq covers.ignored h, commentsBefore, covers.span, Nat.add_sub_cancel]

/-- Past a token the search goes on behind it. -/
theorem comments_of_readToken {r : Reading} (hread : SchemaLang.readToken p rest = .ok r)
    (h : RestAt cs p rest) : comments cs p =
      if r.token = .endOfInput then pure (commentsBefore r)
      else do
        let behind ← comments cs r.span.stop
        return commentsBefore r ++ behind := by
  rw [comments, readToken_eq h, hread, placed, pure_bind]
  dsimp only
  rw [gapComments_of_readToken hread h, pure_bind]
  by_cases hend : r.token = .endOfInput
  · rw [if_pos hend, if_pos hend]
  · have hstop := h.behind hread
    obtain ⟨start_ge, -, room⟩ := span_of_readToken hread
    have hwithin : p < r.span.stop ∧ r.span.stop ≤ byteLength cs :=
      ⟨Nat.lt_of_le_of_lt start_ge (room hend), hstop.length ▸ Nat.le_add_right _ _⟩
    rw [if_neg hend, dif_pos hwithin, if_neg hend]

/-- The search finds the comments in front of all tokens, or the fault that stops them. -/
theorem comments_eq (h : RestAt cs p rest) :
    comments cs p =
      match (SchemaLang.scan p rest).fault with
      | some e => throw e
      | none => pure ((SchemaLang.scan p rest).readings.flatMap commentsBefore) := by
  fun_induction SchemaLang.scan p rest with
  | case1 p rest e hread =>
    rw [comments, readToken_eq h, hread, placed, shift_zero]
    rfl
  | case2 p rest r hread hend =>
    rw [comments_of_readToken hread h, if_pos hend]
    simp
  | case3 p rest r hread hend behind ih =>
    rw [comments_of_readToken hread h, if_neg hend, ih (h.behind hread)]
    change _ = match behind.fault with
      | some e => throw e
      | none => pure (commentsBefore r ++ behind.readings.flatMap commentsBefore)
    cases behind.fault with
    | some e => rfl
    | none => rfl

end Bytewise

end SchemaLang
