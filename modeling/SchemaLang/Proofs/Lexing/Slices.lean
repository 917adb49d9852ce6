import SchemaLang.Proofs.Lexing.Locality
import SchemaLang.Proofs.Lexing.Tiling
import SchemaLang.Proofs.Printing.Lexes

/-!
# The tokens of a piece of a text

A piece of a text that begins where a token starts and ends where a token stops has, on its own, the
tokens that it has within the text, and behind them the end of the input. Only where they stand is
counted from the piece.
-/

namespace SchemaLang

namespace Ignored

variable {gap rest rest' : List Char}

/-- What is ignored text in front of a text is so in front of any that starts alike. -/
theorem IsGap.startsLike (h : IsGap gap rest) (hrest : StartsLike rest' rest) :
    IsGap gap rest' := by
  induction h with
  | nil => exact .nil
  | separator hc _ ih => exact .separator hc (ih hrest)
  | comment line single ends _ ih =>
    exact .comment line single ((hrest.append _).all ends) (ih hrest)

end Ignored

variable {position : Nat} {cs rest rest' : List Char} {r : Reading}

/-- Where a token starts no ignored text stands, whatever follows the token. -/
theorem split_of_scans {s : Scanned} (h : Scans (s.text ++ s.rest) s) (hs : s.text ≠ [])
    (hplain : Ignored.split false (s.text ++ s.rest) = ([], s.text ++ s.rest))
    (h' : Scans (s.text ++ rest') { s with rest := rest' }) :
    Ignored.split false (s.text ++ rest') = ([], s.text ++ rest') := by
  have hscan := h'.scanToken
  cases htext : s.text with
  | nil => exact absurd htext hs
  | cons c text =>
    rw [htext] at hscan hplain h
    refine Ignored.split_of_stop (by simp [isSeparator_of_scanToken hscan]) ?_
    rintro ⟨rfl, hsingle⟩
    -- Both sharps in front of a description belong to it.
    have hdouble : (text ++ s.rest).head? = some '#' :=
      Ignored.head?_of_split (congrArg Prod.snd hplain)
    have hdescription : s = .description ('#' :: (text ++ s.rest)) :=
      Except.ok.inj (h.scanToken.symm.trans rfl)
    have hinside : text = (text ++ s.rest).takeWhile fun c => !Ignored.endsLine c := by
      have htail := congrArg Scanned.text hdescription
      rw [htext] at htail
      exact (List.cons.inj htail).2
    cases hrest : text ++ s.rest with
    | nil =>
      rw [hrest] at hdouble
      exact nomatch hdouble
    | cons d tail =>
      rw [hrest] at hdouble hinside
      obtain rfl : d = '#' := Option.some.inj hdouble
      rw [hinside] at hsingle
      exact hsingle rfl

/-- A token is read alike behind other ignored text, at another place and in front of any text that
leaves it alone. -/
theorem Reading.Covers.readToken_of_scans {text gap : List Char} (h : r.Covers position cs text)
    (hr : r.token ≠ .endOfInput) (h' : Scans (text ++ rest') ⟨r.token, text, rest'⟩)
    (hgap : Ignored.IsGap gap (text ++ r.rest)) (position' : Nat) :
    readToken position' (gap ++ (text ++ rest')) =
      .ok ⟨r.token,
        ⟨position' + Text.byteLength gap, position' + Text.byteLength gap + Text.byteLength text⟩,
        gap, rest'⟩ := by
  have htext : text ≠ [] := mt h.isEmpty.1 hr
  have hplain := split_of_scans (s := ⟨r.token, text, r.rest⟩) h.scans htext h.plain h'
  have hlike : StartsLike (text ++ rest') (text ++ r.rest) := by
    obtain ⟨c, tail, rfl⟩ := List.exists_cons_of_ne_nil htext
    exact fun _ hd => hd
  have hsplit := Ignored.split_append_of_isGap (hgap.startsLike hlike)
  rw [hplain, List.append_nil] at hsplit
  rw [readToken_eq_ok, hsplit]
  exact ⟨_, h'.scanToken, rfl⟩

/-- A token is read alike behind other ignored text, at another place and in front of a text that
starts alike. -/
theorem Reading.Covers.readToken {text gap : List Char} (h : r.Covers position cs text)
    (hr : r.token ≠ .endOfInput) (hrest : StartsLike rest' r.rest)
    (hgap : Ignored.IsGap gap (text ++ r.rest)) (position' : Nat) :
    readToken position' (gap ++ (text ++ rest')) =
      .ok ⟨r.token,
        ⟨position' + Text.byteLength gap, position' + Text.byteLength gap + Text.byteLength text⟩,
        gap, rest'⟩ :=
  h.readToken_of_scans hr (h.scans.local (mt h.isEmpty.1 hr) hrest) hgap position'

/-- Tokens are read one after the other, and what is left behind them is `rest`. -/
inductive ReadsThrough :
    (position : Nat) → (cs : List Char) → List Reading → (rest : List Char) → Prop
  | nil {position : Nat} {cs : List Char} : ReadsThrough position cs [] cs
  | cons {position : Nat} {cs rest : List Char} {r : Reading} {rs : List Reading}
    (read : SchemaLang.readToken position cs = .ok r) (goesOn : r.token ≠ .endOfInput)
    (tail : ReadsThrough r.span.stop r.rest rs rest) : ReadsThrough position cs (r :: rs) rest

/-- Where the last of some tokens stops, or `position` if there is none. -/
def lastStop (position : Nat) (rs : List Reading) : Nat :=
  (rs.getLast?.map fun r => r.span.stop).getD position

theorem lastStop_cons (position : Nat) (r : Reading) (rs : List Reading) :
    lastStop position (r :: rs) = lastStop r.span.stop rs := by
  cases rs with
  | nil => rfl
  | cons r' rs =>
    rw [lastStop, List.getLast?_cons_cons, lastStop]
    rfl

/-- Tokens in front of others are read one after the other. -/
theorem readsThrough_of_scan {front back : List Reading}
    (h : (scan position cs).readings = front ++ back) (hback : back ≠ []) :
    ∃ rest, ReadsThrough position cs front rest ∧
    (scan (lastStop position front) rest).readings = back := by
  induction front generalizing position cs with
  | nil => exact ⟨cs, .nil, h⟩
  | cons r front ih =>
    cases hread : readToken position cs with
    | error e =>
      rw [scan_of_error hread] at h
      exact nomatch h
    | ok r' =>
      by_cases hend : r'.token = .endOfInput
      · rw [scan_of_end hread hend] at h
        have hnil := (List.append_eq_nil_iff.1 (List.cons.inj h).2.symm).2
        exact absurd hnil hback
      · rw [scan_of_token hread hend] at h
        obtain ⟨rfl, htail⟩ := List.cons.inj h
        obtain ⟨rest, hthrough, hrest⟩ := ih htail
        refine ⟨rest, .cons hread hend hthrough, ?_⟩
        rwa [lastStop_cons]

/-- The same token with its place counted from byte `n` on. -/
def Placed.moveLeft (n : Nat) (p : Placed) : Placed := (p.1, ⟨p.2.start - n, p.2.stop - n⟩)

/-- What tokens are read from has the same tokens on its own, and then its end. -/
theorem ReadsThrough.scan {rs : List Reading} (h : ReadsThrough position cs rs rest) :
    ∃ inside, cs = inside ++ rest ∧
      lastStop position rs = position + Text.byteLength inside ∧
      ∀ n position', position = n + position' →
        (SchemaLang.scan position' inside).fault = none ∧
        (SchemaLang.scan position' inside).readings.map Reading.placed =
          rs.map (fun r => r.placed.moveLeft n) ++
            [(.endOfInput,
            ⟨position' + Text.byteLength inside, position' + Text.byteLength inside⟩)] := by
  induction h with
  | nil =>
    refine ⟨[], rfl, rfl, fun n position' _ => ?_⟩
    have hread : readToken position' [] = .ok ⟨.endOfInput, ⟨position', position'⟩, [], []⟩ := rfl
    rw [scan_of_end hread rfl]
    exact ⟨rfl, rfl⟩
  | @cons position cs rest r rs read goesOn tail ih =>
    obtain ⟨inner, hinner, hlast, hscan⟩ := ih
    obtain ⟨text, hcovers⟩ := covers_of_readToken read
    refine ⟨r.gap ++ (text ++ inner), ?_, ?_, fun n position' hposition => ?_⟩
    · rw [hcovers.append, hinner]
      simp only [List.append_assoc]
    · have hstop : r.span.stop = position + Text.byteLength (r.gap ++ text) := by
        rw [hcovers.span, Text.byteLength_append, Nat.add_assoc]
      rw [lastStop_cons, hlast, hstop, Text.byteLength_append, Text.byteLength_append,
        Text.byteLength_append]
      simp only [Nat.add_assoc]
    · have hlike : StartsLike inner r.rest := by
        rw [hinner]
        exact .of_append inner rest
      have hread := hcovers.readToken goesOn hlike hcovers.ignored position'
      have hstop : r.span.stop =
          n + (position' + Text.byteLength r.gap + Text.byteLength text) := by
        rw [hcovers.span, hposition]
        simp only [Nat.add_assoc]
      obtain ⟨hfault, hreadings⟩ := hscan n _ hstop
      have hspan : r.placed.moveLeft n = (r.token, ⟨position' + Text.byteLength r.gap,
          position' + Text.byteLength r.gap + Text.byteLength text⟩) := by
        rw [Reading.placed, Placed.moveLeft, hcovers.span, hposition]
        simp only [Nat.add_assoc, Nat.add_sub_cancel_left]
      rw [scan_of_token hread goesOn]
      refine ⟨hfault, ?_⟩
      rw [List.map_cons, hreadings, List.map_cons, hspan]
      simp only [Text.byteLength_append, Nat.add_assoc]
      rfl

/-- Without the ignored text in front of them the tokens are the same. -/
theorem ReadsThrough.withoutGap {rs : List Reading} (h : ReadsThrough position cs (r :: rs) rest) :
    ∃ inside, cs = r.gap ++ inside ∧ r.span.start = position + Text.byteLength r.gap ∧
      ReadsThrough r.span.start inside ({ r with gap := [] } :: rs) rest := by
  cases h with
  | cons read goesOn tail =>
    obtain ⟨text, hcovers⟩ := covers_of_readToken read
    have hstart : r.span.start = position + Text.byteLength r.gap :=
      congrArg Span.start hcovers.span
    refine ⟨text ++ r.rest, hcovers.append, hstart, .cons ?_ goesOn tail⟩
    have hlike : StartsLike r.rest r.rest := fun _ hc => hc
    have hread := hcovers.readToken goesOn hlike .nil r.span.start
    rw [List.nil_append] at hread
    rw [hread, hcovers.span]
    rfl

/-- The piece of a source from one token up to where a later one stops, and its tokens. -/
theorem Source.tokens_slice {s : Source} {left inside right : List Reading}
    (h : s.tokens.readings = left ++ (r :: inside ++ right)) (hright : right ≠ []) :
    ∃ piece, s.text? ⟨r.span.start, lastStop 0 (r :: inside)⟩ = some (String.ofList piece) ∧
      ∀ s' : Source, s'.chars = piece → s'.tokens.fault = none ∧
        s'.tokens.readings.map Reading.placed =
          (r :: inside).map (fun x => x.placed.moveLeft r.span.start) ++
            [(.endOfInput, ⟨s'.byteLength, s'.byteLength⟩)] := by
  obtain ⟨afterLeft, hleft, hrest⟩ :=
    readsThrough_of_scan h (List.append_ne_nil_of_right_ne_nil _ hright)
  obtain ⟨rest, hthrough, -⟩ := readsThrough_of_scan hrest hright
  obtain ⟨before, hbefore, hposition, -⟩ := hleft.scan
  obtain ⟨tail, htail, hstart, hthrough⟩ := hthrough.withoutGap
  obtain ⟨piece, hpiece, hstop, hscan⟩ := hthrough.scan
  have hchars : s.chars = (before ++ r.gap) ++ (piece ++ rest) := by
    rw [hbefore, htail, hpiece, List.append_assoc]
  have hfirst : r.span.start = Text.byteLength (before ++ r.gap) := by
    rw [hstart, hposition, Text.byteLength_append, Nat.zero_add]
  refine ⟨piece, ?_, fun s' hs' => ?_⟩
  · have hlast : lastStop 0 (r :: inside) = r.span.start + Text.byteLength piece := by
      rw [← hstop, lastStop_cons, lastStop_cons]
    rw [hlast, hfirst]
    exact text?_append hchars
  · obtain ⟨hfault, hreadings⟩ := hscan r.span.start 0 rfl
    rw [tokens, byteLength, hs']
    refine ⟨hfault, hreadings.trans ?_⟩
    rw [Nat.zero_add]
    rfl

end SchemaLang
