import SchemaLang.Proofs.Lexing.Tiling
import SchemaLang.Proofs.Printing.Lexes

/-!
# The texts of comments

The spans of the comments of a source cover the texts of the comments in it, one by
one and in order.
-/

namespace SchemaLang

variable {s : Source}

namespace Ignored

/-- The spans of the comments in a gap cover their texts, the one of a comment that was started in
front of the gap included. -/
theorem text?_comments {gap after : List Char} :
    (∀ before, s.chars = before ++ (gap ++ after) →
      (comments (Text.byteLength before) none gap).map s.text? =
        (notes none gap).map fun note => some (String.ofList note)) ∧
    ∀ before note, s.chars = before ++ (note ++ (gap ++ after)) →
      (comments (Text.byteLength (before ++ note)) (some (Text.byteLength before)) gap).map
        s.text? = (notes (some note) gap).map fun note => some (String.ofList note) := by
  induction gap with
  | nil =>
    refine ⟨fun before _ => rfl, fun before note hs => ?_⟩
    rw [Text.byteLength_append]
    exact congrArg (· :: []) (Source.text?_append hs)
  | cons c gap ih =>
    obtain ⟨hnone, hsome⟩ := ih
    have hstep (before : List Char) :
        Text.byteLength before + c.utf8Size = Text.byteLength (before ++ [c]) := by
      simp
    refine ⟨fun before hs => ?_, fun before note hs => ?_⟩
    · rw [comments, notes, hstep]
      by_cases hc : c = '#'
      · rw [if_pos hc, if_pos hc]
        exact hsome before [c] hs
      · rw [if_neg hc, if_neg hc]
        exact hnone (before ++ [c]) (by simpa using hs)
    · rw [comments, notes, hstep]
      by_cases hc : endsLine c = true
      · rw [if_pos hc, if_pos hc, List.map_cons, List.map_cons]
        refine congrArg₂ List.cons ?_ (hnone (before ++ note ++ [c]) (by simpa using hs))
        rw [Text.byteLength_append]
        exact Source.text?_append hs
      · rw [if_neg hc, if_neg hc, List.append_assoc]
        exact hsome before (note ++ [c]) (by simpa using hs)

end Ignored

/-- The spans of the comments between the tokens from some place on cover their texts. -/
theorem text?_commentsBefore (before : List Char) {cs : List Char} (hs : s.chars = before ++ cs) :
    ((scan (Text.byteLength before) cs).readings.flatMap commentsBefore).map s.text? =
      (Reading.notes (scan (Text.byteLength before) cs).readings).map fun note =>
      some (String.ofList note) := by
  -- In front of each token stands its gap, and what is read behind it starts where it stops.
  have hgap {before cs : List Char} {r : Reading} (hs : s.chars = before ++ cs)
      (h : readToken (Text.byteLength before) cs = .ok r) :
      (commentsBefore r).map s.text? = (Ignored.notes none r.gap).map fun note =>
          some (String.ofList note) := by
    obtain ⟨text, hcovers⟩ := covers_of_readToken h
    rw [commentsBefore, hcovers.span, Nat.add_sub_cancel]
    exact Ignored.text?_comments.1 before (by rw [hs, ← hcovers.append])
  generalize hposition : Text.byteLength before = position
  fun_induction scan position cs generalizing before with
  | case1 position cs e h => rfl
  | case2 position cs r h hr =>
    subst hposition
    simpa [Reading.notes] using hgap hs h
  | case3 position cs r h hr rest =>
    rename_i ih
    subst hposition
    obtain ⟨text, hcovers⟩ := covers_of_readToken h
    obtain ⟨front, hfront, hstop⟩ := hcovers.advance hs
    rw [List.flatMap_cons, List.map_append, hgap hs h, ih front hfront hstop,
      Reading.notes, Reading.notes, List.flatMap_cons, List.map_append]

/-- A source has the comments that its text has. -/
theorem LexesWith.comments {notes : List (List Char)} {ts : List Token}
    (h : LexesWith notes s.chars ts) : ∃ spans, s.comments = .ok spans ∧
    spans.map s.text? = notes.map fun note => some (String.ofList note) := by
  obtain ⟨hfault, -, hnotes⟩ := h 0
  have hfault : s.tokens.fault = none := hfault
  refine ⟨s.tokens.readings.flatMap commentsBefore, by rw [Source.comments, hfault], ?_⟩
  rw [← hnotes]
  exact text?_commentsBefore [] rfl

end SchemaLang
