import SchemaLang.Proofs.Lexing.Agreement
import SchemaLang.Proofs.Lexing.Tiling

/-!
# What reading tokens keeps to

At every character boundary of a source there is a token behind ignored text, or a fault at a
boundary further on. The tokens of the source end with the end of the input or with the fault, they
do not overlap, and without a fault they and the gaps between them make up the text. On the way no
piece is taken out of the text at a wrong offset.
-/

namespace SchemaLang

namespace Source

variable {s : Source} {position : Nat}

/-- The token or the fault at or after a position lies where it should. -/
def AnswersAt (s : Source) (position : Nat) : Prop :=
  match s.tokenAt position with
  | .ok r => s.ReadsAt position r
  | .error e => s.FaultsAt position e

private theorem answersAt (h : Text.IsBoundary position s.chars) : s.AnswersAt position := by
  obtain ⟨before, after, hs, rfl⟩ := h
  rw [AnswersAt, tokenAt_append hs]
  cases hread : readToken (Text.byteLength before) after with
  | ok r => exact readsAt_of_readToken hs hread
  | error e => exact faultsAt_of_readToken hs hread

/-- The reader of bytes has an answer at every boundary, the one of the source. -/
theorem bytewise_tokenAt (h : Text.IsBoundary position s.chars) :
    (Bytewise.readToken s.chars position).run =
      some ((s.tokenAt position).map fun r => (r.token, r.span)) := by
  obtain ⟨before, after, hs, rfl⟩ := h
  rw [tokenAt_append hs, Bytewise.readToken_eq (Text.RestAt.of_append hs)]
  cases readToken (Text.byteLength before) after with
  | ok r => rfl
  | error e =>
    rw [Bytewise.placed, Bytewise.shift_zero]
    rfl

/-- What holds of the tokens of a source. -/
structure LexingContract (s : Source) : Prop where
  answers : ∀ position, Text.IsBoundary position s.chars → s.AnswersAt position
  slices : ∀ position, Text.IsBoundary position s.chars →
    (Bytewise.readToken s.chars position).run =
      some ((s.tokenAt position).map fun r => (r.token, r.span))
  yields : TokenStream.Yields s ⟨0, false⟩ s.tokens.items
  endsOnce : EndsOnce s.tokens.fault (s.tokens.readings.map Reading.token)
  reads : s.ReadsFrom 0 s.tokens.readings
  disjoint : (s.tokens.readings.map Reading.span).Pairwise fun a b => a.stop ≤ b.start
  tiles : s.tokens.fault = none → ∃ texts,
    (Span.tiling 0 (s.tokens.readings.map Reading.span)).mapM s.text? = some texts ∧
    String.join texts = s.body

theorem chars_eq_append (s : Source) : s.chars = [] ++ s.chars := rfl

end Source

/-- Reading tokens keeps to its contract, whatever the text is. -/
theorem Source.lexingContract (s : Source) : s.LexingContract where
  answers _ := answersAt
  slices _ := bytewise_tokenAt
  yields := yields_scan s.chars_eq_append
  endsOnce := endsOnce_scan 0 s.chars
  reads := readsFrom_scan s.chars_eq_append
  disjoint := by
    have h := (inOrder_scan 0 s.chars).pairwise
    rw [List.pairwise_map] at h ⊢
    exact h
  tiles hfault := by
    obtain ⟨texts, htexts, hjoin⟩ := tiling_scan s.chars_eq_append hfault
    refine ⟨texts, htexts, hjoin.trans ?_⟩
    exact String.ofList_toList

end SchemaLang
