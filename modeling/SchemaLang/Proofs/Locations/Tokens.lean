import SchemaLang.Proofs.Lexing.Tiling
import SchemaLang.Proofs.Locations.Extent
import SchemaLang.Proofs.Preservation.Kept

/-!
# The tokens in a place

The tokens of the grammar in the location of a node are those of the form that the node is written
as. Descriptions are no tokens of the grammar: a stray one may stand between any two of them and
belongs to neither.
-/

namespace SchemaLang

/-- The token is one of the grammar, and stands in the place. -/
def Placed.isIn (l : Loc) (p : Placed) : Bool :=
  p.1.isSignificant && decide (l.start ≤ p.2.start ∧ p.2.stop ≤ l.stop)

/-- The tokens of the grammar that stand in a place of the source. -/
def Source.tokensIn (s : Source) (l : Loc) : List Token :=
  (s.tokens.readings.filter fun r => r.placed.isIn l).map Reading.token

namespace Placed

theorem isIn_iff {l : Loc} {p : Placed} :
    p.isIn l = true ↔ p.1.isSignificant = true ∧ l.start ≤ p.2.start ∧ p.2.stop ≤ l.stop := by
  simp [isIn]

theorem InOrder.room {position : Nat} {ps : List Placed} (h : InOrder position ps) :
    ∀ p ∈ ps, p.2.start ≤ p.2.stop ∧ (p.1.isSignificant = true → p.2.start < p.2.stop) := by
  induction ps generalizing position with
  | nil => simp
  | cons p ps ih =>
    obtain ⟨-, hle, hlt, hrest⟩ := h
    exact List.forall_mem_cons.2 ⟨⟨hle, fun hp => hlt (Token.ne_endOfInput_of_isSignificant hp)⟩,
      ih hrest⟩

/-- Tokens that stand one behind the other stand between the start of the first and the
stop of the last. -/
theorem between_of_pairwise {part : List Placed} {first last : Placed}
    (order : part.Pairwise fun p q => p.2.stop ≤ q.2.start)
    (room : ∀ p ∈ part, p.2.start ≤ p.2.stop) (hfirst : part.head? = some first)
    (hlast : part.getLast? = some last) :
    ∀ p ∈ part, first.2.start ≤ p.2.start ∧ p.2.stop ≤ last.2.stop := by
  refine fun p hp => ⟨?_, ?_⟩
  · obtain ⟨rest, rfl⟩ := List.head?_eq_some_iff.1 hfirst
    rcases List.mem_cons.1 hp with rfl | hrest
    · exact Nat.le_refl _
    · exact Nat.le_trans (room first List.mem_cons_self) ((List.pairwise_cons.1 order).1 p hrest)
  · obtain ⟨front, rfl⟩ := List.getLast?_eq_some_iff.1 hlast
    have lastIn : last ∈ [last] := List.mem_singleton_self last
    rcases List.mem_append.1 hp with hfront | hp
    · have le := (List.pairwise_append.1 order).2.2 p hfront last lastIn
      exact Nat.le_trans le (room last (List.mem_append_right _ lastIn))
    · rw [List.mem_singleton.1 hp]

/-- Of tokens in order, those from the start of one to the stop of another are in the
place between. -/
theorem InOrder.filter_isIn {position : Nat} {before part behind : List Placed}
    {first last : Placed} {l : Loc} (h : InOrder position (before ++ (part ++ behind)))
    (significant : ∀ p ∈ part, p.1.isSignificant = true) (hfirst : part.head? = some first)
    (hlast : part.getLast? = some last) (start : l.start = first.2.start)
    (stop : l.stop = last.2.stop) : (before ++ (part ++ behind)).filter (isIn l) = part := by
  have room := h.room
  obtain ⟨-, order, inFront⟩ := List.pairwise_append.1 h.pairwise
  obtain ⟨inside, -, apart⟩ := List.pairwise_append.1 order
  have firstIn : first ∈ part := List.mem_of_head? hfirst
  have lastIn : last ∈ part := List.mem_of_getLast? hlast
  have noneBefore : before.filter (isIn l) = [] := by
    refine List.filter_eq_nil_iff.2 fun p hp hin => ?_
    obtain ⟨sig, hstart, -⟩ := isIn_iff.1 hin
    have lt := (room p (List.mem_append_left _ hp)).2 sig
    have le := inFront p hp first (List.mem_append_left _ firstIn)
    omega
  have noneBehind : behind.filter (isIn l) = [] := by
    refine List.filter_eq_nil_iff.2 fun p hp hin => ?_
    obtain ⟨sig, -, hstop⟩ := isIn_iff.1 hin
    have lt := (room p (List.mem_append_right _ (List.mem_append_right _ hp))).2 sig
    have le := apart last lastIn p hp
    omega
  have allInside : part.filter (isIn l) = part := by
    refine List.filter_eq_self.2 fun p hp => isIn_iff.2 ⟨significant p hp, ?_⟩
    rw [start, stop]
    exact between_of_pairwise inside
      (fun q hq => (room q (List.mem_append_right _ (List.mem_append_left _ hq))).1)
        hfirst hlast p hp
  rw [List.filter_append, List.filter_append, noneBefore, noneBehind, allInside, List.nil_append,
    List.append_nil]

end Placed

namespace Source

private theorem tokensIn_eq_lexemes (s : Source) (l : Loc) :
    s.tokensIn l = ((s.lexemes.map Lexeme.placed).filter (Placed.isIn l)).map Prod.fst := by
  have same : ∀ p : Placed, (p.isIn l && !p.1.isDescription) = p.isIn l := fun p => by
    cases hin : p.isIn l with
    | false => rfl
    | true => simp [Token.isDescription_of_isSignificant (Placed.isIn_iff.1 hin).1]
  rw [lexemes, Lexeme.map_placed_gather, List.filter_filter, List.filter_congr fun p _ => same p,
    List.filter_map, List.map_map]
  rfl

variable {s : Source} {before rest behind : List Lexeme} {first : Lexeme} {l : Loc}

/-- From the start of one lexeme to the stop of another one stand the lexemes between them. -/
theorem filter_isIn_lexemes (h : s.lexemes = before ++ (first :: rest ++ behind))
    (significant : ∀ k ∈ first :: rest, k.token.isSignificant = true)
    (start : l.start = first.span.start) (stop : l.stop = Lexeme.lastStop 0 (first :: rest)) :
    (s.lexemes.map Lexeme.placed).filter (Placed.isIn l) = (first :: rest).map Lexeme.placed := by
  have order := s.inOrder_map_placed
  rw [h, List.map_append, List.map_append] at order ⊢
  have last : (first :: rest).getLast? = some ((first :: rest).getLast (List.cons_ne_nil _ _)) :=
    List.getLast?_eq_some_getLast _
  rw [Lexeme.lastStop, last] at stop
  exact order.filter_isIn (List.forall_mem_map.2 significant) rfl
    (by rw [List.getLast?_map, last]; rfl) start stop

private theorem tokensIn_of_lexemes (h : s.lexemes = before ++ (first :: rest ++ behind))
    (significant : ∀ k ∈ first :: rest, k.token.isSignificant = true)
    (start : l.start = first.span.start) (stop : l.stop = Lexeme.lastStop 0 (first :: rest)) :
    s.tokensIn l = (first :: rest).map Lexeme.token := by
  rw [tokensIn_eq_lexemes, filter_isIn_lexemes h significant start stop, List.map_map]
  rfl

private theorem isIn_of_lexemes (h : s.lexemes = before ++ (first :: rest ++ behind))
    (significant : ∀ k ∈ first :: rest, k.token.isSignificant = true)
    (start : l.start = first.span.start) (stop : l.stop = Lexeme.lastStop 0 (first :: rest)) :
    ∀ k ∈ first :: rest, k.placed.isIn l = true := by
  intro k hk
  have mem := List.mem_map_of_mem (f := Lexeme.placed) hk
  rw [← filter_isIn_lexemes h significant start stop] at mem
  exact (List.mem_filter.1 mem).2

end Source

/-- The lexemes of a form that can be written in one way only have its tokens. -/
theorem Form.IsRigid.map_token_of_covers {F : Form} (hF : F.IsRigid)
    {locate : Nat → Nat → Option Loc} {ls : List Lexeme} (h : F.Covers locate ls) :
    ls.map Lexeme.token = F.significantTokens := by
  induction F generalizing ls with
  | token t ht =>
    obtain ⟨l, rfl, rfl⟩ := h
    exact (significantTokens_token ht).symm
  | described d t ht =>
    obtain ⟨l, rfl, -, rfl⟩ := h
    exact (significantTokens_described d ht).symm
  | empty =>
    obtain rfl := h
    rfl
  | seq a b iha ihb =>
    obtain ⟨xs, ys, rfl, ha, hb⟩ := h
    rw [List.map_append, iha hF.1 ha, ihb hF.2 hb, significantTokens_seq]
  | located loc a ih => exact ih hF h.1
  | bracketable a _ => exact hF.elim

variable {s : Source} {o : ParseOptions} {d : Document} {F : Form}

/-- Whatever a node was read from stands in its location. -/
theorem Node.IsWrittenAs.exists_isIn {n : Node} {before part behind : List Lexeme}
    (written : n.IsWrittenAs F) (hn : ∀ d, n ≠ .document d) (ho : o.noLocation = false)
    (covers : F.Covers (o.locate s) part) (h : s.lexemes = before ++ (part ++ behind)) {k : Lexeme}
    (hk : k ∈ part) : ∃ l, n.loc = some l ∧ k.placed.isIn l = true := by
  obtain ⟨first, rest, rfl⟩ := List.exists_cons_of_ne_nil (List.ne_nil_of_mem hk)
  have loc := written.loc_eq hn covers
  rw [ParseOptions.locate, ho] at loc
  exact ⟨_, loc, Source.isIn_of_lexemes h covers.isSignificant rfl rfl k hk⟩

/-- A part of the form of a document that can be written in one way only was read from its tokens,
which are all that stands in its location. -/
theorem tokensIn_of_hasPart (h : parseDocument s o = .ok d) (ho : o.noLocation = false)
    {loc : Option Loc} (part : d.form.HasPart (.located loc F)) (rigid : F.IsRigid) :
    ∃ l, loc = some l ∧ s.tokensIn l = F.significantTokens := by
  obtain ⟨before, first, rest, behind, covers, hlexemes⟩ := exists_lexemes_of_hasPart h part
  obtain ⟨inside, hloc⟩ := covers
  have located := hloc first rfl
  rw [ParseOptions.locate, ho] at located
  refine ⟨_, located, ?_⟩
  rw [Source.tokensIn_of_lexemes hlexemes (Form.Covers.isSignificant inside) rfl rfl]
  exact rigid.map_token_of_covers inside

end SchemaLang
