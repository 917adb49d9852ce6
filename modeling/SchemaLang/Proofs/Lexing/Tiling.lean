import SchemaLang.Proofs.Lexing.Cases
import SchemaLang.Proofs.Lexing.Faults
import SchemaLang.Proofs.Lexing.Gaps
import SchemaLang.Proofs.Spans

/-!
# Tokens tile the text

A token that is read takes the ignored text in front of it and its own text off the text, and
nothing is left behind the end of the input. So the tokens of a text are found one after the other,
each where the one before it stops, and the gaps and the texts of all of them make up the text.
-/

namespace SchemaLang

variable {s : Source} {position : Nat} {before cs : List Char} {r : Reading}

/-- The token stands at the head of a text that starts at byte `position`, with `text` as
its own text. -/
structure Reading.Covers (position : Nat) (cs : List Char) (r : Reading) (text : List Char) :
    Prop where
  append : cs = r.gap ++ (text ++ r.rest)
  span : r.span =
    ⟨position + Text.byteLength r.gap, position + Text.byteLength r.gap + Text.byteLength text⟩
  isEmpty : text = [] ↔ r.token = .endOfInput
  ends : r.token = .endOfInput → r.rest = []
  ignored : Ignored.IsGap r.gap (text ++ r.rest)
  scans : Scans (text ++ r.rest) ⟨r.token, text, r.rest⟩
  plain : Ignored.split false (text ++ r.rest) = ([], text ++ r.rest)

theorem covers_of_readToken (h : readToken position cs = .ok r) :
    ∃ text, r.Covers position cs text := by
  obtain ⟨t, ht, rfl⟩ := readToken_eq_ok.1 h
  obtain ⟨append, isEmpty⟩ := append_of_scanToken ht
  have scans := scans_of_scanToken ht
  refine ⟨t.text, ?_, rfl, isEmpty, fun hend => ?_, ?_, ?_, ?_⟩
  · show cs = _ ++ (t.text ++ t.rest)
    rw [append, Ignored.append_of_split]
  · have hnil := scans.eq_nil hend
    rw [hnil] at append
    exact (List.append_eq_nil_iff.1 append).2
  · show Ignored.IsGap _ (t.text ++ t.rest)
    rw [append]
    exact Ignored.isGap_of_split rfl
  · show Scans (t.text ++ t.rest) t
    rw [append]
    exact scans
  · show Ignored.split false (t.text ++ t.rest) = ([], t.text ++ t.rest)
    rw [append]
    exact Ignored.split_split false cs

/-- Where nothing is ignored the token or the fault is the one of the text there. -/
theorem readToken_of_plain (h : Ignored.split false cs = ([], cs)) :
    readToken position cs =
      match scanToken cs with
      | .error e => .error (e.shift position)
      | .ok t => .ok ⟨t.token, ⟨position, position + Text.byteLength t.text⟩, [], t.rest⟩ := by
  rw [readToken, h]
  rfl

/-- A fault of the token at the head of a text lies in the text. -/
theorem liesIn_of_readToken {e : SyntaxError} (h : readToken position cs = .error e) :
    e.LiesIn position cs := by
  obtain ⟨f, hf, rfl⟩ := readToken_eq_error.1 h
  obtain ⟨n, hn, hposition⟩ := liesIn_of_scanToken hf
  refine ⟨Text.byteLength (Ignored.split false cs).1 + n, ?_, ?_⟩
  · have outer := hn.append_left (Ignored.split false cs).1
    rwa [Ignored.append_of_split] at outer
  · show position + Text.byteLength (Ignored.split false cs).1 + f.position = _
    omega

namespace Source

/-- A token at or after a position: it is the first one there, behind ignored text and between
two boundaries. -/
structure ReadsAt (s : Source) (position : Nat) (r : Reading) : Prop where
  position_le : position ≤ r.span.start
  start_le : r.span.start ≤ r.span.stop
  stop_le : r.span.stop ≤ s.byteLength
  starts : Text.IsBoundary r.span.start s.chars
  stops : Text.IsBoundary r.span.stop s.chars
  nonempty : r.token ≠ .endOfInput → r.span.start < r.span.stop
  ends : r.token = .endOfInput → r.span = ⟨s.byteLength, s.byteLength⟩
  gap : Text.slice? position r.span.start s.chars = some r.gap
  ignored : Ignored.IsGap r.gap (Text.dropBytes r.span.start s.chars)

/-- A fault at or after a position: it lies at a boundary. -/
structure FaultsAt (s : Source) (position : Nat) (e : SyntaxError) : Prop where
  position_le : position ≤ e.position
  le_byteLength : e.position ≤ s.byteLength
  boundary : Text.IsBoundary e.position s.chars

/-- Behind the first part of a text the token at the head of the rest is read. -/
theorem tokenAt_append (hs : s.chars = before ++ cs) :
    s.tokenAt (Text.byteLength before) = readToken (Text.byteLength before) cs := by
  have hle : Text.byteLength before ≤ s.byteLength := by
    rw [byteLength, hs, Text.byteLength_append]
    exact Nat.le_add_right _ _
  rw [tokenAt, Nat.min_eq_left hle, hs, Text.dropBytes_append]

private theorem readsAt_of_covers {text : List Char} (hs : s.chars = before ++ cs)
    (h : r.Covers (Text.byteLength before) cs text) : s.ReadsAt (Text.byteLength before) r := by
  have hstart : r.span.start = Text.byteLength before + Text.byteLength r.gap :=
    congrArg Span.start h.span
  have hstop : r.span.stop = Text.byteLength before + Text.byteLength r.gap +
      Text.byteLength text :=
    congrArg Span.stop h.span
  have hchars : s.chars = before ++ (r.gap ++ (text ++ r.rest)) := by rw [hs, ← h.append]
  have hlength : s.byteLength =
      Text.byteLength before +
      (Text.byteLength r.gap + (Text.byteLength text + Text.byteLength r.rest)) := by
    rw [byteLength, hchars]
    simp only [Text.byteLength_append]
  have hfront : s.chars = (before ++ r.gap) ++ (text ++ r.rest) := by rw [hchars, List.append_assoc]
  constructor
  · omega
  · omega
  · omega
  · rw [hstart, hfront, ← Text.byteLength_append]
    exact Text.isBoundary_append _ _
  · rw [hstop, hfront, ← Text.byteLength_append, ← Text.byteLength_append, ← List.append_assoc]
    exact Text.isBoundary_append _ _
  · intro ht
    have hpos := Text.byteLength_pos (mt h.isEmpty.1 ht)
    omega
  · intro ht
    rw [h.ends ht, h.isEmpty.2 ht] at hlength
    rw [h.span, h.isEmpty.2 ht, hlength]
    rfl
  · rw [hstart, hchars]
    exact Text.slice?_append _ _ _
  · rw [hstart, hfront, ← Text.byteLength_append, Text.dropBytes_append]
    exact h.ignored

theorem readsAt_of_readToken (hs : s.chars = before ++ cs)
    (h : readToken (Text.byteLength before) cs = .ok r) : s.ReadsAt (Text.byteLength before) r :=
  (covers_of_readToken h).elim fun _ hcovers => readsAt_of_covers hs hcovers

theorem faultsAt_of_readToken {e : SyntaxError} (hs : s.chars = before ++ cs)
    (h : readToken (Text.byteLength before) cs = .error e) :
    s.FaultsAt (Text.byteLength before) e := by
  obtain ⟨n, hn, hposition⟩ := liesIn_of_readToken h
  have hboundary : Text.IsBoundary e.position s.chars := by
    rw [hposition, hs]
    exact hn.append_left before
  refine ⟨?_, hboundary.le_byteLength, hboundary⟩
  omega

end Source

/-- Where an iteration over the tokens of a source stands; it is finished behind the end of the
input or a fault. -/
structure TokenStream where
  position : Nat
  finished : Bool

namespace TokenStream

/-- The next token or the fault, with the place to go on from. -/
def next (s : Source) (i : TokenStream) : Option (Except SyntaxError Reading × TokenStream) :=
  if i.finished then none
  else
    match s.tokenAt i.position with
    | .ok r => some (.ok r, ⟨r.span.stop, r.token = .endOfInput⟩)
    | .error e => some (.error e, ⟨i.position, true⟩)

/-- Everything that an iteration still gives before it is over. -/
inductive Yields (s : Source) : TokenStream → List (Except SyntaxError Reading) → Prop
  | over {i : TokenStream} (h : i.next s = none) : Yields s i []
  | item {i i' : TokenStream} {x : Except SyntaxError Reading}
    {xs : List (Except SyntaxError Reading)}
    (h : i.next s = some (x, i')) (rest : Yields s i' xs) : Yields s i (x :: xs)

end TokenStream

/-- The tokens, and the fault behind them. -/
def Tokens.items (ts : Tokens) : List (Except SyntaxError Reading) :=
  ts.readings.map Except.ok ++ (ts.fault.map Except.error).toList

/-- Each token is read where the one before it stops. -/
def Source.ReadsFrom (s : Source) : Nat → List Reading → Prop
  | _, [] => True
  | position, r :: rs => s.ReadsAt position r ∧ s.ReadsFrom r.span.stop rs

/-- The spans with the gaps in front of them. -/
def Span.tiling (position : Nat) : List Span → List Span
  | [] => []
  | span :: spans => ⟨position, span.start⟩ :: span :: tiling span.stop spans

/-- Behind a token the rest of the text goes on. -/
theorem Reading.Covers.advance {text : List Char} (hs : s.chars = before ++ cs)
    (h : r.Covers (Text.byteLength before) cs text) :
    ∃ front, s.chars = front ++ r.rest ∧ Text.byteLength front = r.span.stop := by
  refine ⟨before ++ (r.gap ++ text), ?_, ?_⟩
  · rw [hs, h.append, List.append_assoc, List.append_assoc]
  · rw [h.span, Text.byteLength_append, Text.byteLength_append, Nat.add_assoc]

theorem yields_scan (hs : s.chars = before ++ cs) :
    TokenStream.Yields s ⟨Text.byteLength before, false⟩
      (scan (Text.byteLength before) cs).items := by
  generalize hposition : Text.byteLength before = position
  fun_induction scan position cs generalizing before with
  | case1 position cs e h =>
    subst hposition
    rw [← Source.tokenAt_append hs] at h
    refine .item ?_ (.over (i := ⟨Text.byteLength before, true⟩) rfl)
    simp [TokenStream.next, h]
  | case2 position cs r h hr =>
    subst hposition
    rw [← Source.tokenAt_append hs] at h
    refine .item ?_ (.over (i := ⟨r.span.stop, true⟩) rfl)
    simp [TokenStream.next, h, hr]
  | case3 position cs r h hr rest =>
    rename_i ih
    subst hposition
    obtain ⟨text, hcovers⟩ := covers_of_readToken h
    obtain ⟨front, hfront, hstop⟩ := hcovers.advance hs
    rw [← Source.tokenAt_append hs] at h
    refine .item ?_ (ih hfront hstop)
    simp [TokenStream.next, h, hr]

/-- Each token of a text, and its fault, is what is read from some place on. -/
theorem exists_readToken_of_mem_items (hs : s.chars = before ++ cs) :
    ∀ x ∈ (scan (Text.byteLength before) cs).items,
      ∃ front back, s.chars = front ++ back ∧ readToken (Text.byteLength front) back = x := by
  generalize hposition : Text.byteLength before = position
  fun_induction scan position cs generalizing before with
  | case1 position cs e h =>
    subst hposition
    exact List.forall_mem_singleton.2 ⟨before, cs, hs, h⟩
  | case2 position cs r h hr =>
    subst hposition
    exact List.forall_mem_singleton.2 ⟨before, cs, hs, h⟩
  | case3 position cs r h hr rest =>
    rename_i ih
    subst hposition
    obtain ⟨text, hcovers⟩ := covers_of_readToken h
    obtain ⟨front, hfront, hstop⟩ := hcovers.advance hs
    exact List.forall_mem_cons.2 ⟨⟨before, cs, hs, h⟩, ih hfront hstop⟩

theorem Source.exists_readToken_of_fault {e : SyntaxError} (h : s.tokens.fault = some e) :
    ∃ front back, s.chars = front ++ back ∧ readToken (Text.byteLength front) back = .error e :=
  exists_readToken_of_mem_items (List.nil_append s.chars).symm _
    (List.mem_append_right _ (Option.mem_toList.2 (Option.map_eq_some_iff.2 ⟨e, h, rfl⟩)))

theorem Source.exists_readToken_of_mem (h : r ∈ s.tokens.readings) :
    ∃ front back, s.chars = front ++ back ∧ readToken (Text.byteLength front) back = .ok r :=
  exists_readToken_of_mem_items (List.nil_append s.chars).symm _
    (List.mem_append_left _ (List.mem_map_of_mem h))

theorem readsFrom_scan (hs : s.chars = before ++ cs) :
    s.ReadsFrom (Text.byteLength before) (scan (Text.byteLength before) cs).readings := by
  generalize hposition : Text.byteLength before = position
  fun_induction scan position cs generalizing before with
  | case1 position cs e h => trivial
  | case2 position cs r h hr =>
    subst hposition
    exact ⟨Source.readsAt_of_readToken hs h, trivial⟩
  | case3 position cs r h hr rest =>
    rename_i ih
    subst hposition
    obtain ⟨text, hcovers⟩ := covers_of_readToken h
    obtain ⟨front, hfront, hstop⟩ := hcovers.advance hs
    exact ⟨Source.readsAt_of_covers hs hcovers, ih hfront hstop⟩

/-- A span in the middle of a source has the text there. -/
theorem Source.text?_append {inside after : List Char}
    (hs : s.chars = before ++ (inside ++ after)) :
    s.text? ⟨Text.byteLength before, Text.byteLength before + Text.byteLength inside⟩ =
      some (String.ofList inside) := by
  rw [Source.text?, hs, Text.slice?_append]
  rfl

/-- The gap in front of a token and the token itself have their texts. -/
theorem Reading.Covers.texts {text : List Char} (hs : s.chars = before ++ cs)
    (h : r.Covers (Text.byteLength before) cs text) :
    s.text? ⟨Text.byteLength before, r.span.start⟩ = some (String.ofList r.gap) ∧
      s.text? r.span = some (String.ofList text) := by
  rw [h.append] at hs
  constructor
  · rw [h.span]
    exact Source.text?_append hs
  · rw [h.span, ← Text.byteLength_append]
    exact Source.text?_append (by rw [hs, List.append_assoc])

/-- Without a fault the gaps and the tokens make up the text. -/
theorem tiling_scan (hs : s.chars = before ++ cs)
    (hfault : (scan (Text.byteLength before) cs).fault = none) :
    ∃ texts, (Span.tiling (Text.byteLength before)
        ((scan (Text.byteLength before) cs).readings.map Reading.span)).mapM s.text? = some texts ∧
      String.join texts = String.ofList cs := by
  generalize hposition : Text.byteLength before = position at hfault ⊢
  fun_induction scan position cs generalizing before with
  | case1 position cs e h => cases hfault
  | case2 position cs r h hr =>
    subst hposition
    obtain ⟨text, hcovers⟩ := covers_of_readToken h
    obtain ⟨hgap, htext⟩ := hcovers.texts hs
    refine ⟨[String.ofList r.gap, String.ofList text], ?_, ?_⟩
    · simp [Span.tiling, hgap, htext]
    · rw [hcovers.append, hcovers.ends hr]
      simp [String.join]
  | case3 position cs r h hr rest =>
    rename_i ih
    subst hposition
    obtain ⟨text, hcovers⟩ := covers_of_readToken h
    obtain ⟨hgap, htext⟩ := hcovers.texts hs
    obtain ⟨front, hfront, hstop⟩ := hcovers.advance hs
    obtain ⟨texts, htexts, hjoin⟩ := ih hfront hstop hfault
    refine ⟨String.ofList r.gap :: String.ofList text :: texts, ?_, ?_⟩
    · show (Span.tiling _ (r.span :: rest.readings.map Reading.span)).mapM s.text? = _
      have htexts : (Span.tiling r.span.stop (rest.readings.map Reading.span)).mapM s.text? =
        some texts := htexts
      simp [Span.tiling, hgap, htext, htexts]
    · rw [hcovers.append]
      simp [hjoin]

/-- Tokens in order stand at or behind a position. -/
theorem Placed.InOrder.le_start {ps : List Placed} (h : InOrder position ps) :
    ∀ p ∈ ps, position ≤ p.2.start := by
  induction ps generalizing position with
  | nil => simp
  | cons p ps ih =>
    obtain ⟨hstart, hle, -, hrest⟩ := h
    exact List.forall_mem_cons.2 ⟨hstart, ih (hrest.mono (Nat.le_trans hstart hle))⟩

/-- Tokens in order do not overlap. -/
theorem Placed.InOrder.pairwise {ps : List Placed} (h : InOrder position ps) :
    ps.Pairwise fun p q => p.2.stop ≤ q.2.start := by
  induction ps generalizing position with
  | nil => exact .nil
  | cons p ps ih =>
    obtain ⟨-, -, -, hrest⟩ := h
    exact .cons hrest.le_start (ih hrest)

/-- Each token starts behind those in front of it. -/
theorem pairwise_start_scan (position : Nat) (cs : List Char) :
    (scan position cs).readings.Pairwise fun r q => r.span.start < q.span.start := by
  fun_induction scan position cs with
  | case1 => exact .nil
  | case2 => exact List.pairwise_singleton _ _
  | case3 position cs r h hr rest ih =>
    refine .cons (fun q hq => ?_) ih
    obtain ⟨-, -, room⟩ := span_of_readToken h
    have behind := (inOrder_scan r.span.stop r.rest).le_start q.placed (List.mem_map_of_mem hq)
    exact Nat.lt_of_lt_of_le (room hr) behind

/-- No two lexemes start at one place. -/
theorem Source.nodup_start_lexemes (s : Source) : (s.lexemes.map fun l => l.span.start).Nodup := by
  have starts : (s.tokens.readings.map Reading.placed).Pairwise fun p q => p.2.start ≠ q.2.start :=
    List.pairwise_map.2 ((pairwise_start_scan 0 s.chars).imp Nat.ne_of_lt)
  have placed := starts.sublist (List.filter_sublist (p := fun p => !p.1.isDescription))
  rw [← Lexeme.map_placed_gather []] at placed
  exact List.pairwise_map.2 (List.pairwise_map.1 placed :)

end SchemaLang
