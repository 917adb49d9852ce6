import SchemaLang.Proofs.Lexing.CommentSearch

/-!
# Where comments stand

The reading of a text passes one separator, one comment or one token after the other. A comment is
what it passes as one, so no comment stands within a token or within another comment. The comments
that are looked for in the gaps between the tokens are these, all of them and in order.
-/

namespace SchemaLang

/-- A comment stands at the head of a text: a sharp that no other one follows, and the
rest of its line. -/
structure Ignored.StartsComment (cs line after : List Char) : Prop where
  text : cs = '#' :: (line ++ after)
  single : (line ++ after).head? ≠ some '#'
  inside : ∀ c ∈ line, endsLine c = false
  ends : ∀ c ∈ after.head?, endsLine c = true

/-- From one place to the next the reading passes a separator, a comment or a token. The comment and
the token are listed with their places. -/
inductive Passes : Nat → List Char → List Span → List Placed → Nat → List Char → Prop
  | separator {p : Nat} {c : Char} {cs : List Char} (separates : Ignored.isSeparator c = true) :
    Passes p (c :: cs) [] [] (p + c.utf8Size) cs
  | comment {p : Nat} {cs line after : List Char} (starts : Ignored.StartsComment cs line after) :
    Passes p cs [⟨p, p + 1 + Text.byteLength line⟩] [] (p + 1 + Text.byteLength line) after
  | token {p q : Nat} {cs rest : List Char} {t : Token}
    (reads : readToken p cs = .ok ⟨t, ⟨p, q⟩, [], rest⟩)
    (more : t ≠ .endOfInput) : Passes p cs [] [(t, ⟨p, q⟩)] q rest

namespace Source

/-- The reading of a source comes to a place. -/
inductive Reaches (s : Source) : Nat → List Char → Prop
  | start : Reaches s 0 s.chars
  | pass {p q : Nat} {cs rest : List Char} {spans : List Span} {ts : List Placed}
    (here : Reaches s p cs)
    (passes : Passes p cs spans ts q rest) : Reaches s q rest

/-- A comment of a source: the reading comes to its sharp, and it goes up to the end of the line. -/
def IsComment (s : Source) (span : Span) : Prop :=
  ∃ cs line after, s.Reaches span.start cs ∧ Ignored.StartsComment cs line after ∧
    span.stop = span.start + 1 + Text.byteLength line

end Source

/-- The comments in front of all tokens. -/
def Tokens.comments (ts : Tokens) : List Span := ts.readings.flatMap commentsBefore

variable {s : Source} {p q : Nat} {cs rest front line after : List Char} {spans : List Span}
  {ts : List Placed}

namespace Ignored

private theorem StartsComment.isGap (h : StartsComment cs line after) :
    IsGap ('#' :: line) after := by
  have single : line.head? ≠ some '#' := by
    cases line with
    | nil => exact fun hnone => nomatch hnone
    | cons c line => exact h.single
  have gap : IsGap ('#' :: (line ++ [])) after := .comment h.inside single h.ends .nil
  rwa [List.append_nil] at gap

/-- A single sharp starts a comment that goes up to the end of the line. -/
theorem startsComment_sharp {tail : List Char} (single : tail.head? ≠ some '#') :
    StartsComment ('#' :: tail) (tail.takeWhile fun c => !endsLine c)
      (tail.dropWhile fun c => !endsLine c) where
  text := by rw [List.takeWhile_append_dropWhile]
  single := by rwa [List.takeWhile_append_dropWhile]
  inside c hc := by simpa using List.all_eq_true.1 List.all_takeWhile c hc
  ends c hc := by
    have stop := List.head?_dropWhile_not (fun c => !endsLine c) tail
    rw [Option.mem_def.1 hc] at stop
    simpa using stop

/-- Behind a comment ignored text goes on at a line break, or it is over. -/
theorem head?_split_of_ends (ends : ∀ c ∈ after.head?, endsLine c = true) :
    ∀ c ∈ (split false after).1.head?, endsLine c = true := by
  cases after with
  | nil => exact fun _ hc => nomatch hc
  | cons c after =>
    rw [split, if_pos (isSeparator_of_endsLine (ends c rfl))]
    exact ends

end Ignored

/-- What is read from one place on is what is read from the other one on, with these comments and
tokens in front. -/
structure Adds (p : Nat) (cs : List Char) (spans : List Span) (ts : List Placed) (q : Nat)
    (rest : List Char) : Prop where
  fault : (scan p cs).fault = (scan q rest).fault
  placed : (scan p cs).readings.map Reading.placed = ts ++ (scan q rest).readings.map Reading.placed
  comments : (scan q rest).fault = none → (scan p cs).comments = spans ++ (scan q rest).comments

/-- Ignored text adds the comments that it has in front of what is ignored behind it. -/
theorem adds_of_isGap (h : Ignored.IsGap front rest)
    (hspans : Ignored.comments p none (front ++ (Ignored.split false rest).1) =
      spans ++ Ignored.comments (p + Text.byteLength front) none (Ignored.split false rest).1) :
    Adds p (front ++ rest) spans [] (p + Text.byteLength front) rest := by
  have read := readToken_ignored (Ignored.split_append_of_isGap h) p
  cases hread : readToken (p + Text.byteLength front) rest with
  | error e =>
    rw [hread] at read
    have here := scan_of_error read
    have behind := scan_of_error hread
    refine ⟨by rw [here, behind], by rw [here, behind]; rfl, fun hnone => ?_⟩
    rw [behind] at hnone
    exact nomatch hnone
  | ok r =>
    rw [hread] at read
    have first : commentsBefore { r with gap := front ++ r.gap } = spans ++ commentsBefore r := by
      obtain ⟨_, -, rfl⟩ := readToken_eq_ok.1 hread
      simp only [commentsBefore, Text.byteLength_append, Nat.add_sub_cancel]
      rw [← hspans]
      congr 1
      omega
    by_cases hend : r.token = .endOfInput
    · have here := scan_of_end read hend
      have behind := scan_of_end hread hend
      refine ⟨by rw [here, behind], by rw [here, behind]; rfl, fun _ => ?_⟩
      rw [here, behind]
      simp [Tokens.comments, first]
    · have here := scan_of_token read hend
      have behind := scan_of_token hread hend
      refine ⟨by rw [here, behind], by rw [here, behind]; rfl, fun _ => ?_⟩
      rw [here, behind]
      simp [Tokens.comments, first]

/-- What is passed is what it adds. -/
theorem Passes.adds (h : Passes p cs spans ts q rest) : Adds p cs spans ts q rest := by
  cases h with
  | @separator c _ separates =>
    have gap : Ignored.IsGap [c] rest := .separator separates .nil
    have hsharp : c ≠ '#' := by
      rintro rfl
      exact absurd separates (by decide)
    refine adds_of_isGap gap ?_
    rw [List.singleton_append, Ignored.comments, if_neg hsharp]
    rfl
  | @comment _ line after starts =>
    have behind := Ignored.head?_split_of_ends starts.ends
    have hsize : p + Text.byteLength ('#' :: line) = p + 1 + Text.byteLength line := by
      rw [Text.byteLength_cons, Nat.add_assoc]
      rfl
    rw [starts.text, ← List.cons_append, ← hsize]
    refine adds_of_isGap starts.isGap ?_
    rw [List.cons_append, Ignored.comments, if_pos rfl,
      Ignored.comments_line starts.inside behind, hsize]
    rfl
  | token reads more =>
    constructor
    · rw [scan_of_token reads more]
    · rw [scan_of_token reads more]
      rfl
    · rw [scan_of_token reads more]
      exact fun _ => rfl

private theorem Passes.length_lt (h : Passes p cs spans ts q rest) : rest.length < cs.length := by
  cases h with
  | separator separates => exact Nat.lt_succ_self _
  | comment starts =>
    rw [starts.text, List.length_cons, List.length_append]
    omega
  | token reads more => exact length_rest_lt reads more

/-- What is passed stands between the two places. -/
theorem Passes.bounds (h : Passes p cs spans ts q rest) :
    p ≤ q ∧ (∀ span ∈ spans, p ≤ span.start ∧ span.start < span.stop ∧ span.stop ≤ q) ∧
      ∀ t ∈ ts, p ≤ t.2.start ∧ t.2.stop ≤ q := by
  cases h with
  | separator separates => exact ⟨Nat.le_add_right _ _, by simp, by simp⟩
  | comment starts => exact ⟨by omega, by simp; omega, by simp⟩
  | token reads more =>
    obtain ⟨-, le, -⟩ := span_of_readToken reads
    exact ⟨le, by simp, by simp⟩

/-- Where no fault is ahead, something is passed at every place but the end. -/
theorem exists_passes (hfault : (scan p cs).fault = none) (hne : cs ≠ []) :
    ∃ spans ts q rest, Passes p cs spans ts q rest := by
  obtain ⟨c, tail, rfl⟩ := List.exists_cons_of_ne_nil hne
  by_cases hsep : Ignored.isSeparator c = true
  · exact ⟨_, _, _, _, .separator hsep⟩
  by_cases hsharp : c = '#' ∧ tail.head? ≠ some '#'
  · exact hsharp.1 ▸ ⟨_, _, _, _, .comment (Ignored.startsComment_sharp hsharp.2)⟩
  · have plain := Ignored.split_of_stop hsep hsharp
    have read : readToken p (c :: tail) = _ := readToken_of_plain plain
    cases hscan : scanToken (c :: tail) with
    | error e =>
      rw [hscan] at read
      rw [scan_of_error read] at hfault
      exact nomatch hfault
    | ok t =>
      rw [hscan] at read
      exact ⟨_, _, _, _, .token read fun hend =>
        List.cons_ne_nil _ _ ((scans_of_scanToken hscan).eq_nil hend)⟩

/-- A text without a fault is taken apart by what is passed, from its first place to its end. -/
theorem Passes.induct {motive : Nat → List Char → Prop} (finish : ∀ p, motive p [])
    (pass : ∀ {p q cs rest spans ts}, Passes p cs spans ts q rest →
      (scan q rest).fault = none → motive q rest → motive p cs) (p : Nat) (cs : List Char)
      (hfault : (scan p cs).fault = none) : motive p cs := by
  induction hlength : cs.length using Nat.strongRecOn generalizing p cs with
  | ind length ih =>
    subst hlength
    by_cases hne : cs = []
    · exact hne ▸ finish p
    · obtain ⟨spans, ts, q, rest, passes⟩ := exists_passes hfault hne
      have hrest := passes.adds.fault ▸ hfault
      exact pass passes hrest (ih _ passes.length_lt q rest hrest rfl)

/-- Comments stand in order behind a place, and apart from the tokens. -/
structure StandApart (p : Nat) (spans : List Span) (ts : List Placed) : Prop where
  behind : ∀ span ∈ spans, p ≤ span.start ∧ span.start < span.stop
  inOrder : spans.Pairwise fun a b => a.stop ≤ b.start
  apart : ∀ span ∈ spans, ∀ t ∈ ts, span.stop ≤ t.2.start ∨ t.2.stop ≤ span.start

theorem StandApart.nil (p : Nat) (ts : List Placed) : StandApart p [] ts :=
  ⟨fun _ h => (nomatch h), .nil, fun _ h => (nomatch h)⟩

/-- What is passed stands in front of all that is passed behind it. -/
theorem Passes.standApart {spans' : List Span} {ts' : List Placed} (h : Passes p cs spans ts q rest)
    (htokens : ∀ t ∈ ts', q ≤ t.2.start) (hrest : StandApart q spans' ts') :
    StandApart p (spans ++ spans') (ts ++ ts') := by
  obtain ⟨le, hspans, hts⟩ := h.bounds
  constructor
  · intro span hspan
    rcases List.mem_append.1 hspan with hspan | hspan
    · exact ⟨(hspans span hspan).1, (hspans span hspan).2.1⟩
    · exact ⟨Nat.le_trans le (hrest.behind span hspan).1, (hrest.behind span hspan).2⟩
  · refine List.pairwise_append.2 ⟨?_, hrest.inOrder, fun a ha b hb => ?_⟩
    · cases h with
      | separator separates => exact .nil
      | comment starts => exact List.pairwise_singleton _ _
      | token reads more => exact .nil
    · exact Nat.le_trans (hspans a ha).2.2 (hrest.behind b hb).1
  · intro span hspan t ht
    rcases List.mem_append.1 hspan with hspan | hspan
    · rcases List.mem_append.1 ht with ht | ht
      · -- A comment and a token are not passed at once.
        cases h with
        | separator separates => exact nomatch hspan
        | comment starts => exact nomatch ht
        | token reads more => exact nomatch hspan
      · exact .inl (Nat.le_trans (hspans span hspan).2.2 (htokens t ht))
    · rcases List.mem_append.1 ht with ht | ht
      · exact .inr (Nat.le_trans (hts t ht).2 (hrest.behind span hspan).1)
      · exact hrest.apart span hspan t ht

private theorem comments_nil (p : Nat) : (scan p []).comments = [] := by
  have read : readToken p [] = .ok ⟨.endOfInput, ⟨p, p⟩, [], []⟩ := rfl
  rw [scan_of_end read rfl]
  rfl

private theorem standApart_scan (hfault : (scan p cs).fault = none) :
    StandApart p (scan p cs).comments ((scan p cs).readings.map Reading.placed) := by
  refine Passes.induct
    (motive := fun p cs =>
      StandApart p (scan p cs).comments ((scan p cs).readings.map Reading.placed))
    (fun p => ?_) (fun {p q cs rest spans ts} passes hrest ih => ?_) p cs hfault
  · rw [comments_nil]
    exact .nil _ _
  · rw [passes.adds.comments hrest, passes.adds.placed]
    exact passes.standApart (inOrder_scan q rest).le_start ih

namespace Source

/-- From every place that the reading comes to, the comments ahead are comments of the source. -/
theorem isComment_of_mem (hfault : (scan p cs).fault = none) (h : s.Reaches p cs) :
    ∀ span ∈ (scan p cs).comments, s.IsComment span := by
  refine Passes.induct (motive := fun p cs => s.Reaches p cs →
    ∀ span ∈ (scan p cs).comments, s.IsComment span)
    (fun p _ span hspan => ?_)
    (fun {p q cs rest spans ts} passes hrest ih here span hspan => ?_) p cs hfault h
  · rw [comments_nil] at hspan
    exact nomatch hspan
  · rw [passes.adds.comments hrest] at hspan
    rcases List.mem_append.1 hspan with passed | ahead
    · cases passes with
      | separator separates => exact nomatch passed
      | comment starts =>
        obtain rfl := List.mem_singleton.1 passed
        exact ⟨_, _, _, here, starts, rfl⟩
      | token reads more => exact nomatch passed
    · exact ih (here.pass passes) span ahead

/-- Wherever the reading comes to, no fault is ahead if there is none, and the comments ahead are
among those of the source. -/
theorem Reaches.ahead (h : s.Reaches p cs) (hfault : s.tokens.fault = none) :
    (scan p cs).fault = none ∧ ∀ span ∈ (scan p cs).comments, span ∈ s.tokens.comments := by
  induction h with
  | start => exact ⟨hfault, fun _ => id⟩
  | pass here passes ih =>
    have hrest := passes.adds.fault ▸ ih.1
    refine ⟨hrest, fun span hspan => ih.2 span ?_⟩
    rw [passes.adds.comments hrest]
    exact List.mem_append_right _ hspan

private theorem mem_comments_of_isComment {span : Span} (hfault : s.tokens.fault = none)
    (h : s.IsComment span) : span ∈ s.tokens.comments := by
  obtain ⟨cs, line, after, here, starts, stop⟩ := h
  have passes : Passes span.start cs _ [] _ after := .comment starts
  have behind := ((here.pass passes).ahead hfault).1
  refine (here.ahead hfault).2 span ?_
  rw [passes.adds.comments behind, ← stop]
  exact List.mem_cons_self

end Source

namespace TokenStream

/-- The first fault that an iteration gives. -/
def firstFault (items : List (Except SyntaxError Reading)) : Option SyntaxError :=
  items.findSome? fun
    | .error e => some e
    | .ok _ => none

/-- An iteration gives the same whenever it is made. -/
theorem Yields.unique {i : TokenStream} {items items' : List (Except SyntaxError Reading)}
    (h : Yields s i items) (h' : Yields s i items') : items = items' := by
  match h, h' with
  | .over _, .over _ => rfl
  | .over hover, .item hitem _ => exact nomatch hover.symm.trans hitem
  | .item hitem _, .over hover => exact nomatch hover.symm.trans hitem
  | .item hitem hrest, .item hitem' hrest' =>
    obtain ⟨rfl, rfl⟩ := Prod.mk.inj (Option.some.inj (hitem.symm.trans hitem'))
    rw [hrest.unique hrest']

private theorem firstFault_items (ts : Tokens) : firstFault ts.items = ts.fault := by
  have none : firstFault (ts.readings.map Except.ok) = none := by simp [firstFault]
  rw [firstFault] at none
  rw [firstFault, Tokens.items, List.findSome?_append, none]
  cases ts.fault <;> rfl

end TokenStream

namespace Source

variable {s : Source}

private theorem comments_of_fault {e : SyntaxError} (h : s.tokens.fault = some e) :
    s.comments = .error e := by
  rw [comments, h]

private theorem comments_of_none (h : s.tokens.fault = none) :
    s.comments = .ok s.tokens.comments := by
  rw [comments, h]
  rfl

end Source

/-- Comments are found exactly. One iteration over the tokens is made, and if it gives a fault, the
first one is the fault of the search for comments. Otherwise the comments of the source are found,
all of them and no more, in order and apart from the tokens, and none only if there is none. The
search through the bytes between the tokens comes to the same. -/
theorem Source.comments_exact (s : Source) :
    ∃ items, (∀ items', TokenStream.Yields s ⟨0, false⟩ items' ↔ items' = items) ∧
      (∀ e, s.comments = .error e ↔ TokenStream.firstFault items = some e) ∧
      (TokenStream.firstFault items = none → ∃ spans, s.comments = .ok spans ∧
        (∀ span, span ∈ spans ↔ s.IsComment span) ∧
        StandApart 0 spans (s.tokens.readings.map Reading.placed) ∧
        (spans = [] ↔ ¬∃ span, s.IsComment span)) ∧
      (Bytewise.comments s.chars 0).run = some s.comments := by
  have whole : s.chars = [] ++ s.chars := rfl
  have yields : TokenStream.Yields s ⟨0, false⟩ s.tokens.items := yields_scan whole
  have searched := Bytewise.comments_eq (Text.RestAt.of_append whole)
  rw [Text.byteLength_nil] at searched
  refine ⟨s.tokens.items, fun items' => ⟨fun h => h.unique yields, fun same => same ▸ yields⟩, ?_⟩
  rw [TokenStream.firstFault_items]
  cases hfault : s.tokens.fault with
  | some e =>
    rw [comments_of_fault hfault, searched, ← tokens, hfault]
    exact ⟨fun e' => by simp, nofun, rfl⟩
  | none =>
    have mem (span : Span) : span ∈ s.tokens.comments ↔ s.IsComment span :=
      ⟨isComment_of_mem hfault .start span, mem_comments_of_isComment hfault⟩
    rw [comments_of_none hfault, searched, ← tokens, hfault]
    refine ⟨fun e' => by simp, fun _ => ⟨_, rfl, mem, standApart_scan hfault, ?_⟩, rfl⟩
    simp only [List.eq_nil_iff_forall_not_mem, mem, not_exists]

end SchemaLang
