import SchemaLang.Proofs.Nesting.Measure
import SchemaLang.Proofs.Prefixes.Definition

/-!
# The limit to nesting

The limit cuts off just what is nested deeper than it allows, and has no other part in a parse: what
is answered within some limit is answered within every one that its nesting does not exceed, and
within any other the parse fails for its limit. A misfit cannot come first, since it would stand in
the way of the wider parse as well.
-/

namespace SchemaLang

/-- The same options with another limit. -/
def ParseOptions.limitedTo (o : ParseOptions) (limit : Nat) : ParseOptions :=
  { o with maxDepth := limit }

/-- Parses within each limit answer the same things, as far as these are not nested too deep. -/
structure LimitIsExact {α : Type} (parse : Nat → Except SyntaxError α) (nesting : α → Nat) :
    Prop where
  answers : ∀ m a, parse m = .ok a ↔ ∃ m', m ≤ m' ∧ parse m' = .ok a ∧ nesting a ≤ m
  raised : ∀ m m' a, m ≤ m' → parse m = .ok a → parse m' = .ok a
  fails : ∀ m m' a, parse m' = .ok a → m < nesting a → ∃ e, parse m = .error e ∧
    e.cause = .nestingTooDeep m

/-- The limits within which something is answered are those from its nesting on, if a narrower parse
answers whenever a wider one does, unless it fails for its limit. -/
theorem limitIsExact_of_spelling {α : Type} {parse : Nat → Except SyntaxError α} {nesting : α → Nat}
    {conforms : Nat → α → Prop} {S : α → Prop}
    (hparse : ∀ m a, parse m = .ok a ↔ conforms m a ∧ S a)
    (hconforms : ∀ m n a, conforms m a → (conforms n a ↔ nesting a ≤ n))
    (hfails : ∀ m m' a, m ≤ m' → parse m' = .ok a →
      (∃ b, parse m = .ok b) ∨ ∃ e, parse m = .error e ∧ e.cause = .nestingTooDeep m) :
    LimitIsExact parse nesting := by
  have within (m n : Nat) (a : α) (h : parse m = .ok a) : parse n = .ok a ↔ nesting a ≤ n := by
    obtain ⟨ha, hspelled⟩ := (hparse m a).1 h
    rw [hparse n a, and_iff_left hspelled, hconforms m n a ha]
  have bound (m : Nat) (a : α) (h : parse m = .ok a) : nesting a ≤ m := (within m m a h).1 h
  refine ⟨fun m a => ⟨fun h => ⟨m, le_rfl, h, bound m a h⟩, ?_⟩, fun m m' a hm h => ?_,
    fun m m' a h hdeep => ?_⟩
  · rintro ⟨m', -, h, hle⟩
    exact (within m' m a h).2 hle
  · exact (within m m' a h).2 ((bound m a h).trans hm)
  · have hm : m ≤ m' := hdeep.le.trans (bound m' a h)
    -- An answer within the narrower limit would be the same one, which is nested too deep for it.
    rcases hfails m m' a hm h with ⟨b, hb⟩ | he
    · have hb' : parse m' = .ok b := (within m m' b hb).2 ((bound m b hb).trans hm)
      obtain rfl : b = a := Except.ok.inj (hb'.symm.trans h)
      exact absurd (bound m b hb) (Nat.not_le.2 hdeep)
    · exact he

/-- One text parsed twice without locations, within a limit and within a wider one. -/
def Lockstep.widened (s : Source) {o o' : ParseOptions} (ho : o.noLocation = true)
    (ho' : o'.noLocation = true) (hdepth : o.maxDepth ≤ o'.maxDepth) : Lockstep where
  source := s.setting o
  target := s.setting o'
  readings := s.tokens.readings
  readings' := s.tokens.readings
  beyond := []
  beyond' := []
  maxDepth := hdepth
  unlocated := s.locate_setting ho
  unlocated' := s.locate_setting ho'
  ends hfault _ := ⟨hfault, rfl⟩

/-- Without locations, what is answered within a wider limit is answered within the narrower one,
unless that is exceeded. -/
theorem Parser.run_of_widened {α : Type} {p : Parser α}
    (hp : ∀ m : Lockstep, Follows m p p) {s : Source} {o o' : ParseOptions} {a : α}
    (ho : o.noLocation = true) (ho' : o'.noLocation = true) (hdepth : o.maxDepth ≤ o'.maxDepth)
    (hs : s.tokens.fault = none) (h : p.run s o' = .ok a) :
    p.run s o = .ok a ∨ ∃ e, p.run s o = .error e ∧ e.cause = .nestingTooDeep o.maxDepth := by
  obtain ⟨current, rest, hlexemes⟩ := List.exists_cons_of_ne_nil (Source.lexemes_ne_nil hs)
  rw [run_of_lexemes p o' hlexemes] at h
  rw [run_of_lexemes p o hlexemes]
  have together : (Lockstep.widened s ho ho' hdepth).Together ⟨current, rest,
      0⟩ ⟨current, rest, 0⟩ := by
    refine ⟨Source.isSound hlexemes.symm, Source.isSound hlexemes.symm, s.lexemes, s.lexemes,
      Source.lexemes_ne_nil hs, ?_, ?_, Lexeme.forall₂_gather [] [] [] rfl rfl⟩
    · exact hlexemes.symm.trans (List.append_nil _).symm
    · exact hlexemes.symm.trans (List.append_nil _).symm
  have outcomes := (hp (Lockstep.widened s ho ho' hdepth)).outcomes together
  have hsource : (Lockstep.widened s ho ho' hdepth).source = s.setting o := rfl
  have htarget : (Lockstep.widened s ho ho' hdepth).target = s.setting o' := rfl
  rw [hsource, htarget] at outcomes
  generalize p (s.setting o) ⟨current, rest, 0⟩ = r, p (s.setting o') ⟨current, rest, 0⟩ =
    r' at outcomes h
  cases outcomes with
  | answers _ => exact .inl h
  | fails _ => simp [Except.map] at h
  | stops he =>
    rcases he with he | ⟨f, hf, -⟩
    · exact .inr ⟨_, rfl, he⟩
    · exact absurd (hf.symm.trans hs) (Option.some_ne_none f)
  | answersBeyond hsuffix => exact absurd (List.eq_nil_of_suffix_nil hsuffix) (List.cons_ne_nil _ _)
  | failsBeyond hl =>
    obtain ⟨l, hl, -⟩ := hl
    exact absurd hl List.not_mem_nil

/-- With locations there is an answer within the narrower limit too, unless that is exceeded. -/
theorem Parser.run_limitedTo {α : Type} {p : Parser α} {g : (Loc → Option Loc) → α → α}
    (hp : ∀ m : Lockstep, Follows m p p) (hp' : ∀ m : Simulation, Simulates m (g m.relocate) p p)
    {s : Source} {o : ParseOptions} {m m' : Nat} {a : α} (hm : m ≤ m') (hs : s.tokens.fault = none)
    (h : p.run s (o.limitedTo m') = .ok a) :
    (∃ b, p.run s (o.limitedTo m) = .ok b) ∨ ∃ e, p.run s (o.limitedTo m) = .error e ∧
    e.cause = .nestingTooDeep m := by
  have unlocated (limit : Nat) :
      p.run s ⟨true, true, limit⟩ = (p.run s (o.limitedTo limit)).map (g fun _ => none) := by
    refine run_relocate hp' rfl rfl fun start stop => ?_
    rw [Option.bind_fun_none, ParseOptions.locate, if_pos rfl]
  have answered := unlocated m'
  rw [h] at answered
  rcases run_of_widened hp (o := ⟨true, true, m⟩) rfl rfl hm hs answered with hr | ⟨e, hr, he⟩
  · rw [unlocated] at hr
    cases hb : p.run s (o.limitedTo m) with
    | ok b => exact .inl ⟨b, rfl⟩
    | error e => simp [hb, Except.map] at hr
  · rw [unlocated] at hr
    cases hb : p.run s (o.limitedTo m) with
    | ok b => simp [hb, Except.map] at hr
    | error f =>
      simp only [hb, Except.map, Except.error.injEq] at hr
      exact .inr ⟨f, rfl, hr ▸ he⟩

/-- The limit to nesting is exact, for documents and for values, and changes nothing else. -/
theorem parse_limitIsExact (s : Source) (o : ParseOptions) :
    LimitIsExact (fun limit => parseDocument s (o.limitedTo limit)) Document.nesting ∧
      LimitIsExact (fun limit => parseValue s (o.limitedTo limit)) Value.nesting := by
  constructor
  · refine limitIsExact_of_spelling (S := (·.IsSpelledBy s o)) (fun m d => parseDocument_eq_ok_iff)
      (fun m n d h => Document.conforms_iff h) fun m m' d hm h => ?_
    obtain ⟨-, hs, -⟩ := isSpelledBy_of_parseDocument h
    exact Parser.run_limitedTo (fun _ => Parser.Follows.document)
      (fun _ => Parser.simulates_document) hm hs h
  · refine limitIsExact_of_spelling (S := (·.IsSpelledBy s o)) (fun m v => parseValue_eq_ok_iff)
      (fun m n v h => Value.conforms_iff h) fun m m' v hm h => ?_
    obtain ⟨-, c, e, hc, -, fv, hend⟩ := parseValue_eq_ok_iff.1 h
    have hs := (ends_of_spans hc fv hend).1
    exact Parser.run_limitedTo (fun _ => Parser.Follows.wholeValue)
      (fun _ => Parser.simulates_wholeValue) hm hs h

end SchemaLang
