import SchemaLang.Proofs.Gathering
import SchemaLang.Proofs.Lexing.Tiling
import SchemaLang.Proofs.Locations.Conforms
import SchemaLang.Proofs.Nesting.Limit
import SchemaLang.Proofs.Slices.Anchored
import SchemaLang.Proofs.Viability.Causes
import SchemaLang.Proofs.Viability.Definition

/-!
# The leftmost fault

A misfit is found as early as it can be. The tokens in front of it begin a source that is
parsed, since the parse could have gone on from there. With the token that does not fit they
begin none: whatever stands behind it, the parse goes the same way up to that token and fails
there with the same words.
-/

namespace SchemaLang

/-- A fault at the token with index `i` that could not have been found earlier, nor kept away by
what follows. -/
structure FailsLeftmost (s : Source) (o : ParseOptions) (e : SyntaxError) (i : Nat) : Prop where
  position : ∃ r, s.tokens.readings[i]? = some r ∧ e.position = r.span.start
  /-- Some source begins with the tokens in front of the fault and is parsed. -/
  viable : ∃ body, ∀ name o', max 1 o.maxDepth ≤ o'.maxDepth →
    s.tokenSequence.take i <+: (Source.mk body name).tokenSequence ∧
    ∃ d, parseDocument ⟨body, name⟩ o' = .ok d
  /-- No source that begins with these tokens and the one at the fault is parsed. -/
  rejected : ∀ s' : Source, s.tokenSequence.take (i + 1) <+: s'.tokenSequence →
    ∀ o' d, parseDocument s' o' ≠ .ok d
  /-- Each of them fails at that token with the same words. -/
  same : ∀ s' : Source, s.tokenSequence.take (i + 1) <+: s'.tokenSequence →
    ∀ o', o.maxDepth ≤ o'.maxDepth → ∃ e' r', parseDocument s' o' = .error e' ∧
    e'.cause.category = e.cause.category ∧ e'.message = e.message ∧
      e'.notes = e.notes ∧ s'.tokens.readings[i]? = some r' ∧ e'.position = r'.span.start

/-- Tokens that start at one place are the same token. -/
theorem Source.index_unique {s : Source} {i j : Nat} {r q : Reading}
    (hr : s.tokens.readings[i]? = some r) (hq : s.tokens.readings[j]? = some q)
    (h : r.span.start = q.span.start) : i = j := by
  have order := List.pairwise_iff_getElem.1 (pairwise_start_scan 0 s.chars)
  obtain ⟨hi, rfl⟩ := List.getElem?_eq_some_iff.1 hr
  obtain ⟨hj, rfl⟩ := List.getElem?_eq_some_iff.1 hq
  rcases Nat.lt_trichotomy i j with hlt | heq | hlt
  · exact absurd h (Nat.ne_of_lt (order i j hi hj hlt))
  · exact heq
  · exact absurd h.symm (Nat.ne_of_lt (order j i hj hi hlt))

/-- A token that is no description makes a lexeme. -/
theorem Lexeme.gather_concat_ne_nil {pending : List String} {rs : List Reading} {r : Reading}
    (hr : r.token.isDescription = false) : gather pending (rs ++ [r]) ≠ [] := by
  intro hnil
  have tokens := map_token_gather pending (rs ++ [r])
  rw [hnil] at tokens
  simp [hr] at tokens

/-- A token that is no description splits the lexemes behind it from the others. -/
theorem Source.lexemes_split {s : Source} {xs zs : List Reading} {r : Reading}
    (hs : s.tokens.readings = xs ++ r :: zs) (hr : r.token.isDescription = false) :
    s.lexemes = Lexeme.gather [] (xs ++ [r]) ++ Lexeme.gather [] zs := by
  rw [lexemes, hs, Lexeme.gather_append hr]

/-- A run fails at the lexemes, unless there are none for a fault of the text. -/
theorem Parser.run_eq_error {α : Type} {p : Parser α} {s : Source} {o : ParseOptions}
    {e : SyntaxError} (h : p.run s o = .error e) : s.tokens.fault = some e ∨
      ∃ current rest, s.lexemes = current :: rest ∧
      p (s.setting o) ⟨current, rest, 0⟩ = .error e := by
  cases hlexemes : s.lexemes with
  | nil =>
    left
    cases hfault : s.tokens.fault with
    | none => exact absurd hlexemes (Source.lexemes_ne_nil hfault)
    | some f =>
      rw [Source.lexemes] at hlexemes
      simp only [run, hlexemes, hfault] at h
      exact congrArg some (Except.error.inj h)
  | cons current rest =>
    right
    rw [run_of_lexemes p o hlexemes] at h
    refine ⟨current, rest, rfl, ?_⟩
    cases hp : p (s.setting o) ⟨current, rest, 0⟩ with
    | ok r => simp [hp, Except.map] at h
    | error f =>
      simp only [hp, Except.map, Except.error.injEq] at h
      rw [h]

/-- A run that meets a misfit meets it at the lexemes. -/
theorem Parser.exists_lexemes_of_misfit {α : Type} {p : Parser α} {s : Source} {o : ParseOptions}
    {e : SyntaxError} (h : p.run s o = .error e) (hmisfit : e.cause.category.IsMisfit) :
    ∃ current rest, s.lexemes = current :: rest ∧ p (s.setting o) ⟨current, rest, 0⟩ = .error e :=
  (run_eq_error h).resolve_left fun hfault => hmisfit.cause_ne hfault rfl

/-- What stops a parse of a source is no misfit. -/
theorem Lockstep.not_stops_of_misfit {m : Lockstep} {s : Source}
    (hfault : m.source.fault = s.tokens.fault) {e : SyntaxError}
    (hmisfit : e.cause.category.IsMisfit) : ¬ m.Stops e := by
  rintro (hdeep | ⟨f, hf, hcause⟩)
  · rw [hdeep] at hmisfit
    exact hmisfit
  · exact hmisfit.cause_ne (hfault.symm.trans hf) hcause

/-- Two places have the same index in longer lists as well. -/
theorem SameIndex.append {rs rs' : List Reading} {position position' : Nat}
    (h : SameIndex rs rs' position position') (zs zs' : List Reading) :
    SameIndex (rs ++ zs) (rs' ++ zs') position position' := by
  obtain ⟨i, r, r', hr, hr', hposition, hposition'⟩ := h
  obtain ⟨hi, -⟩ := List.getElem?_eq_some_iff.1 hr
  obtain ⟨hi', -⟩ := List.getElem?_eq_some_iff.1 hr'
  exact ⟨i, r, r', (List.getElem?_append_left hi).trans hr,
    (List.getElem?_append_left hi').trans hr', hposition, hposition'⟩

section Alike

variable {s s' : Source} {xs zs xs' zs' : List Reading} {r r' : Reading}
  (hs : s.tokens.readings = xs ++ r :: zs) (hs' : s'.tokens.readings = xs' ++ r' :: zs')
  (hr : r.token.isDescription = false) (hr' : r'.token = r.token)

include hs hs' hr hr'

/-- If nothing stands behind the tokens that are the same in the one text, nothing does
in the other. -/
theorem ends_of_alike (hfault : s.tokens.fault = none) (hzs : Lexeme.gather [] zs = []) :
    s'.tokens.fault = none ∧ Lexeme.gather [] zs' = [] := by
  obtain ⟨init, -, htokens⟩ := s.endsOnce_lexemes
  rw [Source.lexemes_split hs hr, hzs, List.append_nil, Lexeme.map_token_gather, List.map_append,
    List.filter_append, hfault] at htokens
  have last : r.token = .endOfInput := by
    have concat : (xs.map Reading.token).filter (fun t => !t.isDescription) ++ [r.token] =
        init ++ [.endOfInput] := by
      simpa [hr] using htokens
    exact (List.cons.inj (List.append_inj_right' concat rfl)).1
  have suffix : .endOfInput ::
      zs'.map Reading.token <:+ (scan 0 s'.chars).readings.map Reading.token := by
    change _ <:+ s'.tokens.readings.map Reading.token
    rw [hs', List.map_append, List.map_cons, hr', last]
    exact List.suffix_append _ _
  obtain ⟨hfault', hnil⟩ := (endsOnce_scan 0 s'.chars).of_suffix suffix
  rw [List.map_eq_nil_iff.1 hnil]
  exact ⟨hfault', rfl⟩

end Alike

/-- Parses of two texts with the same tokens up to one that is no description. -/
def Lockstep.upTo {s s' : Source} {o o' : ParseOptions} (ho : o.noLocation = true)
    (ho' : o'.noLocation = true) (hdepth : o.maxDepth ≤ o'.maxDepth) {xs zs xs' zs' : List Reading}
    {r r' : Reading} (hs : s.tokens.readings = xs ++ r :: zs)
    (hs' : s'.tokens.readings = xs' ++ r' :: zs') (hr : r.token.isDescription = false)
    (hr' : r'.token = r.token) : Lockstep where
  source := s.setting o
  target := s'.setting o'
  readings := s.tokens.readings
  readings' := s'.tokens.readings
  beyond := Lexeme.gather [] zs
  beyond' := Lexeme.gather [] zs'
  maxDepth := hdepth
  unlocated := s.locate_setting ho
  unlocated' := s'.locate_setting ho'
  ends := ends_of_alike hs hs' hr hr'

/-- Where a lexeme starts, a token starts. -/
theorem Lexeme.exists_start_of_mem_gather {pending : List String} {rs : List Reading} {l : Lexeme}
    (h : l ∈ gather pending rs) : ∃ r ∈ rs, r.span.start = l.span.start := by
  have placed : l.placed ∈ (gather pending rs).map Lexeme.placed := List.mem_map_of_mem h
  rw [map_placed_gather] at placed
  obtain ⟨r, hr, hspan⟩ := List.mem_map.1 (List.mem_of_mem_filter placed)
  exact ⟨r, hr, congrArg (fun p => p.2.start) hspan⟩

/-- A misfit is met in every source with the same tokens up to it. -/
theorem error_of_alike {s s' : Source} {o o' : ParseOptions} (ho : o.noLocation = true)
    (ho' : o'.noLocation = true) (hdepth : o.maxDepth ≤ o'.maxDepth) {xs zs xs' zs' : List Reading}
    {r r' : Reading} (hs : s.tokens.readings = xs ++ r :: zs)
    (hs' : s'.tokens.readings = xs' ++ r' :: zs') (hr : r.token.isDescription = false)
    (hr' : r'.token = r.token) (hxs : xs'.map Reading.token = xs.map Reading.token)
    {e : SyntaxError} (h : parseDocument s o = .error e) (hmisfit : e.cause.category.IsMisfit)
    (hposition : e.position = r.span.start) : ∃ e', parseDocument s' o' = .error e' ∧
    SameCause s.tokens.readings s'.tokens.readings e e' := by
  obtain ⟨current, rest, hlexemes, he⟩ := Parser.exists_lexemes_of_misfit h hmisfit
  have split := Source.lexemes_split hs hr
  have split' := Source.lexemes_split hs' (hr' ▸ hr)
  obtain ⟨current', rest', hlexemes'⟩ := List.exists_cons_of_ne_nil
    (split' ▸ List.append_ne_nil_of_left_ne_nil (Lexeme.gather_concat_ne_nil (hr' ▸ hr)) _)
  have alike : List.Forall₂ (Lexeme.Matches s.tokens.readings s'.tokens.readings)
    (Lexeme.gather [] (xs ++ [r]))
      (Lexeme.gather [] (xs' ++ [r'])) := by
    refine (Lexeme.forall₂_gather [] [] [] rfl (by simp [hxs, hr'])).imp fun l l' hl =>
      ⟨hl.token, hl.description, ?_⟩
    rw [hs, hs']
    simpa using hl.start.append zs zs'
  let m : Lockstep := .upTo ho ho' hdepth hs hs' hr hr'
  have together : m.Together ⟨current, rest, 0⟩ ⟨current', rest', 0⟩ :=
    ⟨Source.isSound hlexemes.symm, Source.isSound hlexemes'.symm, _, _,
      Lexeme.gather_concat_ne_nil hr, hlexemes.symm.trans split, hlexemes'.symm.trans split', alike⟩
  have outcomes := (Parser.Follows.document (m := m)).outcomes together
  change m.Outcomes (Parser.document (s.setting o) _)
    (Parser.document (s'.setting o') _) at outcomes
  have run := Parser.run_of_lexemes Parser.document o' hlexemes'
  rw [he] at outcomes
  generalize Parser.document (s'.setting o') ⟨current', rest', 0⟩ = result at outcomes run
  cases outcomes with
  | fails same => exact ⟨_, run, same⟩
  | stops stops => exact absurd stops (Lockstep.not_stops_of_misfit rfl hmisfit)
  | failsBeyond beyond =>
    obtain ⟨l, hl, hstart⟩ := beyond
    obtain ⟨q, hq, hqstart⟩ := Lexeme.exists_start_of_mem_gather hl
    have order := pairwise_start_scan 0 s.chars
    change s.tokens.readings.Pairwise _ at order
    rw [hs] at order
    have behind := (List.pairwise_cons.1 (List.pairwise_append.1 order).2.1).1 q hq
    omega

/-- What conforms within a limit conforms within a wider one. -/
theorem Document.Conforms.mono {d : Document} {m n : Nat} (h : d.Conforms m) (hle : m ≤ n) :
    d.Conforms n :=
  (Document.conforms_iff h).2 (((Document.conforms_iff h).1 h).trans hle)

/-- There is a source with the lexemes of a document that conforms, and it is parsed within
the same limit. -/
theorem exists_source_of_writes {d : Document} {depth : Nat} {ks : List Lexeme}
    (hd : d.Conforms depth) (hks : ∀ l ∈ ks, l.IsValid) (fd : d.form.Writes ks) :
    ∃ body, ∀ name o, depth ≤ o.maxDepth →
      (Source.mk body name).tokenSequence = ks.flatMap Lexeme.tokens ++ [.endOfInput] ∧
        ∃ d', parseDocument ⟨body, name⟩ o = .ok d' := by
  have significant := fd.isSignificant
  have writable : ∀ t ∈ ks.flatMap Lexeme.tokens, t.IsValid ∧ t ≠ .endOfInput := by
    intro t ht
    obtain ⟨l, hl, ht⟩ := List.mem_flatMap.1 ht
    exact ⟨(hks l hl).tokens t ht, Lexeme.ne_endOfInput_of_mem_tokens (significant l hl) t ht⟩
  obtain ⟨cs, hcs⟩ := exists_lexes writable
  refine ⟨String.ofList cs, fun name o hdepth => ?_⟩
  let s : Source := ⟨String.ofList cs, name⟩
  have tokens : s.tokenSequence = ks.flatMap Lexeme.tokens ++ [.endOfInput] := by
    have chars : s.chars = cs := String.toList_ofList
    rw [Source.tokenSequence, Source.tokens, chars]
    exact (hcs 0).2.1
  refine ⟨tokens, ?_⟩
  -- Its lexemes are those of the document, up to where they stand, and then the end of the input.
  obtain ⟨ls, rs, hgather, alike, hrs⟩ := Lexeme.gather_flatMap_tokens significant tokens
  obtain ⟨r, _, rfl, hr, hnil⟩ := List.map_eq_cons_iff.1 hrs
  rw [List.map_eq_nil_iff.1 hnil, Lexeme.gather_cons (hr ▸ rfl)] at hgather
  have covers : (d.mapLoc fun _ => none).form.Covers (fun _ _ => none) ls := by
    rw [Document.form_mapLoc]
    exact fd.relocate (fun _ _ h => h) (fun _ _ _ _ _ _ => rfl) alike
  have conforms : (d.mapLoc fun _ => none).Conforms depth := Document.conforms_mapLoc hd
  let bare : ParseOptions := ⟨true, false, o.maxDepth⟩
  have parsed : parseDocument s bare = .ok (d.mapLoc fun _ => none) := by
    refine parseDocument_eq_ok_iff_covers.2 ⟨conforms.mono hdepth, ls, _, hgather, hr, covers,
      fun first _ => ?_⟩
    exact Option.bind_fun_none d.loc
  have located : parseDocument s bare = (parseDocument s o).map (·.mapLoc fun _ => none) :=
    parseDocument_withoutLoc rfl rfl rfl
  rw [parsed] at located
  cases hparse : parseDocument s o with
  | ok d' => exact ⟨d', rfl⟩
  | error e => simp [hparse, Except.map] at located

/-- What a parse goes on to begins with the tokens in front of the place where it does so. -/
theorem exists_prefix_of_goesOn {s : Source} {c : Cursor} {position depth : Nat}
    (hc : c.lexemes = s.lexemes)
    (h : c.GoesOn position (Parser.LexemesOf Document.form (Document.Conforms depth))) :
    ∃ xs r zs ks, ∃ d : Document, s.tokens.readings = xs ++ r :: zs ∧ position = r.span.start ∧
      xs.map Reading.token <+: ks.flatMap Lexeme.tokens ∧ (∀ l ∈ ks, l.IsValid) ∧ d.Conforms depth ∧
      d.form.Writes ks := by
  obtain ⟨front, next, more, k, ks, hfront, rfl, hk, hvalid, d, pd, fd⟩ := h
  obtain ⟨xs, r, zs, hs, hr, hplaced, hgather, -⟩ := Lexeme.exists_of_gather (hc.symm.trans hfront)
  have valid : ∀ x ∈ s.tokens.readings, x.token.IsValid := isValid_of_mem_scan
  have validLexemes : ∀ l ∈ front, l.IsValid := by
    intro l hl
    refine Source.isValid_of_mem_lexemes (s := s) ?_
    rw [← hc, hfront]
    exact List.mem_append_left _ hl
  have tokens := Lexeme.flatMap_tokens_gather [] (by simp)
    (fun x hx => valid x (hs ▸ List.mem_append_left _ hx)) hr
  rw [hgather, List.flatMap_append, List.flatMap_singleton, Lexeme.tokens, ← List.append_assoc,
    List.map_append, List.map_nil, List.nil_append] at tokens
  have before := List.append_inj_left' tokens rfl
  refine ⟨xs, r, zs, front ++ k :: ks, d, hs, congrArg (fun p => p.2.start) hplaced.symm, ?_,
    List.forall_mem_append.2 ⟨validLexemes, hvalid⟩, pd, fd⟩
  rw [← before, List.flatMap_append, List.flatMap_cons, Lexeme.tokens, hk, List.append_assoc]
  exact ⟨_, List.append_assoc _ _ _⟩

/-- A parse without locations fails where any other one fails. -/
theorem parseDocument_unlocated_eq_error {s : Source} {o : ParseOptions} {e : SyntaxError}
    (noSource : Bool) :
    parseDocument s ⟨true, noSource, o.maxDepth⟩ = .error e ↔ parseDocument s o = .error e := by
  have unlocated : parseDocument s ⟨true, noSource, o.maxDepth⟩ =
      (parseDocument s o).map (·.mapLoc fun _ => none) :=
    parseDocument_withoutLoc rfl rfl rfl
  rw [unlocated]
  cases parseDocument s o with
  | ok d => exact ⟨nofun, nofun⟩
  | error e' => exact Iff.rfl

/-- A misfit stands at a token of the grammar, or at the end. -/
theorem exists_reading_of_misfit {s : Source} {o : ParseOptions} {e : SyntaxError}
    (h : parseDocument s o = .error e) (hmisfit : e.cause.category.IsMisfit) :
    ∃ xs r zs, s.tokens.readings = xs ++ r :: zs ∧ r.token.isDescription = false ∧
    e.position = r.span.start := by
  have failed := (parseDocument_unlocated_eq_error true).2 h
  obtain ⟨current, rest, hlexemes, he⟩ := Parser.exists_lexemes_of_misfit failed hmisfit
  have advances :=
    (Parser.Follows.document
      (m := .widened s (o := ⟨true, true, o.maxDepth⟩) rfl rfl le_rfl)).advances
    ⟨current, rest, 0⟩
  change Lockstep.Advances _ _ (Parser.document (s.setting ⟨true, true, o.maxDepth⟩) _) at advances
  rw [he] at advances
  obtain ⟨l, hl, hposition⟩ := advances.resolve_right (Lockstep.not_stops_of_misfit rfl hmisfit)
  obtain ⟨front, behind, hsplit⟩ := List.append_of_mem hl
  obtain ⟨xs, r, zs, hs, hr, hplaced, -⟩ := Lexeme.exists_of_gather (hlexemes.trans hsplit)
  exact ⟨xs, r, zs, hs, hr, hposition.trans (congrArg (fun p => p.2.start) hplaced.symm)⟩

section Misfit

variable {s : Source} {o : ParseOptions} {e : SyntaxError} {xs zs : List Reading} {r : Reading}
  (h : parseDocument s o = .error e) (hmisfit : e.cause.category.IsMisfit)
  (hs : s.tokens.readings = xs ++ r :: zs) (hr : r.token.isDescription = false)
  (hposition : e.position = r.span.start)

include h hmisfit hs hr hposition

/-- A source that begins with the tokens up to a misfit fails there with the same words. -/
theorem exists_error_of_prefix {s' : Source}
    (hbegins : xs.map Reading.token ++ [r.token] <+: s'.tokenSequence) {o' : ParseOptions}
    (hdepth : o.maxDepth ≤ o'.maxDepth) : ∃ e' r', parseDocument s' o' = .error e' ∧
    e'.cause.category = e.cause.category ∧ e'.message = e.message ∧
      e'.notes = e.notes ∧ s'.tokens.readings[xs.length]? = some r' ∧
      e'.position = r'.span.start := by
  obtain ⟨us, hus⟩ := hbegins
  rw [List.append_assoc] at hus
  obtain ⟨xs', ys', hs', hxs, hys⟩ := List.map_eq_append_iff.1 hus.symm
  obtain ⟨r', zs', rfl, hr', -⟩ := List.map_eq_cons_iff.1 hys
  have depth :
      (⟨true, true, o.maxDepth⟩ : ParseOptions).maxDepth ≤
        (⟨true, true, o'.maxDepth⟩ : ParseOptions).maxDepth := hdepth
  obtain ⟨e', he', cause⟩ := error_of_alike rfl rfl depth hs hs' hr hr' hxs
    ((parseDocument_unlocated_eq_error true).2 h) hmisfit hposition
  obtain ⟨category, message, notes, j, q, q', hq, hq', hstart, hstart'⟩ := cause.sameFault
  have reading : s.tokens.readings[xs.length]? = some r := by simp [hs]
  obtain rfl := Source.index_unique hq reading (hstart.symm.trans hposition)
  exact ⟨e', q', (parseDocument_unlocated_eq_error true).1 he', category, message,
    notes, hq', hstart'⟩

/-- Some source begins with the tokens in front of a misfit and is parsed. -/
theorem exists_source_of_misfit : ∃ body, ∀ name o', max 1 o.maxDepth ≤ o'.maxDepth →
    xs.map Reading.token <+: (Source.mk body name).tokenSequence ∧
    ∃ d, parseDocument ⟨body, name⟩ o' = .ok d := by
  -- Within a limit that lets lists and objects be nested at all, the parse fails at the same place.
  let wider : ParseOptions := ⟨true, true, max 1 o.maxDepth⟩
  have begins : xs.map Reading.token ++ [r.token] <+: s.tokenSequence := by
    simp [Source.tokenSequence, hs]
  have depth : o.maxDepth ≤ wider.maxDepth := le_max_right _ _
  obtain ⟨e', q, he', category, -, -, hq, hstart⟩ :=
    exists_error_of_prefix h hmisfit hs hr hposition begins depth
  have reading : s.tokens.readings[xs.length]? = some r := by simp [hs]
  obtain rfl : r = q := Option.some.inj (reading.symm.trans hq)
  have hmisfit' : e'.cause.category.IsMisfit := category ▸ hmisfit
  obtain ⟨current, rest, hlexemes, failed⟩ := Parser.exists_lexemes_of_misfit he' hmisfit'
  have hc : (Cursor.mk current rest 0).lexemes = s.lexemes := hlexemes.symm
  have goesOn := Parser.goesOn_of_document (s.isBare_setting rfl) (Source.isSound hc)
    (Nat.lt_of_lt_of_le Nat.zero_lt_one (le_max_left _ _)) failed hmisfit'
  obtain ⟨xs', r', zs', ks, d, hs', hstart', front, hks, pd, fd⟩ :=
    exists_prefix_of_goesOn hc goesOn
  have reading' : s.tokens.readings[xs'.length]? = some r' := by simp [hs']
  have length : xs'.length = xs.length :=
    Source.index_unique reading' reading (hstart'.symm.trans hstart)
  obtain rfl : xs' = xs := List.append_inj_left (hs'.symm.trans hs) length
  obtain ⟨body, goes⟩ := exists_source_of_writes pd hks fd
  refine ⟨body, fun name o' hdepth => ?_⟩
  obtain ⟨tokens, parsed⟩ := goes name o' hdepth
  rw [tokens]
  exact ⟨front.trans (List.prefix_append _ _), parsed⟩

end Misfit

/-- The first fault of a source, if it is one of a token that does not fit, is the leftmost
possible one. -/
theorem exists_failsLeftmost {s : Source} {o : ParseOptions} {e : SyntaxError}
    (h : parseDocument s o = .error e) (hmisfit : e.cause.category.IsMisfit) :
    ∃ i, FailsLeftmost s o e i := by
  obtain ⟨xs, r, zs, hs, hr, hposition⟩ := exists_reading_of_misfit h hmisfit
  have sequence : s.tokenSequence = xs.map Reading.token ++ [r.token] ++ zs.map Reading.token := by
    simp [Source.tokenSequence, hs]
  have before : s.tokenSequence.take xs.length = xs.map Reading.token := by
    rw [sequence, List.append_assoc]
    exact List.take_left' (List.length_map _)
  have upTo : s.tokenSequence.take (xs.length + 1) = xs.map Reading.token ++ [r.token] := by
    rw [sequence]
    exact List.take_left' (by simp)
  refine ⟨xs.length, ⟨r, by simp [hs], hposition⟩, ?_, fun s' begins o' d hparse => ?_,
    fun s' begins o' hdepth => ?_⟩
  · rw [before]
    exact exists_source_of_misfit h hmisfit hs hr hposition
  · rw [upTo] at begins
    obtain ⟨hd, spelled⟩ := parseDocument_eq_ok_iff.1 hparse
    let wider : ParseOptions := o'.limitedTo (max o.maxDepth o'.maxDepth)
    have parsed : parseDocument s' wider = .ok d :=
      parseDocument_of_isSpelledBy (hd.mono (le_max_right _ _)) spelled
    have depth : o.maxDepth ≤ wider.maxDepth := le_max_left _ _
    obtain ⟨e', -, failed, -⟩ := exists_error_of_prefix h hmisfit hs hr hposition begins depth
    rw [parsed] at failed
    exact nomatch failed
  · rw [upTo] at begins
    exact exists_error_of_prefix h hmisfit hs hr hposition begins hdepth

/-- A type that ends behind the description of its first field could have gone on with the field. -/
theorem exists_failsLeftmost_field :
    let s : Source := ⟨"type A \x7b\n  ## All of it.\n", "A.graphqls"⟩
    let e : SyntaxError := ⟨25, .expected .name .endOfInput, none⟩
    parseDocument s {} = .error e ∧ e.cause.category.IsMisfit ∧ ∃ i, FailsLeftmost s {} e i := by
  intro s e
  have failed : parseDocument s {} = .error e := by
    decide +kernel
  exact ⟨failed, trivial, exists_failsLeftmost failed trivial⟩

end SchemaLang
