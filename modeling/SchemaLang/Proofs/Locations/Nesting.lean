import SchemaLang.Proofs.Locations.Extent
import SchemaLang.Proofs.Traversal.SourceOrder

/-!
# How locations nest

The locations of a parsed document are places in its source: between two character boundaries, with
some text between them. Those of the parts of a node are inside of the one of the node and apart
from each other. Every node but the document starts where a token of the grammar starts and stops
where one stops; the document starts with the first such token and goes on to the end of the source.
-/

namespace SchemaLang

/-- The location is a place in the source, with room in it and between two character boundaries. -/
structure Loc.IsPlaceIn (l : Loc) (s : Source) : Prop where
  source : l.source = some s
  lt : l.start < l.stop
  le_byteLength : l.stop ≤ s.byteLength
  starts : Text.IsBoundary l.start s.chars
  stops : Text.IsBoundary l.stop s.chars
  text : l.text?.isSome = true

/-- Two boundaries in order are a place. -/
theorem Loc.isPlaceIn {s : Source} {start stop : Nat} (lt : start < stop)
    (starts : Text.IsBoundary start s.chars) (stops : Text.IsBoundary stop s.chars) :
    Loc.IsPlaceIn ⟨start, stop, some s⟩ s where
  source := rfl
  lt := lt
  le_byteLength := stops.le_byteLength
  starts := starts
  stops := stops
  text := by
    obtain ⟨inside, hinside⟩ := starts.exists_slice? stops (Nat.le_of_lt lt)
    simp [Loc.text?, Source.text?, hinside]

/-- Neither of the places reaches into the other one. -/
def Loc.IsApartFrom (l k : Loc) : Prop := l.stop ≤ k.start ∨ k.stop ≤ l.start

/-- How the locations in a document that was parsed from a source lie in it. -/
structure Document.LocationsNest (d : Document) (s : Source) : Prop where
  /-- Every node has a location, which is a place in the source. -/
  located : ∀ n, (Node.document d).Within n → ∃ l, n.loc = some l ∧ l.IsPlaceIn s
  /-- A part of a node is inside of the node. -/
  inside : ∀ n, (Node.document d).Within n → ∀ c ∈ n.children, ∀ l ∈ n.loc, ∀ k ∈ c.loc,
    l.start ≤ k.start ∧ k.stop ≤ l.stop
  /-- Two parts of a node are apart. -/
  apart : ∀ n, (Node.document d).Within n →
    n.children.Pairwise fun a b => ∀ l ∈ a.loc, ∀ k ∈ b.loc, l.IsApartFrom k
  /-- A node but the document starts with a token of the grammar and stops with one. -/
  tokens : ∀ n, (Node.document d).Within n → n ≠ .document d → ∀ l ∈ n.loc,
    (∃ r ∈ s.tokens.readings, r.token.isSignificant = true ∧ r.span.start = l.start) ∧
      ∃ r ∈ s.tokens.readings, r.token.isSignificant = true ∧ r.span.stop = l.stop
  /-- The document starts with the first token of the grammar and goes on to the end
  of the source. -/
  whole : ∃ r, s.tokens.readings.find? (fun r => r.token.isSignificant) = some r ∧
    d.loc = some ⟨r.span.start, s.byteLength, some s⟩

variable {s : Source} {levels : Nat} {d : Document} {n : Node}

/-- A node but the document is a place in the source that starts and stops with tokens
of the grammar. -/
theorem exists_tokens_of_within (h : parseDocument s ⟨false, false, levels⟩ = .ok d)
    (hn : (Node.document d).Within n) (hne : n ≠ .document d) : ∃ first ∈ s.tokens.readings,
      ∃ last ∈ s.tokens.readings, first.token.isSignificant = true ∧
      last.token.isSignificant = true ∧
        n.loc = some ⟨first.span.start, last.span.stop, some s⟩ := by
  obtain ⟨F, before, l, rest, behind, written, covers, hlexemes⟩ :=
    exists_lexemes_of_within h hn hne
  obtain ⟨k, hk, stop⟩ := Lexeme.exists_mem_lastStop l rest 0
  have loc := written.loc_eq (hn.ne_document hne) covers
  have reading {m : Lexeme} (hm : m ∈ l :: rest) :
      ∃ r ∈ s.tokens.readings, r.token.isSignificant = true ∧ r.span = m.span := by
    have mem : m ∈ s.lexemes := by
      rw [hlexemes]
      exact List.mem_append_right _ (List.mem_append_left _ hm)
    obtain ⟨r, hr, placed⟩ := Source.exists_reading mem
    have token : r.token = m.token := congrArg Prod.fst placed
    exact ⟨r, hr, token ▸ covers.isSignificant m hm, congrArg Prod.snd placed⟩
  obtain ⟨first, hfirst, significant, span⟩ := reading List.mem_cons_self
  obtain ⟨last, hlast, significant', span'⟩ := reading hk
  refine ⟨first, hfirst, last, hlast, significant, significant', loc.trans ?_⟩
  rw [stop, ← span, ← span']
  rfl

/-- The document goes from the first token of the grammar to the end of the source. -/
theorem exists_first_token (h : parseDocument s ⟨false, false, levels⟩ = .ok d) :
    ∃ r, s.tokens.readings.find? (fun r => r.token.isSignificant) = some r ∧
      d.loc = some ⟨r.span.start, s.byteLength, some s⟩ := by
  obtain ⟨conforms, -, c, m, hc, -, spans, hend, hloc⟩ := isSpelledBy_of_parseDocument h
  obtain ⟨run, r, later, hreadings, hrun, -, placed, -⟩ :=
    Lexeme.exists_run_of_gather_cons (show Lexeme.gather [] s.tokens.readings =
      c.current :: c.rest from hc.symm)
  have token : r.token = c.current.token := congrArg Prod.fst placed
  have span : r.span = c.current.span := congrArg Prod.snd placed
  have significant : r.token.isSignificant = true := by
    obtain ⟨ls, hls, -, covers⟩ := Form.covers_of_spans spans
    obtain ⟨first, rest, rfl⟩ :=
      List.exists_cons_of_ne_nil ((Document.starts_form conforms).covers_ne_nil covers)
    obtain ⟨rfl, -⟩ := List.cons.inj hls
    exact token ▸ covers.isSignificant c.current List.mem_cons_self
  have skipped : ∀ x ∈ run, ¬ x.token.isSignificant = true := fun x hx hsignificant =>
    Bool.false_ne_true ((Token.isDescription_of_isSignificant hsignificant).symm.trans (hrun x hx))
  refine ⟨r, ?_, ?_⟩
  · rw [hreadings, List.find?_append, List.find?_eq_none.2 skipped]
    simp [significant]
  · have last : m.current ∈ s.lexemes := hc ▸ (Form.suffix_of_spans spans).subset List.mem_cons_self
    obtain ⟨e, he, placed'⟩ := Source.exists_reading last
    obtain ⟨_, atEnd⟩ := s.lexingContract.reads.exists_readsAt e he
    have ends := atEnd.ends ((congrArg Prod.fst placed').trans hend)
    have span' : e.span = m.current.span := congrArg Prod.snd placed'
    rw [hloc, ← span, ← span', ends]
    rfl

/-- The locations of a document that was parsed with them nest, for every limit to the nesting. -/
theorem locationsNest_of_parseDocument (h : parseDocument s ⟨false, false, levels⟩ = .ok d) :
    d.LocationsNest s := by
  obtain ⟨lo, hi, laid⟩ := laid_of_parseDocument h rfl
  have inside {n : Node} (hn : (Node.document d).Within n) := laid.of_within List.mem_cons_self hn
  have readsAt := s.lexingContract.reads.exists_readsAt
  obtain ⟨first, hfirst, hwhole⟩ := exists_first_token h
  constructor
  · intro n hn
    obtain ⟨l, hl, -, lt, -⟩ := inside hn
    refine ⟨l, hl, ?_⟩
    by_cases hne : n = .document d
    · subst hne
      obtain rfl := Option.some.inj (hwhole.symm.trans hl)
      obtain ⟨_, atFirst⟩ := readsAt first (List.mem_of_find?_eq_some hfirst)
      have stops : Text.IsBoundary s.byteLength s.chars :=
        ⟨s.chars, [], (List.append_nil _).symm, rfl⟩
      exact Loc.isPlaceIn lt atFirst.starts stops
    · obtain ⟨first, hfirst, last, hlast, -, -, loc⟩ := exists_tokens_of_within h hn hne
      obtain rfl := Option.some.inj (loc.symm.trans hl)
      obtain ⟨_, atFirst⟩ := readsAt first hfirst
      obtain ⟨_, atLast⟩ := readsAt last hlast
      exact Loc.isPlaceIn lt atFirst.starts atLast.stops
  · intro n hn c hc l hl k hk
    obtain ⟨l', hl', -, -, -, parts⟩ := inside hn
    obtain rfl := Option.some.inj (hl'.symm.trans hl)
    obtain ⟨k', hk', start, -, stop, -⟩ := parts.of_within (n.sourceParts_perm.mem_iff.2 hc) .refl
    obtain rfl := Option.some.inj (hk'.symm.trans hk)
    exact ⟨start, stop⟩
  · intro n hn
    obtain ⟨_, -, -, -, -, parts⟩ := inside hn
    have apart := parts.pairwise.imp fun {a b} h l hl k hk =>
      (Or.inl (h l hl k hk) : Loc.IsApartFrom l k)
    refine (n.sourceParts_perm.pairwise_iff ?_).1 apart
    exact fun h l hl k hk => (h k hk l hl).symm
  · intro n hn hne l hl
    obtain ⟨first, hfirst, last, hlast, significant, significant', loc⟩ :=
      exists_tokens_of_within h hn hne
    obtain rfl := Option.some.inj (loc.symm.trans hl)
    exact ⟨⟨first, hfirst, significant, rfl⟩, last, hlast, significant', rfl⟩
  · exact ⟨first, hfirst, hwhole⟩

/-- An extension behind a byte order mark and a description, with a required list in it and a
comment behind it. -/
theorem locationsNest_of_parseDocument_extension :
    let s : Source :=
      ⟨"\ufeff## Ä.\nextend type A \x7b f(x: B = 1): [C!]! @d \x7d # é", "extension.graphqls"⟩
    ∃ d, parseDocument s ⟨false, false, 1⟩ = .ok d ∧ d.LocationsNest s := by
  intro s
  have parsed : (parseDocument s ⟨false, false, 1⟩).isOk = true := by decide +kernel
  cases hd : parseDocument s ⟨false, false, 1⟩ with
  | error e =>
    rw [hd] at parsed
    exact nomatch parsed
  | ok d => exact ⟨d, rfl, locationsNest_of_parseDocument hd⟩

end SchemaLang
