import SchemaLang.Proofs.Preservation.Kept
import SchemaLang.Proofs.RoundTrip

/-!
# Formatting keeps the tokens

The canonical text of a parsed document has the tokens of the source, in their order and with their
texts. Descriptions aside, the only tokens of the source that are missing are brackets around the
only object of an order's expression.
-/

namespace SchemaLang

/-- Whether a span lies within a location. -/
def Span.liesIn (span : Span) (loc : Option Loc) : Bool :=
  loc.any fun l => decide (l.start ≤ span.start) && decide (span.stop ≤ l.stop)

/-- Whether a token is a bracket. -/
def Token.isBracket (t : Token) : Bool :=
  t = .punctuator .bracketOpen || t = .punctuator .bracketClose

/-- Whether a token is a bracket around the only object of the expression: one between its key and
its end that belongs neither to the key nor to the object. -/
def OrderExpression.isLoneBracket (e : OrderExpression) (p : Placed) : Bool :=
  match e.expression with
  | [o] => p.1.isBracket && p.2.liesIn e.loc && !p.2.liesIn e.key.loc && !p.2.liesIn o.loc
  | _ => false

/-- Whether a token is a bracket around the only object of an expression in the definition. -/
def Definition.isLoneBracket (d : Definition) (p : Placed) : Bool :=
  match d with
  | .order d => d.expressions.any (·.isLoneBracket p)
  | _ => false

/-- Whether a token is a bracket around the only object of an order's expression in the document. -/
def Document.isLoneBracket (d : Document) (p : Placed) : Bool :=
  d.definitions.any (·.isLoneBracket p)

/-- Nodes know where they were parsed from. -/
def Locates (locate : Nat → Nat → Option Loc) : Prop :=
  ∀ (start stop : Nat) (span : Span), span.liesIn (locate start stop) = true ↔
    start ≤ span.start ∧ span.stop ≤ stop

private theorem locates_of_options {o : ParseOptions} (ho : o.noLocation = false) (s : Source) :
    Locates (o.locate s) := by
  intro start stop span
  simp [ParseOptions.locate, ho, Span.liesIn]

variable {locate : Nat → Nat → Option Loc} {c c' m : Cursor}

/-- A token between two cursors lies within what was parsed between them. -/
theorem Placed.StandsBetween.liesIn {p : Placed} (h : p.StandsBetween c c') (hl : Locates locate) :
    p.2.liesIn (locate c.current.span.start c'.lastStop) = true :=
  (hl _ _ _).2 ⟨h.1, h.2.2⟩

/-- A token behind a cursor does not lie within what was parsed in front of it. -/
theorem Placed.StandsBetween.not_liesIn_before {p : Placed} (h : p.StandsBetween m c')
    (hm : m.InOrder) (hl : Locates locate) (start : Nat) :
    p.2.liesIn (locate start m.lastStop) = false := by
  have order := hm.current.1
  have room := h.2.1
  have after := h.1
  refine Bool.eq_false_iff.2 fun hp => ?_
  have stop := ((hl _ _ _).1 hp).2
  omega

/-- A token in front of a cursor does not lie within what was parsed behind it. -/
theorem Placed.StandsBetween.not_liesIn_after {p : Placed} (h : p.StandsBetween c m)
    (hm : m.InOrder) (hl : Locates locate) (stop : Nat) :
    p.2.liesIn (locate m.current.span.start stop) = false := by
  have order := hm.current.1
  have room := h.2.1
  have before := h.2.2
  refine Bool.eq_false_iff.2 fun hp => ?_
  have start := ((hl _ _ _).1 hp).1
  omega

namespace OrderExpression

private theorem loc_of_spans_form {e : OrderExpression} (h : e.form.Spans locate c c') :
    e.loc = locate c.current.span.start c'.lastStop := h.2

private theorem isLoneBracket_single {e : OrderExpression} {o : ObjectValue}
    (he : e.expression = [o]) (p : Placed) : e.isLoneBracket p =
      (p.1.isBracket && p.2.liesIn e.loc && !p.2.liesIn e.key.loc && !p.2.liesIn o.loc) := by
  rw [isLoneBracket, he]

private theorem isLoneBracket_of_not_single {e : OrderExpression}
    (he : ∀ o, e.expression ≠ [o]) (p : Placed) : e.isLoneBracket p = false := by
  rw [isLoneBracket]
  split
  · rename_i o ho
    exact absurd ho (he o)
  · rfl

/-- The only object of an expression, with or without brackets around it. -/
theorem kept_object {o : ObjectValue} {drop : Placed → Bool} (hl : Locates locate) (hc : c.InOrder)
    (h : (Form.bracketable o.form).Spans locate c c')
    (hdrop : ∀ p : Placed, p.StandsBetween c c' → drop p = (p.1.isBracket && !p.2.liesIn o.loc)) :
    Form.Kept drop (.bracketable o.form) c c' := by
  have inside : ∀ {m m' : Cursor}, o.form.Spans locate m m' → ∀ p : Placed, p.StandsBetween m m' →
      p.2.liesIn o.loc = true := by
    intro m m' ho p hp
    have hloc : o.loc = locate m.current.span.start m'.lastStop := ho.2
    rw [hloc]
    exact hp.liesIn hl
  rcases h with h | ⟨m, m', ⟨hopen, hm⟩, ho, hclose, hm'⟩
  · exact o.isRigid_form.kept hc h fun p hp => by
      rw [hdrop p hp, inside h p hp, Bool.not_true, Bool.and_false]
  · have opening := hc.precedes_of_moves hm
    have object := opening.inOrder.precedes_of_spans ho
    have closing := object.inOrder.precedes_of_moves hm'
    have hloc : o.loc = locate m.current.span.start m'.lastStop := ho.2
    have first := Placed.standsBetween_of_moves hc (by rw [hopen]; rfl) hm
    have last := Placed.standsBetween_of_moves object.inOrder (by rw [hclose]; rfl) hm'
    refine Form.Kept.brackets hc hopen hm object hclose hm' ?_ ?_ ?_
    · refine o.isRigid_form.kept opening.inOrder ho fun p hp => ?_
      rw [hdrop p ((hp.before closing).after opening), inside ho p hp,
        Bool.not_true, Bool.and_false]
    · have bracket : c.current.placed.1.isBracket = true := by
        change c.current.token.isBracket = true
        rw [hopen]
        rfl
      rw [hdrop _ (first.before (object.trans closing)), bracket, hloc,
        first.not_liesIn_after opening.inOrder hl]
      rfl
    · have bracket : m'.current.placed.1.isBracket = true := by
        change m'.current.token.isBracket = true
        rw [hclose]
        rfl
      rw [hdrop _ (last.after (opening.trans object)), bracket, hloc,
        last.not_liesIn_before object.inOrder hl]
      rfl

/-- An expression of one object omits the brackets around it. -/
theorem omits_form_single {e : OrderExpression} {o : ObjectValue} (he : e.expression = [o])
    (hl : Locates locate) : Form.Omits locate e.form e.isLoneBracket := by
  have lone := isLoneBracket_single he
  constructor
  · intro c c' hc hF p room hp
    rw [lone, loc_of_spans_form hF] at hp
    simp only [Bool.and_eq_true] at hp
    obtain ⟨start, stop⟩ := (hl _ _ _).1 hp.1.1.2
    exact ⟨start, room, stop⟩
  · intro c c' hc hF drop hdrop
    have hloc := loc_of_spans_form hF
    rw [form, he] at hF ⊢
    obtain ⟨⟨k, hkey, k', ⟨hcolon, hmoves⟩, _, hobject, rfl⟩, -⟩ := hF
    have key := hc.precedes_of_spans hkey
    have colon := key.inOrder.precedes_of_moves hmoves
    have object := colon.inOrder.precedes_of_spans hobject
    have hkeyloc : e.key.loc = locate c.current.span.start k.lastStop := hkey.2
    have keptKey : Form.Kept drop e.key.form c k := by
      refine e.key.isRigid_form.kept hc hkey fun p hp => ?_
      rw [hdrop p (hp.before (colon.trans object)), lone, hkeyloc, hp.liesIn hl,
        Bool.not_true, Bool.and_false, Bool.false_and]
    have keptColon : Form.Kept drop (.punctuator .colon) k k' := by
      have stands := Placed.standsBetween_of_moves key.inOrder (by rw [hcolon]; rfl) hmoves
      refine Form.kept_of_moves rfl rfl key.inOrder hcolon hmoves ?_
      have bracket : k.current.placed.1.isBracket = false := by
        change k.current.token.isBracket = false
        rw [hcolon]
        rfl
      rw [hdrop _ ((stands.before object).after key), lone, bracket]
      rfl
    have keptObject : Form.Kept drop (.bracketable o.form) k' c' := by
      refine kept_object hl colon.inOrder hobject fun p hp => ?_
      have behind := hp.after colon
      have within := (behind.after key).liesIn hl
      rw [hdrop p (behind.after key), lone, hloc, within, hkeyloc,
        behind.not_liesIn_before key.inOrder hl, Bool.and_true, Bool.not_false, Bool.and_true]
    have keptEnd := Form.Kept.seq object object.inOrder.precedes_refl keptObject Form.kept_empty
    exact Form.Kept.seq key (colon.trans object) keptKey
      (Form.Kept.seq colon object keptColon keptEnd)

/-- An expression omits the brackets around its only object, if it has just one. -/
theorem omits_form (e : OrderExpression) (hl : Locates locate) :
    Form.Omits locate e.form e.isLoneBracket := by
  by_cases he : ∃ o, e.expression = [o]
  · obtain ⟨o, ho⟩ := he
    exact omits_form_single ho hl
  · have several : ∀ o, e.expression ≠ [o] := fun o ho => he ⟨o, ho⟩
    have none : e.isLoneBracket = fun _ => false := funext (isLoneBracket_of_not_single several)
    rw [none]
    refine Form.IsRigid.omits ?_
    simp [form, isRigid_objectsForm several]

end OrderExpression

theorem Form.Omits.block {α : Type} {form : α → Form} {lone : α → Placed → Bool} {xs : List α}
    (p q : Punctuator) (h : ∀ x ∈ xs, Form.Omits locate (form x) (lone x)) :
    Form.Omits locate (.block p q (xs.map form)) fun t => xs.any (lone · t) := by
  have whole := (isRigid_punctuator p).omits.seq ((Form.Omits.all h).seq
    ((isRigid_punctuator q).omits.seq isRigid_empty.omits))
  simp only [Bool.false_or, Bool.or_false] at whole
  exact whole

private theorem OrderDefinition.omits_form (d : OrderDefinition) (hl : Locates locate) :
    Form.Omits locate d.form fun p => d.expressions.any (·.isLoneBracket p) := by
  have expressions := Form.Omits.block .braceOpen .braceClose fun e (_ : e ∈ d.expressions) =>
    e.omits_form hl
  have whole :=
    (Form.isRigid_heading d.description "order").omits.seq
      ((Form.isRigid_word "on").omits.seq
        (d.type.isRigid_form.omits.seq (expressions.seq Form.isRigid_empty.omits)))
  simp only [Bool.false_or, Bool.or_false] at whole
  exact whole.located d.loc

private theorem Definition.omits_form (d : Definition) (hl : Locates locate) :
    Form.Omits locate d.form d.isLoneBracket := by
  cases d with
  | order d => exact d.omits_form hl
  | _ d => exact (Definition.isRigid_form (by simp)).omits

private theorem Document.omits_form (d : Document) (hl : Locates locate) :
    Form.Omits locate d.form d.isLoneBracket :=
  Form.Omits.all fun x _ => x.omits_form hl

private theorem OrderExpression.isBracket_of_isLoneBracket {e : OrderExpression} {p : Placed}
    (h : e.isLoneBracket p = true) : p.1.isBracket = true := by
  by_cases he : ∃ o, e.expression = [o]
  · obtain ⟨o, ho⟩ := he
    rw [isLoneBracket_single ho] at h
    simp only [Bool.and_eq_true] at h
    exact h.1.1.1
  · rw [isLoneBracket_of_not_single fun o ho => he ⟨o, ho⟩] at h
    exact absurd h (by simp)

private theorem Document.isBracket_of_isLoneBracket {d : Document} {p : Placed}
    (h : d.isLoneBracket p = true) : p.1.isBracket = true := by
  obtain ⟨x, -, hx⟩ := List.any_eq_true.1 h
  cases x with
  | order o =>
    obtain ⟨e, -, he⟩ := List.any_eq_true.1 hx
    exact OrderExpression.isBracket_of_isLoneBracket he
  | _ => exact absurd hx (by simp [Definition.isLoneBracket])

/-- The tokens of the readings that are neither descriptions nor found by `drop`. -/
def keptTokens (drop : Placed → Bool) (rs : List Reading) : List Token :=
  ((rs.filter fun r => !drop r.placed).map Reading.token).filter fun t => !t.isDescription

private theorem keptTokens_eq_gather (drop : Placed → Bool) (rs : List Reading) :
    keptTokens drop rs =
      (((Lexeme.gather [] rs).map Lexeme.placed).filter fun p => !drop p).map Prod.fst := by
  rw [Lexeme.map_placed_gather, List.filter_filter]
  induction rs with
  | nil => rfl
  | cons r rs ih =>
    rw [keptTokens] at ih ⊢
    cases hd : drop r.placed <;> cases ht : r.token.isDescription <;>
      simp_all [Reading.placed]

/-- In the lexemes of a source that was parsed, the kept tokens are those of the document. -/
theorem keptTokens_of_parseDocument {s : Source} {d : Document} {o : ParseOptions}
    (ho : o.noLocation = false) (h : parseDocument s o = .ok d) :
    keptTokens d.isLoneBracket s.tokens.readings = d.form.significantTokens ++ [.endOfInput] := by
  obtain ⟨-, -, c, m, hc, hstop, spans, hend, -⟩ := isSpelledBy_of_parseDocument h
  have omits := d.omits_form (locates_of_options ho s)
  have inOrder := Source.inOrder_lexemes hc hstop
  obtain ⟨ps, taken, -, tokens⟩ := omits.kept inOrder spans d.isLoneBracket fun _ _ => rfl
  have last : m.placed = [m.current.placed] := by
    rw [Cursor.placed, Cursor.lexemes, (ends_of_spans hc spans hend).2]
    rfl
  have endStays : d.isLoneBracket m.current.placed = false := by
    refine Bool.eq_false_iff.2 fun lone => ?_
    have bracket := Document.isBracket_of_isLoneBracket lone
    change m.current.token.isBracket = true at bracket
    rw [hend] at bracket
    exact absurd bracket (by decide)
  change c.placed = _ at taken
  rw [Cursor.placed, hc, Source.lexemes] at taken
  rw [keptTokens_eq_gather, taken, last, List.filter_append, List.map_append, tokens,
    List.filter_cons_of_pos (by rw [endStays]; rfl), List.filter_nil]
  exact congrArg (fun t => d.form.significantTokens ++ [t]) hend

/-- The canonical text of a parsed document has the tokens of its source, descriptions aside, but
for the brackets around the only object of an order's expression. -/
theorem tokens_print {s : Source} {d : Document} {noSource : Bool} {depth : Nat}
    (h : parseDocument s ⟨false, noSource, depth⟩ = .ok d) (name : String) :
    let printed : Source := ⟨(Node.document d).print, name⟩
    s.tokens.fault = none ∧ printed.tokens.fault = none ∧
      (printed.tokens.readings.map Reading.token).filter (fun t => !t.isDescription) =
        ((s.tokens.readings.filter fun r => !d.isLoneBracket r.placed).map Reading.token).filter
          (fun t => !t.isDescription) := by
  intro printed
  obtain ⟨conforms, fault, -⟩ := isSpelledBy_of_parseDocument h
  have lexes : Lexes printed.chars d.form.tokens := by
    change Lexes (Node.document d).print.toList _
    rw [Node.print_eq_render]
    exact Document.lexes_render conforms
  obtain ⟨printedFault, printedTokens⟩ := lexes 0
  change printed.tokens.fault = none at printedFault
  change printed.tokens.readings.map Reading.token = _ at printedTokens
  refine ⟨fault, printedFault, ?_⟩
  rw [printedTokens, List.filter_append]
  exact (keptTokens_of_parseDocument rfl h).symm

/-- The brackets of an order by one object are the only tokens that its canonical text lacks. -/
theorem tokens_print_order :
    let source : Source := ⟨"order on A{B:[{}]}", "order.graphqls"⟩
    let place (start stop : Nat) : Option Loc := some ⟨start, stop, none⟩
    let key : EnumValueDefinition := ⟨none, ⟨"B", place 11 12⟩, [], place 11 12⟩
    let order : OrderDefinition :=
      ⟨none, .named ⟨⟨"A", place 9 10⟩, place 9 10⟩,
        [⟨key, [⟨[], place 14 16⟩], place 11 17⟩], place 0 18⟩
    let d : Document := ⟨[.order order], place 0 18⟩
    let printed : Source := ⟨(Node.document d).print, "printed.graphqls"⟩
    parseDocument source ⟨false, true, 1⟩ = .ok d ∧
      (source.tokens.readings.filter fun r => d.isLoneBracket r.placed).map Reading.token =
        [.punctuator .bracketOpen, .punctuator .bracketClose] ∧
      (printed.tokens.readings.map Reading.token).filter (fun t => !t.isDescription) =
        ((source.tokens.readings.filter fun r =>
        !d.isLoneBracket r.placed).map Reading.token).filter
          (fun t => !t.isDescription) := by
  intro source place key order d printed
  have parsed : parseDocument source ⟨false, true, 1⟩ = .ok d := by decide +kernel
  exact ⟨parsed, by decide +kernel, (tokens_print parsed "printed.graphqls").2.2⟩

end SchemaLang
