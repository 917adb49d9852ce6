import SchemaLang.Proofs.Completeness.Basic
import SchemaLang.Proofs.Soundness.TypeRef

/-!
# What the parsers of type references accept

Every type that conforms is read where its form stands, if no mark that it is required follows, and
behind arrows no other arrow. The first token shows whether a type is a list, an arrow or a name.
-/

namespace SchemaLang.Parser

variable {s : Setting} {c c' : Cursor} {levels : Nat}

theorem accepts_namedType : Accepts namedType NamedType.form NamedType.Conforms fun _ => True := by
  intro s c c' t pt h _
  obtain ⟨n, loc⟩ := t
  obtain ⟨fn, rfl⟩ := h
  rw [namedType, start_bind, bind_of_ok (accepts_name pt fn trivial), located_bind]
  rfl

private theorem accepts_named {t : NamedType} (pt : t.Conforms) (h : t.form.Spans s.locate c c') :
    (do return TypeRef.named (← namedType) : Parser TypeRef) s c = .ok (.named t, c') := by
  rw [bind_of_ok (accepts_namedType pt h trivial)]
  rfl

/-- A name is no bracket and no arrow. -/
theorem token_of_named {t : NamedType} (h : t.form.Spans s.locate c c') :
    c.current.token = .name t.name.value :=
  h.1.1.1

private theorem accepts_orNonNull {p : Parser TypeRef} {base : TypeRef → Prop}
    {follow : Token → Prop} (hp : Accepts p TypeRef.form (TypeRef.Conforms base levels) follow)
    (hbang : follow (.punctuator .bang)) :
    Accepts (orNonNull p) TypeRef.form (TypeRef.Conforms (TypeRef.IsOrNonNull base) levels)
      (fun t => follow t ∧ t ≠ .punctuator .bang) := by
  intro s c c' t ⟨pt, hdepth⟩ h hend
  rw [orNonNull, start_bind]
  rcases pt with pt | ⟨u, loc, rfl, pu⟩
  · rw [bind_of_ok (hp ⟨pt, hdepth⟩ h hend.1), skip_bind, if_neg hend.2]
    rfl
  · obtain ⟨⟨m, fu, _, ⟨ht, hm⟩, rfl⟩, rfl⟩ := h
    rw [bind_of_ok (hp ⟨pu, hdepth⟩ fu (by rw [ht]; exact hbang)), skip_bind, if_pos ht,
      bind_of_ok (advance_of_moves hm), if_pos rfl, located_bind]
    rfl

private theorem accepts_listTypeOf {element : Parser TypeRef} {follow : Token → Prop}
    (he : Accepts element TypeRef.form (TypeRef.Conforms TypeRef.IsPlain levels) follow)
    (hclose : follow (.punctuator .bracketClose)) :
    Accepts (listTypeOf element) TypeRef.form (TypeRef.Conforms TypeRef.IsPlainList (levels + 1))
    fun _ => True := by
  intro s c c' t ⟨pt, hdepth⟩ h _
  cases t with
  | list u loc =>
    obtain ⟨⟨m₁, ⟨ht, hm⟩, m₂, fu, _, ⟨ht', hm'⟩, rfl⟩, rfl⟩ := h
    have pu : u.Conforms TypeRef.IsPlain levels := ⟨pt, Nat.le_of_succ_le_succ hdepth⟩
    rw [listTypeOf, start_bind, bind_of_ok (expect_of_moves ht hm),
      bind_of_ok (he pu fu (by rw [ht']; exact hclose)),
      bind_of_ok (expect_of_moves ht' hm'), located_bind]
    rfl
  | _ => exact pt.elim

private theorem accepts_plainType_of_listType
    (hl : Accepts (listType levels) TypeRef.form (TypeRef.Conforms TypeRef.IsPlainList levels)
      fun _ => True) :
    Accepts (plainType levels) TypeRef.form (TypeRef.Conforms TypeRef.IsPlain levels)
      (· ≠ .punctuator .bang) := by
  have hbase :
      Accepts (do if ← peek .bracketOpen then listType levels else return .named (← namedType))
        TypeRef.form (TypeRef.Conforms TypeRef.IsPlainBase levels) fun _ => True := by
    intro s c c' t ⟨pt, hdepth⟩ h _
    rw [peek_bind]
    cases t with
    | list u loc =>
      have ht : c.current.token = .punctuator .bracketOpen := h.1.choose_spec.1.1
      rw [if_pos (by simpa using ht)]
      exact hl ⟨pt, hdepth⟩ h trivial
    | named u =>
      have ht := token_of_named h
      rw [if_neg (by simp [ht])]
      exact accepts_named pt h
    | _ => exact pt.elim
  intro s c c' t ⟨pt, hdepth⟩ h hend
  rw [plainType_eq]
  exact accepts_orNonNull hbase trivial ⟨TypeRef.isPlain_iff_isOrNonNull.1 pt, hdepth⟩ h
    ⟨trivial, hend⟩

private theorem accepts_listType (levels : Nat) :
    Accepts (listType levels) TypeRef.form (TypeRef.Conforms TypeRef.IsPlainList levels)
      fun _ => True := by
  induction levels with
  | zero =>
    intro s c c' t ⟨pt, hdepth⟩ _ _
    cases t with
    | list u loc => exact absurd hdepth (Nat.not_succ_le_zero _)
    | _ => exact pt.elim
  | succ levels ih => exact accepts_listTypeOf (accepts_plainType_of_listType ih) (by simp)

theorem accepts_plainType (levels : Nat) :
    Accepts (plainType levels) TypeRef.form (TypeRef.Conforms TypeRef.IsPlain levels)
      (· ≠ .punctuator .bang) :=
  accepts_plainType_of_listType (accepts_listType levels)

private theorem accepts_arrowStart (direction : Direction) (cardinality : Cardinality)
    (h : (arrowStartForm direction cardinality).Spans s.locate c c') :
    arrowStart s c = .ok ((direction, cardinality), c') := by
  rw [arrowStart, skip_bind]
  cases direction with
  | outgoing =>
    cases cardinality with
    | singular =>
      obtain ⟨_, ⟨ht, hm⟩, rfl⟩ := h
      rw [if_pos ht, bind_of_ok (advance_of_moves hm)]
      rfl
    | plural =>
      obtain ⟨_, ⟨ht, hm⟩, rfl⟩ := h
      rw [if_neg (by simp [ht]), if_neg Bool.false_ne_true, skip_bind, if_pos ht,
        bind_of_ok (advance_of_moves hm)]
      rfl
  | incoming =>
    cases cardinality with
    | singular =>
      obtain ⟨m, ⟨ht, hm⟩, _, ⟨ht', hm'⟩, rfl⟩ := h
      rw [if_neg (by simp [ht]), if_neg Bool.false_ne_true, skip_bind, if_neg (by simp [ht]),
        if_neg Bool.false_ne_true, skip_bind, if_pos ht, bind_of_ok (advance_of_moves hm),
        if_pos rfl, skip_bind, if_pos ht', bind_of_ok (advance_of_moves hm')]
      rfl
    | plural =>
      obtain ⟨m, ⟨ht, hm⟩, _, ⟨ht', hm'⟩, rfl⟩ := h
      rw [if_neg (by simp [ht]), if_neg Bool.false_ne_true, skip_bind, if_neg (by simp [ht]),
        if_neg Bool.false_ne_true, skip_bind, if_pos ht, bind_of_ok (advance_of_moves hm),
        if_pos rfl, skip_bind, if_neg (by simp [ht']), if_neg Bool.false_ne_true, skip_bind,
        if_pos ht', bind_of_ok (advance_of_moves hm')]
      rfl

private theorem accepts_edgeLabel {label : Option NamedType} (hlabel : ∀ l ∈ label, l.Conforms)
    (h : (labelForm label).Spans s.locate c c') (hend : c'.current.token.isName = false) :
    edgeLabel s c = .ok (label, c') := by
  rw [edgeLabel, token_bind]
  cases label with
  | none =>
    obtain rfl := h
    rw [if_neg (by simp [hend])]
    rfl
  | some l =>
    have ht := token_of_named h
    rw [if_pos (by rw [ht]; rfl), bind_of_ok (accepts_namedType (hlabel l rfl) h trivial)]
    rfl

private theorem accepts_arrowEnd {direction : Direction} {cardinality : Cardinality}
    (h : (arrowEndForm direction cardinality).Spans s.locate c c') :
    arrowEnd direction cardinality s c = .ok ((), c') ∧ c.current.token.isName = false := by
  match direction, cardinality, h with
  | .outgoing, .singular, ⟨m, ⟨ht, hm⟩, _, ⟨ht', hm'⟩, rfl⟩ =>
    refine ⟨?_, by rw [ht]; rfl⟩
    rw [arrowEnd, bind_of_ok (withHint_eq_ok.2 (expect_of_moves ht hm)), if_pos rfl]
    exact withHint_eq_ok.2 (expect_of_moves ht' hm')
  | .outgoing, .plural, ⟨m, ⟨ht, hm⟩, _, ⟨ht', hm'⟩, rfl⟩ =>
    refine ⟨?_, by rw [ht]; rfl⟩
    rw [arrowEnd, bind_of_ok (withHint_eq_ok.2 (expect_of_moves ht hm)), if_pos rfl]
    exact withHint_eq_ok.2 (expect_of_moves ht' hm')
  | .incoming, .singular, ⟨_, ⟨ht, hm⟩, rfl⟩ =>
    refine ⟨?_, by rw [ht]; rfl⟩
    rw [arrowEnd, bind_of_ok (withHint_eq_ok.2 (expect_of_moves ht hm)), if_neg (by decide)]
    rfl
  | .incoming, .plural, ⟨_, ⟨ht, hm⟩, rfl⟩ =>
    refine ⟨?_, by rw [ht]; rfl⟩
    rw [arrowEnd, bind_of_ok (withHint_eq_ok.2 (expect_of_moves ht hm)), if_neg (by decide)]
    rfl

private theorem accepts_connectionType :
    Accepts connectionType ConnectionType.form ConnectionType.Conforms fun _ => True := by
  intro s c c' t ⟨pu, plabel⟩ h _
  obtain ⟨u, label, direction, cardinality, loc⟩ := t
  obtain ⟨⟨m₁, fstart, m₂, flabel, m₃, fend, _, fu, rfl⟩, rfl⟩ := h
  obtain ⟨hend, hname⟩ := accepts_arrowEnd fend
  rw [connectionType, start_bind, bind_of_ok (accepts_arrowStart direction cardinality fstart)]
  change (edgeLabel >>= _) s m₁ = _
  rw [bind_of_ok (accepts_edgeLabel plabel flabel hname), bind_of_ok hend,
    bind_of_ok (accepts_namedType pu fu trivial), located_bind]
  rfl

private theorem accepts_edgeStart (direction : Direction)
    (h : (arrowStartForm direction .plural).Spans s.locate c c') :
    edgeStart s c = .ok (direction, c') := by
  rw [edgeStart, skip_bind]
  cases direction with
  | outgoing =>
    obtain ⟨_, ⟨ht, hm⟩, rfl⟩ := h
    rw [if_pos ht, bind_of_ok (advance_of_moves hm)]
    rfl
  | incoming =>
    obtain ⟨m, ⟨ht, hm⟩, _, ⟨ht', hm'⟩, rfl⟩ := h
    rw [if_neg (by simp [ht]), if_neg Bool.false_ne_true, skip_bind, if_pos ht,
      bind_of_ok (advance_of_moves hm), if_pos rfl,
      bind_of_ok (withHint_eq_ok.2 (expect_of_moves ht' hm'))]
    rfl

private theorem accepts_edgeType :
    Accepts edgeType EdgeType.form EdgeType.Conforms fun _ => True := by
  intro s c c' t ⟨pu, plabel⟩ h _
  obtain ⟨u, label, direction, loc⟩ := t
  obtain ⟨⟨m₁, fstart, m₂, flabel, m₃, fend, _, fu, rfl⟩, rfl⟩ := h
  obtain ⟨hend, hname⟩ := accepts_arrowEnd fend
  rw [edgeType, start_bind, bind_of_ok (accepts_edgeStart direction fstart),
    bind_of_ok (accepts_edgeLabel plabel flabel hname), bind_of_ok hend,
    bind_of_ok (accepts_namedType pu fu trivial), located_bind]
  rfl

/-- A connection starts with an arrow. -/
theorem starts_connectionType (t : ConnectionType) : t.form.Starts fun x => x.startsArrow := by
  obtain ⟨u, label, direction, cardinality, loc⟩ := t
  cases direction <;> cases cardinality <;> rfl

/-- An edge starts with an equals sign or a less-than sign. -/
theorem starts_edgeType (t : EdgeType) :
    t.form.Starts fun x => x = .punctuator .equals ∨ x = .punctuator .less := by
  obtain ⟨u, label, direction, loc⟩ := t
  cases direction
  · exact .inr rfl
  · exact .inl rfl

/-- What may stand behind the type of a field. -/
def EndsFieldType (t : Token) : Prop := t.startsArrow = false ∧ t ≠ .punctuator .bang

theorem accepts_fieldType (levels : Nat) : Accepts (fieldType levels) TypeRef.form
    (TypeRef.Conforms (TypeRef.IsOrNonNull TypeRef.IsFieldBase) levels) EndsFieldType := by
  refine accepts_orNonNull ?_ rfl
  intro s c c' t ⟨pt, hdepth⟩ h hend
  rw [start_bind, peek_bind]
  have hmany {ts : List ConnectionType} (pts : ∀ t ∈ ts, t.Conforms)
      (fts : (Form.all (ts.map ConnectionType.form)).Spans s.locate c c') :
      many Token.startsArrow connectionType s c = .ok (ts, c') :=
    accepts_many accepts_connectionType (fun t _ => (starts_connectionType t).imp fun _ ht =>
      ⟨trivial, ht⟩) pts fts
      ⟨trivial, hend⟩
  have harrow {x : Token} (hx : x.startsArrow) : x ≠ .punctuator .bracketOpen := by
    rintro rfl
    exact absurd hx (by decide)
  cases t with
  | list u loc =>
    have ht : c.current.token = .punctuator .bracketOpen := h.1.choose_spec.1.1
    rw [if_pos (by simpa using ht)]
    exact accepts_listType levels ⟨pt, hdepth⟩ h trivial
  | connection u =>
    have hstarts := ((starts_connectionType u).of_spans h).1
    have pts : ∀ t ∈ [u], t.Conforms := fun t ht => by rw [List.mem_singleton.1 ht]; exact pt
    rw [if_neg (by simpa using harrow hstarts), token_bind, if_pos hstarts,
      bind_of_ok (hmany pts ⟨c', h, rfl⟩)]
    rfl
  | connectionJoin u =>
    obtain ⟨ts, loc⟩ := u
    obtain ⟨fts, rfl⟩ := h
    obtain ⟨htwo, pts⟩ := pt
    rcases ts with _ | ⟨t, _ | ⟨u, us⟩⟩
    · exact absurd htwo (by simp)
    · exact absurd htwo (by simp)
    · have hstarts := ((starts_connectionType t).of_spans fts.choose_spec.1).1
      rw [if_neg (by simpa using harrow hstarts), token_bind, if_pos hstarts,
        bind_of_ok (hmany pts fts)]
      rfl
  | named u =>
    have ht := token_of_named h
    rw [if_neg (by simp [ht]), token_bind, if_neg (by simp [ht, Token.startsArrow])]
    exact accepts_named pt h
  | _ => exact pt.elim

theorem accepts_mutationFieldType (levels : Nat) :
    Accepts (mutationFieldType levels) TypeRef.form
      (TypeRef.Conforms (TypeRef.IsOrNonNull TypeRef.IsMutationFieldBase) levels)
      (· ≠ .punctuator .bang) := by
  intro s c c' t pt h hend
  refine accepts_orNonNull (?_ : Accepts _ _ _ fun _ => True) trivial pt h ⟨trivial, hend⟩
  intro s c c' t ⟨pt, hdepth⟩ h _
  rw [peek_bind]
  cases t with
  | list u loc =>
    have ht : c.current.token = .punctuator .bracketOpen := h.1.choose_spec.1.1
    rw [if_pos (by simpa using ht)]
    exact accepts_listType levels ⟨pt, hdepth⟩ h trivial
  | edge u =>
    have ht := ((starts_edgeType u).of_spans h).1
    have hne : c.current.token ≠ .punctuator .bracketOpen := by rcases ht with ht | ht <;> simp [ht]
    rw [if_neg (by simpa using hne), peek_bind, peek_bind, if_pos (by simpa using ht),
      bind_of_ok (accepts_edgeType pt h trivial)]
    rfl
  | named u =>
    have ht := token_of_named h
    rw [if_neg (by simp [ht]), peek_bind, peek_bind, if_neg (by simp [ht])]
    exact accepts_named pt h
  | _ => exact pt.elim

theorem accepts_targetType (levels : Nat) : Accepts (targetType levels) TypeRef.form
    (TypeRef.Conforms TypeRef.IsTarget levels) fun _ => True := by
  intro s c c' t ⟨pt, hdepth⟩ h _
  rw [targetType, peek_bind]
  cases t with
  | list u loc =>
    have ht : c.current.token = .punctuator .bracketOpen := h.1.choose_spec.1.1
    rw [if_pos (by simpa using ht)]
    exact accepts_listType levels ⟨pt, hdepth⟩ h trivial
  | connection u =>
    have hstarts := ((starts_connectionType u).of_spans h).1
    have hne : c.current.token ≠ .punctuator .bracketOpen := by
      intro ht
      rw [ht] at hstarts
      exact absurd hstarts (by decide)
    rw [if_neg (by simpa using hne), token_bind, if_pos hstarts,
      bind_of_ok (accepts_connectionType pt h trivial)]
    rfl
  | named u =>
    have ht := token_of_named h
    rw [if_neg (by simp [ht]), token_bind, if_neg (by simp [ht, Token.startsArrow]), token_bind,
      if_pos (by rw [ht]; rfl)]
    exact accepts_named pt h
  | _ => exact pt.elim

end SchemaLang.Parser
