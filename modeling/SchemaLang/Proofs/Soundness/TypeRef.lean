import SchemaLang.Parser.TypeRef
import SchemaLang.Proofs.Soundness.Basic

/-!
# What the parsers of type references answer

Which types may stand where is decided by which parser is called there: only `fieldType` answers
joins, only `mutationFieldType` edges, and a mark that a type is required is only read once, around
what is read first.
-/

namespace SchemaLang.Parser

variable {levels : Nat}

theorem yields_namedType : Yields namedType NamedType.form NamedType.Conforms := by
  intro s c c' t hc h
  simp only [namedType, start_bind, bind_eq_ok, located_bind, pure_eq_ok] at h
  obtain ⟨n, m, hn, rfl, rfl⟩ := h
  obtain ⟨fn, pn⟩ := yields_name hc hn
  exact ⟨⟨fn, rfl⟩, pn⟩

/-- A named type may stand wherever a type may. -/
theorem yields_named {base : TypeRef → Prop}
    (hbase : ∀ t : NamedType, t.Conforms → base (.named t)) :
    Yields (do return .named (← namedType)) TypeRef.form (TypeRef.Conforms base levels) := by
  intro s c c' t hc h
  simp only [bind_eq_ok, pure_eq_ok] at h
  obtain ⟨n, m, hn, rfl, rfl⟩ := h
  obtain ⟨fn, pn⟩ := yields_namedType hc hn
  exact ⟨fn, hbase n pn, Nat.zero_le _⟩

private theorem yields_orNonNull {p : Parser TypeRef} {base : TypeRef → Prop}
    (hp : Yields p TypeRef.form (TypeRef.Conforms base levels)) :
    Yields (orNonNull p) TypeRef.form (TypeRef.Conforms (TypeRef.IsOrNonNull base) levels) := by
  intro s c c' t hc h
  rw [orNonNull, start_bind] at h
  obtain ⟨u, m, hu, h⟩ := bind_eq_ok.1 h
  obtain ⟨fu, ⟨pu, hdepth⟩, hm⟩ := hp.step hc hu
  obtain ⟨m', fbang, -, h⟩ | h := skip_bind_cases hm h
  · simp only [if_true, located_bind, pure_eq_ok] at h
    obtain ⟨rfl, rfl⟩ := h
    exact ⟨⟨⟨m, fu, m', fbang, rfl⟩, rfl⟩, .inr ⟨u, _, rfl, pu⟩, hdepth⟩
  · obtain ⟨rfl, rfl⟩ := pure_eq_ok.1 h
    exact ⟨fu, .inl pu, hdepth⟩

private theorem yields_listTypeOf {element : Parser TypeRef}
    (he : Yields element TypeRef.form (TypeRef.Conforms TypeRef.IsPlain levels)) :
    Yields (listTypeOf element) TypeRef.form
      (TypeRef.Conforms TypeRef.IsPlainList (levels + 1)) := by
  intro s c c' t hc h
  simp only [listTypeOf, start_bind, bind_eq_ok, located_bind, pure_eq_ok] at h
  obtain ⟨_, m₁, hopen, u, m₂, hu, _, m₃, hclose, rfl, rfl⟩ := h
  obtain ⟨fopen, -, hm₁⟩ := (yields_expect .bracketOpen).step hc hopen
  obtain ⟨fu, ⟨pu, hdepth⟩, hm₂⟩ := he.step hm₁ hu
  obtain ⟨fclose, -⟩ := yields_expect .bracketClose hm₂ hclose
  exact ⟨⟨⟨m₁, fopen, m₂, fu, m₃, fclose, rfl⟩, rfl⟩, pu, Nat.succ_le_succ hdepth⟩

/-- No list type is read when no level is left for one. -/
theorem listTypeOf_tooDeep_ne_ok {s : Setting} {c c' : Cursor} {t : TypeRef} :
    listTypeOf tooDeep s c ≠ .ok (t, c') := by
  simp [listTypeOf, bind_eq_ok]

/-- A plain type is a list type or a name, with or without the mark that it is required. -/
theorem plainType_eq (levels : Nat) : plainType levels = orNonNull do
    if ← peek .bracketOpen then listType levels else return .named (← namedType) := by
  cases levels <;> rfl

private theorem yields_plainType_of_listType
    (hl : Yields (listType levels) TypeRef.form (TypeRef.Conforms TypeRef.IsPlainList levels)) :
    Yields (plainType levels) TypeRef.form (TypeRef.Conforms TypeRef.IsPlain levels) := by
  have hbase :
      Yields (do if ← peek .bracketOpen then listType levels else return .named (← namedType))
        TypeRef.form (TypeRef.Conforms TypeRef.IsPlainBase levels) := by
    intro s c c' t hc h
    simp only [peek_bind, decide_eq_true_eq] at h
    split at h
    · obtain ⟨ft, pt, hdepth⟩ := hl hc h
      exact ⟨ft, (TypeRef.of_isPlainList pt).1, hdepth⟩
    · exact yields_named (fun _ ht => ht) hc h
  intro s c c' t hc h
  rw [plainType_eq] at h
  obtain ⟨ft, pt, hdepth⟩ := yields_orNonNull hbase hc h
  exact ⟨ft, TypeRef.isPlain_iff_isOrNonNull.2 pt, hdepth⟩

private theorem yields_listType (levels : Nat) :
    Yields (listType levels) TypeRef.form (TypeRef.Conforms TypeRef.IsPlainList levels) := by
  induction levels with
  | zero =>
    intro s c c' t _ h
    exact absurd h listTypeOf_tooDeep_ne_ok
  | succ levels ih => exact yields_listTypeOf (yields_plainType_of_listType ih)

theorem yields_plainType (levels : Nat) :
    Yields (plainType levels) TypeRef.form (TypeRef.Conforms TypeRef.IsPlain levels) :=
  yields_plainType_of_listType (yields_listType levels)

theorem yields_arrowStart :
    Yields arrowStart (fun shape => arrowStartForm shape.1 shape.2) (fun _ => True) := by
  intro s c c' shape hc h
  refine ⟨?_, trivial⟩
  rw [arrowStart] at h
  obtain ⟨m, fdash, -, h⟩ | h := skip_bind_cases hc h
  · obtain ⟨rfl, rfl⟩ := pure_eq_ok.1 h
    exact ⟨m, fdash, rfl⟩
  obtain ⟨m, fequals, -, h⟩ | h := skip_bind_cases hc h
  · obtain ⟨rfl, rfl⟩ := pure_eq_ok.1 h
    exact ⟨m, fequals, rfl⟩
  obtain ⟨m, fless, hm, h⟩ | h := skip_bind_cases hc h
  · -- An arrow that comes in is told from its line, which follows the head.
    obtain ⟨m', fdash, -, h⟩ | h := skip_bind_cases hm h
    · obtain ⟨rfl, rfl⟩ := pure_eq_ok.1 h
      exact ⟨m, fless, m', fdash, rfl⟩
    obtain ⟨m', fequals, -, h⟩ | h := skip_bind_cases hm h
    · obtain ⟨rfl, rfl⟩ := pure_eq_ok.1 h
      exact ⟨m, fless, m', fequals, rfl⟩
    rw [if_neg Bool.false_ne_true, withHint_eq_ok] at h
    exact absurd h (unexpected_ne_ok _)
  exact absurd h (unexpected_ne_ok _)

theorem yields_edgeLabel : Yields edgeLabel labelForm (∀ l ∈ ·, NamedType.Conforms l) := by
  intro s c c' label hc h
  simp only [edgeLabel, token_bind] at h
  split at h
  · simp only [bind_eq_ok, pure_eq_ok] at h
    obtain ⟨l, m, hl, rfl, rfl⟩ := h
    obtain ⟨fl, pl⟩ := yields_namedType hc hl
    exact ⟨fl, by simpa using pl⟩
  · obtain ⟨rfl, rfl⟩ := pure_eq_ok.1 h
    exact ⟨rfl, by simp⟩

theorem yields_arrowEnd (direction : Direction) (cardinality : Cardinality) :
    Yields (arrowEnd direction cardinality) (fun _ => arrowEndForm direction cardinality)
      (fun _ => True) := by
  intro s c c' _ hc h
  refine ⟨?_, trivial⟩
  obtain ⟨_, m, hline, h⟩ := bind_eq_ok.1 h
  obtain ⟨fline, -, hm⟩ := (yields_expect _).step hc (withHint_eq_ok.1 hline)
  cases direction with
  | outgoing =>
    rw [if_pos rfl] at h
    obtain ⟨fhead, -⟩ := yields_expect .greater hm (withHint_eq_ok.1 h)
    cases cardinality with
    | singular => exact ⟨m, fline, c', fhead, rfl⟩
    | plural => exact ⟨m, fline, c', fhead, rfl⟩
  | incoming =>
    rw [if_neg (by decide)] at h
    obtain ⟨-, rfl⟩ := pure_eq_ok.1 h
    cases cardinality with
    | singular => exact ⟨m, fline, rfl⟩
    | plural => exact ⟨m, fline, rfl⟩

theorem yields_connectionType :
    Yields connectionType ConnectionType.form ConnectionType.Conforms := by
  intro s c c' t hc h
  simp only [connectionType, start_bind, bind_eq_ok, located_bind, pure_eq_ok] at h
  obtain ⟨⟨direction, cardinality⟩, m₁, hstart, label, m₂, hlabel, _, m₃, hend, u, m₄,
    hu, rfl, rfl⟩ := h
  obtain ⟨fstart, -, hm₁⟩ := yields_arrowStart.step hc hstart
  obtain ⟨flabel, plabel, hm₂⟩ := yields_edgeLabel.step hm₁ hlabel
  obtain ⟨fend, -, hm₃⟩ := (yields_arrowEnd direction cardinality).step hm₂ hend
  obtain ⟨fu, pu⟩ := yields_namedType hm₃ hu
  exact ⟨⟨⟨m₁, fstart, m₂, flabel, m₃, fend, m₄, fu, rfl⟩, rfl⟩, pu, plabel⟩

theorem yields_edgeStart :
    Yields edgeStart (fun direction => arrowStartForm direction .plural) (fun _ => True) := by
  intro s c c' direction hc h
  refine ⟨?_, trivial⟩
  rw [edgeStart] at h
  obtain ⟨m, fequals, -, h⟩ | h := skip_bind_cases hc h
  · obtain ⟨rfl, rfl⟩ := pure_eq_ok.1 h
    exact ⟨m, fequals, rfl⟩
  obtain ⟨m, fless, hm, h⟩ | h := skip_bind_cases hc h
  · simp only [if_true, bind_eq_ok, withHint_eq_ok, pure_eq_ok] at h
    obtain ⟨_, m', hequals, rfl, rfl⟩ := h
    obtain ⟨fequals, -⟩ := yields_expect .equals hm hequals
    exact ⟨m, fless, m', fequals, rfl⟩
  exact absurd h (unexpected_ne_ok _)

private theorem yields_edgeType : Yields edgeType EdgeType.form EdgeType.Conforms := by
  intro s c c' t hc h
  simp only [edgeType, start_bind, bind_eq_ok, located_bind, pure_eq_ok] at h
  obtain ⟨direction, m₁, hstart, label, m₂, hlabel, _, m₃, hend, u, m₄, hu, rfl, rfl⟩ := h
  obtain ⟨fstart, -, hm₁⟩ := yields_edgeStart.step hc hstart
  obtain ⟨flabel, plabel, hm₂⟩ := yields_edgeLabel.step hm₁ hlabel
  obtain ⟨fend, -, hm₃⟩ := (yields_arrowEnd direction .plural).step hm₂ hend
  obtain ⟨fu, pu⟩ := yields_namedType hm₃ hu
  exact ⟨⟨⟨m₁, fstart, m₂, flabel, m₃, fend, m₄, fu, rfl⟩, rfl⟩, pu, plabel⟩

theorem yields_fieldType (levels : Nat) : Yields (fieldType levels) TypeRef.form
    (TypeRef.Conforms (TypeRef.IsOrNonNull TypeRef.IsFieldBase) levels) := by
  refine yields_orNonNull ?_
  intro s c c' t hc h
  simp only [start_bind, peek_bind, decide_eq_true_eq] at h
  split at h
  · obtain ⟨ft, pt, hdepth⟩ := yields_listType levels hc h
    exact ⟨ft, (TypeRef.of_isPlainList pt).2.1, hdepth⟩
  · rw [token_bind] at h
    split at h
    · rename_i harrow
      obtain ⟨ts, m, hts, h⟩ := bind_eq_ok.1 h
      obtain ⟨fts, pts⟩ := yields_many _ yields_connectionType hc hts
      match ts, h, fts, pts with
      | [], _, _, _ => exact absurd rfl (ne_nil_of_many harrow hts)
      | [u], h, fts, pts =>
        obtain ⟨rfl, rfl⟩ := pure_eq_ok.1 h
        obtain ⟨m', fu, rfl⟩ := fts
        exact ⟨fu, pts u (List.mem_singleton_self u), Nat.zero_le _⟩
      | u :: v :: us, h, fts, pts =>
        simp only [located_bind, pure_eq_ok] at h
        obtain ⟨rfl, rfl⟩ := h
        exact ⟨⟨fts, rfl⟩, ⟨Nat.le_add_left 2 _, pts⟩, Nat.zero_le _⟩
    · exact yields_named (fun _ ht => ht) hc h

theorem yields_mutationFieldType (levels : Nat) : Yields (mutationFieldType levels) TypeRef.form
    (TypeRef.Conforms (TypeRef.IsOrNonNull TypeRef.IsMutationFieldBase) levels) := by
  refine yields_orNonNull ?_
  intro s c c' t hc h
  simp only [peek_bind, decide_eq_true_eq] at h
  split at h
  · obtain ⟨ft, pt, hdepth⟩ := yields_listType levels hc h
    exact ⟨ft, (TypeRef.of_isPlainList pt).2.2.1, hdepth⟩
  · simp only [peek_bind] at h
    split at h
    · simp only [bind_eq_ok, pure_eq_ok] at h
      obtain ⟨e, m, he, rfl, rfl⟩ := h
      obtain ⟨fe, pe⟩ := yields_edgeType hc he
      exact ⟨fe, pe, Nat.zero_le _⟩
    · exact yields_named (fun _ ht => ht) hc h

theorem yields_targetType (levels : Nat) : Yields (targetType levels) TypeRef.form
    (TypeRef.Conforms TypeRef.IsTarget levels) := by
  intro s c c' t hc h
  simp only [targetType, peek_bind, decide_eq_true_eq] at h
  split at h
  · obtain ⟨ft, pt, hdepth⟩ := yields_listType levels hc h
    exact ⟨ft, (TypeRef.of_isPlainList pt).2.2.2, hdepth⟩
  · rw [token_bind] at h
    split at h
    · simp only [bind_eq_ok, pure_eq_ok] at h
      obtain ⟨u, m, hu, rfl, rfl⟩ := h
      obtain ⟨fu, pu⟩ := yields_connectionType hc hu
      exact ⟨fu, pu, Nat.zero_le _⟩
    · rw [token_bind] at h
      split at h
      · exact yields_named (fun _ ht => ht) hc h
      · simp at h

end SchemaLang.Parser
