import SchemaLang.Proofs.Arrows.Hop
import SchemaLang.Proofs.Locations.Form
import SchemaLang.Proofs.Preservation.Kept
import SchemaLang.Proofs.Traversal.Within

/-!
# Types with arrows in their places

Each of the places where a type may have arrows admits them in its own way. A type with arrows in
one of these places is made up of hops, and has their tokens; a type without arrows there is plain,
and has none of the characters of an arrow.
-/

namespace SchemaLang

namespace TypeRef

/-- An arrow, arrows one after the other, or an edge. -/
def IsArrows : TypeRef → Prop
  | .connection _ => True
  | .connectionJoin _ => True
  | .edge _ => True
  | _ => False

/-- Arrows, or the type that says that they are required. -/
def HasArrows (t : TypeRef) : Prop := t.IsOrNonNull IsArrows

private theorem tokens_list (t : TypeRef) (loc : Option Loc) :
    (list t loc).form.tokens = .punctuator .bracketOpen ::
    (t.form.tokens ++ [.punctuator .bracketClose]) := by
  simp [form]

private theorem tokens_nonNull (t : TypeRef) (loc : Option Loc) :
    (nonNull t loc).form.tokens = t.form.tokens ++ [.punctuator .bang] := by
  simp [form]

private theorem tokens_mark (required : Bool) (t : TypeRef) :
    (mark required t).form.tokens = t.form.tokens ++ if required then [.punctuator .bang]
    else [] := by
  cases required with
  | false => exact (List.append_nil _).symm
  | true => exact tokens_nonNull t none

private theorem isOrNonNull_mark {base : TypeRef → Prop} {t : TypeRef} (h : base t)
    (required : Bool) : (mark required t).IsOrNonNull base := by
  cases required with
  | false => exact .inl h
  | true => exact .inr ⟨t, none, rfl, h⟩

/-- What is marked as required in a plain type is plain. -/
theorem IsPlain.of_nonNull {t : TypeRef} {loc : Option Loc} (h : (nonNull t loc).IsPlain) :
    t.IsPlain := by
  cases t with
  | named | list => exact h
  | _ => exact h.elim

/-- A plain type has no character of an arrow. -/
theorem IsPlain.not_mem_tokens {t : TypeRef} (h : t.IsPlain) {p : Punctuator}
    (hp : p ∈ Hop.characters) : Token.punctuator p ∉ t.form.tokens := by
  have plain : p ≠ .bracketOpen ∧ p ≠ .bracketClose ∧ p ≠ .bang := by
    refine ⟨?_, ?_, ?_⟩ <;> rintro rfl <;> exact absurd hp (by decide)
  induction t with
  | named t => simp [form, NamedType.form]
  | list t loc ih => simp [tokens_list, ih h, plain]
  | nonNull t loc ih => simp [tokens_nonNull, ih h.of_nonNull, plain]
  | connection t => exact h.elim
  | connectionJoin t => exact h.elim
  | edge t => exact h.elim

/-- A type is written without descriptions. -/
theorem significantTokens_form (t : TypeRef) : t.form.significantTokens = t.form.tokens := by
  have hop (h : Hop) : ∀ k ∈ h.tokens, k.isDescription = false := by
    simp only [Hop.tokens, List.forall_mem_append, List.forall_mem_map, List.forall_mem_singleton]
    exact ⟨⟨⟨fun _ _ => rfl, fun _ _ => rfl⟩, fun _ _ => rfl⟩, rfl⟩
  have plain : ∀ k ∈ t.form.tokens, k.isDescription = false := by
    induction t with
    | named t => exact List.forall_mem_singleton.2 rfl
    | list t loc ih =>
      rw [tokens_list]
      exact List.forall_mem_cons.2 ⟨rfl,
        List.forall_mem_append.2 ⟨ih, List.forall_mem_singleton.2 rfl⟩⟩
    | nonNull t loc ih =>
      rw [tokens_nonNull]
      exact List.forall_mem_append.2 ⟨ih, List.forall_mem_singleton.2 rfl⟩
    | connection t =>
      rw [form, ConnectionType.tokens_form]
      exact hop _
    | connectionJoin t =>
      rw [form, Form.tokens_located]
      induction t.connections with
      | nil => simp
      | cons c cs ih =>
        rw [List.map_cons, Form.tokens_all_cons, ConnectionType.tokens_form]
        exact List.forall_mem_append.2 ⟨hop _, ih⟩
    | edge t =>
      rw [form, EdgeType.tokens_form]
      exact hop _
  exact List.filter_eq_self.2 fun k hk => by simp [plain k hk]

end TypeRef

namespace ArrowPlace

/-- The types that may stand in the place. -/
def admits : ArrowPlace → TypeRef → Prop
  | .field => TypeRef.IsOrNonNull TypeRef.IsFieldBase
  | .mutationField => TypeRef.IsOrNonNull TypeRef.IsMutationFieldBase
  | .target => TypeRef.IsTarget

variable {place : ArrowPlace} {hops : List Hop} {required : Bool} {t : TypeRef}

/-- The type that hops make up has their tokens. -/
theorem tokens_of_type? (h : place.type? hops required = some t) :
    t.form.tokens = Hop.chain hops required := by
  unfold type? at h
  split at h
  · obtain rfl := Option.some.inj h
    simp [TypeRef.tokens_mark, TypeRef.form, Hop.chain]
  · obtain rfl := Option.some.inj h
    rw [TypeRef.tokens_mark, TypeRef.form, Form.tokens_located, Hop.tokens_all_connection]
    rfl
  · split at h
    · rename_i hplural
      obtain rfl := Option.some.inj h
      simp [TypeRef.tokens_mark, TypeRef.form, Hop.chain, Hop.tokens_edge hplural]
    · cases h
  · obtain rfl := Option.some.inj h
    simp [TypeRef.form, Hop.chain]
  · cases h

/-- So has one that is the same up to locations. -/
theorem tokens_of_type?_mapLoc (h : place.type? hops required = some (t.mapLoc fun _ => none)) :
    t.form.tokens = Hop.chain hops required := by
  rw [← tokens_of_type? h, TypeRef.form_mapLoc, Form.tokens_mapLoc]

/-- Hops with names make up a type that may stand in the place. -/
theorem admits_of_type? (h : place.type? hops required = some t) (hhops : ∀ h ∈ hops, h.Conforms) :
    place.admits t := by
  unfold type? at h
  split at h
  · obtain rfl := Option.some.inj h
    exact TypeRef.isOrNonNull_mark (hhops _ List.mem_cons_self).connection required
  · obtain rfl := Option.some.inj h
    refine TypeRef.isOrNonNull_mark ⟨by simp, fun c hc => ?_⟩ required
    obtain ⟨h, hh, rfl⟩ := List.mem_map.1 hc
    exact (hhops h hh).connection
  · split at h
    · obtain rfl := Option.some.inj h
      exact TypeRef.isOrNonNull_mark (hhops _ List.mem_cons_self).edge required
    · cases h
  · obtain rfl := Option.some.inj h
    exact (hhops _ List.mem_cons_self).connection
  · cases h

/-- Hops are no lists. -/
theorem nesting_of_type? (h : place.type? hops required = some t) : t.nesting = 0 := by
  have marked (u : TypeRef) (hu : u.nesting = 0) : (TypeRef.mark required u).nesting = 0 := by
    cases required with
    | false => exact hu
    | true => exact hu
  unfold type? at h
  split at h
  · obtain rfl := Option.some.inj h
    exact marked _ rfl
  · obtain rfl := Option.some.inj h
    exact marked _ rfl
  · split at h
    · obtain rfl := Option.some.inj h
      exact marked _ rfl
    · cases h
  · obtain rfl := Option.some.inj h
    rfl
  · cases h

private theorem exists_hops_field {t : TypeRef} (h : t.IsFieldBase) (arrows : t.IsArrows) :
    ∃ hops, (∀ h ∈ hops, Hop.Conforms h) ∧
      ∀ required, field.type? hops required = some (.mark required (t.mapLoc fun _ => none)) := by
  cases t with
  | connection t =>
    refine ⟨[t.hop], List.forall_mem_singleton.2 (ConnectionType.Conforms.hop h),
      fun required => ?_⟩
    rw [type?, ConnectionType.connection_hop]
    rfl
  | connectionJoin t =>
    obtain ⟨ts, loc⟩ := t
    obtain ⟨two, conform⟩ := h
    rcases ts with _ | ⟨a, _ | ⟨b, ts⟩⟩
    · exact absurd two (by simp)
    · exact absurd two (by simp)
    · refine ⟨(a :: b :: ts).map ConnectionType.hop, fun h hh => ?_, fun required => ?_⟩
      · obtain ⟨c, hc, rfl⟩ := List.mem_map.1 hh
        exact (conform c hc).hop
      · have same : ((a :: b :: ts).map ConnectionType.hop).map Hop.connection =
            (a :: b :: ts).map (·.mapLoc fun _ => none) := by
          rw [List.map_map]
          exact List.map_congr_left fun c _ => c.connection_hop
        change some (TypeRef.mark required
          (.connectionJoin ⟨((a :: b :: ts).map _).map Hop.connection, none⟩)) = _
        rw [same, TypeRef.mapLoc, ConnectionJoinType.mapLoc, Option.bind_fun_none]
  | edge => exact h.elim
  | _ => exact arrows.elim

private theorem exists_hops_mutationField {t : TypeRef} (h : t.IsMutationFieldBase)
    (arrows : t.IsArrows) : ∃ hops, (∀ h ∈ hops, Hop.Conforms h) ∧
      ∀ required, mutationField.type? hops required =
        some (.mark required (t.mapLoc fun _ => none)) := by
  cases t with
  | edge t =>
    refine ⟨[t.hop], List.forall_mem_singleton.2 (EdgeType.Conforms.hop h), fun required => ?_⟩
    rw [type?, if_pos (show t.hop.cardinality = .plural from rfl), EdgeType.edge_hop]
    rfl
  | connection | connectionJoin => exact h.elim
  | _ => exact arrows.elim

/-- Arrows that may be marked as required are made up of hops if they are so without the mark. -/
theorem exists_hops_marked {base : TypeRef → Prop} (unmarked : ∀ u loc, ¬ base (.nonNull u loc))
    (hbase : ∀ u, base u → u.IsArrows → ∃ hops, (∀ h ∈ hops, Hop.Conforms h) ∧
      ∀ required, place.type? hops required = some (.mark required (u.mapLoc fun _ => none)))
    (h : t.IsOrNonNull base) (arrows : t.HasArrows) :
    ∃ hops required, (∀ h ∈ hops, Hop.Conforms h) ∧
      place.type? hops required = some (t.mapLoc fun _ => none) := by
  rcases arrows with arrows | ⟨u, loc, rfl, arrows⟩
  · rcases h with h | ⟨u, loc, rfl, -⟩
    · obtain ⟨hops, conform, made⟩ := hbase t h arrows
      exact ⟨hops, false, conform, made false⟩
    · exact arrows.elim
  · rcases h with h | ⟨_, _, same, h⟩
    · exact absurd h (unmarked u loc)
    · obtain ⟨rfl, -⟩ := TypeRef.nonNull.inj same
      obtain ⟨hops, conform, made⟩ := hbase u h arrows
      refine ⟨hops, true, conform, (made true).trans ?_⟩
      rw [TypeRef.mapLoc, Option.bind_fun_none]
      rfl

/-- Arrows in a place are made up of hops. -/
theorem exists_hops (h : place.admits t) (arrows : t.HasArrows) :
    ∃ hops required, (∀ h ∈ hops, Hop.Conforms h) ∧
    place.type? hops required = some (t.mapLoc fun _ => none) := by
  cases place with
  | field => exact exists_hops_marked (fun _ _ => id) (fun _ => exists_hops_field) h arrows
  | mutationField =>
    exact exists_hops_marked (fun _ _ => id) (fun _ => exists_hops_mutationField) h arrows
  | target =>
    cases t with
    | connection t =>
      refine ⟨[t.hop], false, List.forall_mem_singleton.2 (ConnectionType.Conforms.hop h), ?_⟩
      rw [type?, ConnectionType.connection_hop]
      rfl
    | named | list =>
      rcases arrows with arrows | ⟨_, _, same, -⟩
      · exact arrows.elim
      · exact nomatch same
    | _ => exact h.elim

/-- What has no arrows is plain. -/
theorem isPlain_of_not_hasArrows (h : place.admits t) (plain : ¬ t.HasArrows) : t.IsPlain := by
  have field {u : TypeRef} (hu : u.IsFieldBase) (harrows : ¬ u.IsArrows) : u.IsPlainBase := by
    cases u with
    | named | list => exact hu
    | connection | connectionJoin => exact absurd trivial harrows
    | _ => exact hu.elim
  have mutationField {u : TypeRef} (hu : u.IsMutationFieldBase) (harrows : ¬ u.IsArrows) :
      u.IsPlainBase := by
    cases u with
    | named | list => exact hu
    | edge => exact absurd trivial harrows
    | _ => exact hu.elim
  have target {u : TypeRef} (hu : u.IsTarget) (harrows : ¬ u.IsArrows) : u.IsPlainBase := by
    cases u with
    | named | list => exact hu
    | connection => exact absurd trivial harrows
    | _ => exact hu.elim
  have marked {base : TypeRef → Prop} (hbase : ∀ {u}, base u → ¬ u.IsArrows → u.IsPlainBase)
      (ht : t.IsOrNonNull base) : t.IsPlain := by
    refine TypeRef.isPlain_iff_isOrNonNull.2 ?_
    rcases ht with ht | ⟨u, loc, same, hu⟩
    · exact .inl (hbase ht fun harrows => plain (.inl harrows))
    · exact .inr ⟨u, loc, same, hbase hu fun harrows => plain (.inr ⟨u, loc, same, harrows⟩)⟩
  cases place with
  | field => exact marked field h
  | mutationField => exact marked mutationField h
  | target =>
    exact TypeRef.isPlain_iff_isOrNonNull.2 (.inl (target h fun harrows => plain (.inl harrows)))

end ArrowPlace

end SchemaLang
