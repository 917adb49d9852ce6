import SchemaLang.Parser.Definition
import SchemaLang.Proofs.Soundness.TypeRef
import SchemaLang.Proofs.Soundness.Value

/-!
# What the parsers of definitions answer

The parts of every definition are spanned by their forms one after the other, so that no token
between them is lost, and each part conforms because its parser answers nothing else.
-/

namespace SchemaLang.Parser

variable {levels : Nat}

theorem yields_inputValueDefinition (levels : Nat) :
    Yields (inputValueDefinition levels) InputValueDefinition.form
      (InputValueDefinition.Conforms levels) := by
  intro s c c' d hc h
  simp only [inputValueDefinition, description_bind, start_bind] at h
  obtain ⟨n, m₁, hn, h⟩ := bind_eq_ok.1 h
  obtain ⟨_, m₂, hcolon, h⟩ := bind_eq_ok.1 h
  obtain ⟨t, m₃, ht, h⟩ := bind_eq_ok.1 h
  obtain ⟨⟨fn, pdescription⟩, pn, hm₁⟩ := yields_described hc hn
  obtain ⟨fcolon, -, hm₂⟩ := (yields_expect .colon).step hm₁ hcolon
  obtain ⟨ft, pt, hm₃⟩ := (yields_plainType levels).step hm₂ ht
  obtain ⟨m₄, fequals, hm₄, h⟩ | h := skip_bind_cases hm₃ h
  · simp only [if_true, bind_eq_ok, map_eq_ok, located_bind, pure_eq_ok] at h
    obtain ⟨_, m₅, ⟨v, hv, rfl⟩, ds, m₆, hds, rfl, rfl⟩ := h
    obtain ⟨fv, pv, hm₅⟩ := (yields_value true levels).step hm₄ hv
    obtain ⟨fds, pds⟩ := yields_directives levels hm₅ hds
    have fdefault : (defaultForm (some v)).Spans s.locate m₃ m₅ := ⟨m₄, fequals, m₅, fv, rfl⟩
    exact ⟨⟨⟨m₁, fn, m₂, fcolon, m₃, ft, m₅, fdefault, m₆, fds, rfl⟩, rfl⟩,
      pdescription, pn, pt, by simpa using pv, pds⟩
  · simp only [Bool.false_eq_true, if_false, bind_eq_ok, located_bind, pure_eq_ok] at h
    obtain ⟨_, _, ⟨rfl, rfl⟩, ds, m₄, hds, rfl, rfl⟩ := h
    obtain ⟨fds, pds⟩ := yields_directives levels hm₃ hds
    exact ⟨⟨⟨m₁, fn, m₂, fcolon, m₃, ft, m₃, rfl, m₄, fds, rfl⟩, rfl⟩,
      pdescription, pn, pt, by simp, pds⟩

theorem yields_argumentDefinitions (levels : Nat) : Yields (argumentDefinitions levels)
    InputValueDefinition.argumentForms (∀ a ∈ ·, a.Conforms levels) :=
  yields_optionalBlock .parenOpen .parenClose (yields_inputValueDefinition levels)

/-- A field is sound if what reads its colon and its type is. -/
theorem yields_fieldDefinitionOf {colon : Parser Unit} {type : Parser TypeRef}
    {admits : TypeRef → Prop} (hcolon : Yields colon (fun _ => .punctuator .colon) (fun _ => True))
    (htype : Yields type TypeRef.form (TypeRef.Conforms admits levels)) :
    Yields (fieldDefinitionOf levels colon type) FieldDefinition.form
      (FieldDefinition.Conforms admits levels) := by
  intro s c c' d hc h
  simp only [fieldDefinitionOf, description_bind, start_bind, bind_eq_ok, located_bind,
    pure_eq_ok] at h
  obtain ⟨n, m₁, hn, as, m₂, has, _, m₃, hc₃, t, m₄, ht, ds, m₅, hds, rfl, rfl⟩ := h
  obtain ⟨⟨fn, pdescription⟩, pn, hm₁⟩ := yields_described hc hn
  obtain ⟨fas, pas, hm₂⟩ := (yields_argumentDefinitions levels).step hm₁ has
  obtain ⟨fcolon, -, hm₃⟩ := hcolon.step hm₂ hc₃
  obtain ⟨ft, pt, hm₄⟩ := htype.step hm₃ ht
  obtain ⟨fds, pds⟩ := yields_directives levels hm₄ hds
  exact ⟨⟨⟨m₁, fn, m₂, fas, m₃, fcolon, m₄, ft, m₅, fds, rfl⟩, rfl⟩, pdescription, pn, pas, pt, pds⟩

theorem yields_fieldDefinition (levels : Nat) : Yields (fieldDefinition levels) FieldDefinition.form
    (FieldDefinition.Conforms (TypeRef.IsOrNonNull TypeRef.IsFieldBase) levels) :=
  yields_fieldDefinitionOf (fun _ _ _ _ hc h => yields_expect .colon hc (withHint_eq_ok.1 h))
    (yields_fieldType levels)

theorem yields_mutationFieldDefinition (levels : Nat) :
    Yields (mutationFieldDefinition levels) FieldDefinition.form
      (FieldDefinition.Conforms (TypeRef.IsOrNonNull TypeRef.IsMutationFieldBase) levels) :=
  yields_fieldDefinitionOf (yields_expect .colon) (yields_mutationFieldType levels)

theorem yields_queryFieldDefinition (levels : Nat) :
    Yields (queryFieldDefinition levels) FieldDefinition.form
      (FieldDefinition.Conforms TypeRef.IsPlain levels) :=
  yields_fieldDefinitionOf (yields_expect .colon) (yields_plainType levels)

theorem yields_enumValueDefinition (levels : Nat) :
    Yields (enumValueDefinition levels) EnumValueDefinition.form
      (EnumValueDefinition.Conforms levels) := by
  intro s c c' d hc h
  simp only [enumValueDefinition, description_bind, start_bind, bind_eq_ok, located_bind,
    pure_eq_ok] at h
  obtain ⟨n, m₁, hn, ds, m₂, hds, rfl, rfl⟩ := h
  obtain ⟨⟨fn, pdescription⟩, pn, hm₁⟩ := yields_described hc hn
  obtain ⟨fds, pds⟩ := yields_directives levels hm₁ hds
  exact ⟨⟨⟨m₁, fn, m₂, fds, rfl⟩, rfl⟩, pdescription, pn, pds⟩

theorem yields_filterCondition (levels : Nat) :
    Yields (filterCondition levels) FilterCondition.form (FilterCondition.Conforms levels) := by
  intro s c c' d hc h
  simp only [filterCondition, start_bind, bind_eq_ok, located_bind, pure_eq_ok] at h
  obtain ⟨k, m₁, hk, _, m₂, hcolon, as, m₃, has, o, m₄, ho, rfl, rfl⟩ := h
  obtain ⟨fk, pk, hm₁⟩ := (yields_enumValueDefinition levels).step hc hk
  obtain ⟨fcolon, -, hm₂⟩ := (yields_expect .colon).step hm₁ hcolon
  obtain ⟨fas, pas, hm₃⟩ := (yields_argumentDefinitions levels).step hm₂ has
  obtain ⟨fo, po⟩ := yields_objectValue levels hm₃ ho
  exact ⟨⟨⟨m₁, fk, m₂, fcolon, m₃, fas, m₄, fo, rfl⟩, rfl⟩, pk, pas, po⟩

theorem yields_orderObjects (levels : Nat) :
    Yields (orderObjects levels) OrderExpression.objectsForm (fun os => os ≠ [] ∧
      ∀ o ∈ os, o.Conforms levels) := by
  intro s c c' os hc h
  simp only [orderObjects, peek_bind, decide_eq_true_eq] at h
  split at h
  · obtain ⟨fos, hne, pos⟩ :=
      yields_block1 .bracketOpen .bracketClose (yields_objectValue levels) hc h
    refine ⟨?_, hne, pos⟩
    match os, fos with
    | [], _ => exact absurd rfl hne
    | [o], ⟨m, fopen, m', ⟨m'', fo, hm''⟩, _, fclose, hc'⟩ =>
      obtain rfl := hm''
      obtain rfl := hc'
      exact .inr ⟨m, _, fopen, fo, fclose⟩
    | _ :: _ :: _, fos => exact fos
  · simp only [bind_eq_ok, pure_eq_ok] at h
    obtain ⟨o, m, ho, rfl, rfl⟩ := h
    obtain ⟨fo, po⟩ := yields_objectValue levels hc ho
    exact ⟨.inl fo, List.cons_ne_nil _ _, by simpa using po⟩

theorem yields_orderExpression (levels : Nat) :
    Yields (orderExpression levels) OrderExpression.form (OrderExpression.Conforms levels) := by
  intro s c c' e hc h
  simp only [orderExpression, start_bind, bind_eq_ok, located_bind, pure_eq_ok] at h
  obtain ⟨k, m₁, hk, _, m₂, hcolon, os, m₃, hos, rfl, rfl⟩ := h
  obtain ⟨fk, pk, hm₁⟩ := (yields_enumValueDefinition levels).step hc hk
  obtain ⟨fcolon, -, hm₂⟩ := (yields_expect .colon).step hm₁ hcolon
  obtain ⟨fos, hne, pos⟩ := yields_orderObjects levels hm₂ hos
  exact ⟨⟨⟨m₁, fk, m₂, fcolon, m₃, fos, rfl⟩, rfl⟩, pk, hne, pos⟩

/-- The first word of a definition, to which the description in front of it belongs. -/
theorem heading_of_keyword {s : Setting} {c c' : Cursor} {word : String} {u : Unit}
    (hc : c.IsSound s) (h : keyword word s c = .ok (u, c')) :
    ((Form.heading c.current.description word).Spans s.locate c c' ∧
      ConformsDescription c.current.description) ∧ c'.IsSound s := by
  obtain ⟨fword, -, hc'⟩ := (yields_keyword word).step hc h
  exact ⟨⟨⟨rfl, fword⟩, hc.current.description⟩, hc'⟩

private theorem yields_scalarTypeDefinition (levels : Nat) :
    Yields (description >>= scalarTypeDefinition levels) ScalarTypeDefinition.form
      (ScalarTypeDefinition.Conforms levels) := by
  intro s c c' d hc h
  simp only [scalarTypeDefinition, description_bind, start_bind, bind_eq_ok, located_bind,
    pure_eq_ok] at h
  obtain ⟨_, m₁, hword, n, m₂, hn, ds, m₃, hds, rfl, rfl⟩ := h
  obtain ⟨⟨fword, pdescription⟩, hm₁⟩ := heading_of_keyword hc hword
  obtain ⟨fn, pn, hm₂⟩ := yields_name.step hm₁ hn
  obtain ⟨fds, pds⟩ := yields_directives levels hm₂ hds
  exact ⟨⟨⟨m₁, fword, m₂, fn, m₃, fds, rfl⟩, rfl⟩, pdescription, pn, pds⟩

theorem yields_interfaces : Yields interfaces interfaceForms (∀ t ∈ ·, t.Conforms) := by
  intro s c c' ts hc h
  simp only [interfaces, token_bind] at h
  split at h
  · rename_i ht
    simp only [bind_eq_ok, pure_eq_ok] at h
    obtain ⟨_, m₁, hadv, t, m₂, ht', ts, m₃, hts, rfl, rfl⟩ := h
    have fword := moves_of_advance hc (by simp [ht]) hadv
    obtain ⟨ft, pt, hm₂⟩ := yields_namedType.step (hc.of_moves fword) ht'
    obtain ⟨fts, pts⟩ := yields_many _ yields_namedType hm₂ hts
    exact ⟨⟨m₁, ⟨ht, fword⟩, m₂, ft, m₃, fts, rfl⟩, List.forall_mem_cons.2 ⟨pt, pts⟩⟩
  · obtain ⟨rfl, rfl⟩ := pure_eq_ok.1 h
    exact ⟨rfl, by simp⟩

/-- An object's definition, whatever its first word counts as. -/
theorem spans_of_objectTypeDefinition {s : Setting} {c c' : Cursor} {description : Option String}
    {d : ObjectTypeDefinition} {first : Form} (hc : c.IsSound s)
    (hdescription : ConformsDescription description)
    (hfirst : ∀ m, (Form.word "type").Spans s.locate c m → first.Spans s.locate c m)
    (h : objectTypeDefinition levels description s c = .ok (d, c')) :
    (d.formFrom first).Spans s.locate c c' ∧ d.Conforms levels ∧ d.description = description := by
  simp only [objectTypeDefinition, start_bind, bind_eq_ok, located_bind, pure_eq_ok] at h
  obtain ⟨_, m₁, hword, n, m₂, hn, is, m₃, his, ds, m₄, hds, fs, m₅, hfs, rfl, rfl⟩ := h
  obtain ⟨fword, -, hm₁⟩ := (yields_keyword "type").step hc hword
  obtain ⟨fn, pn, hm₂⟩ := yields_name.step hm₁ hn
  obtain ⟨fis, pis, hm₃⟩ := yields_interfaces.step hm₂ his
  obtain ⟨fds, pds, hm₄⟩ := (yields_directives levels).step hm₃ hds
  obtain ⟨ffs, pfs⟩ := yields_block .braceOpen .braceClose (yields_fieldDefinition levels) hm₄ hfs
  exact ⟨⟨⟨m₁, hfirst m₁ fword, m₂, fn, m₃, fis, m₄, fds, m₅, ffs, rfl⟩, rfl⟩,
    ⟨hdescription, pn, pis, pds, pfs⟩, rfl⟩

private theorem yields_objectTypeDefinition (levels : Nat) :
    Yields (description >>= objectTypeDefinition levels) ObjectTypeDefinition.form
      (ObjectTypeDefinition.Conforms levels) := by
  intro s c c' d hc h
  rw [description_bind] at h
  have hfirst : ∀ m, (Form.word "type").Spans s.locate c m →
      (Form.heading c.current.description "type").Spans s.locate c m := fun _ hm => ⟨rfl, hm⟩
  obtain ⟨fd, pd, hd⟩ := spans_of_objectTypeDefinition hc hc.current.description hfirst h
  rw [← hd] at fd
  exact ⟨fd, pd⟩

private theorem yields_interfaceTypeDefinition (levels : Nat) :
    Yields (description >>= interfaceTypeDefinition levels) InterfaceTypeDefinition.form
      (InterfaceTypeDefinition.Conforms levels) := by
  intro s c c' d hc h
  simp only [interfaceTypeDefinition, description_bind, start_bind, bind_eq_ok, located_bind,
    pure_eq_ok] at h
  obtain ⟨_, m₁, hword, n, m₂, hn, ds, m₃, hds, fs, m₄, hfs, rfl, rfl⟩ := h
  obtain ⟨⟨fword, pdescription⟩, hm₁⟩ := heading_of_keyword hc hword
  obtain ⟨fn, pn, hm₂⟩ := yields_name.step hm₁ hn
  obtain ⟨fds, pds, hm₃⟩ := (yields_directives levels).step hm₂ hds
  obtain ⟨ffs, pfs⟩ := yields_block .braceOpen .braceClose (yields_fieldDefinition levels) hm₃ hfs
  exact ⟨⟨⟨m₁, fword, m₂, fn, m₃, fds, m₄, ffs, rfl⟩, rfl⟩, pdescription, pn, pds, pfs⟩

private theorem yields_unionTypeDefinition (levels : Nat) :
    Yields (description >>= unionTypeDefinition levels) UnionTypeDefinition.form
      (UnionTypeDefinition.Conforms levels) := by
  intro s c c' d hc h
  simp only [unionTypeDefinition, description_bind, start_bind, bind_eq_ok, located_bind,
    pure_eq_ok] at h
  obtain ⟨_, m₁, hword, n, m₂, hn, ds, m₃, hds, _, m₄, hequals, ts, m₅, hts, rfl, rfl⟩ := h
  obtain ⟨⟨fword, pdescription⟩, hm₁⟩ := heading_of_keyword hc hword
  obtain ⟨fn, pn, hm₂⟩ := yields_name.step hm₁ hn
  obtain ⟨fds, pds, hm₃⟩ := (yields_directives levels).step hm₂ hds
  obtain ⟨fequals, -, hm₄⟩ := (yields_expect .equals).step hm₃ hequals
  obtain ⟨fts, hne, pts⟩ := yields_separatedBy .pipe yields_namedType hm₄ hts
  exact ⟨⟨⟨m₁, fword, m₂, fn, m₃, fds, m₄, fequals, m₅, fts, rfl⟩, rfl⟩, pdescription,
    pn, pds, hne, pts⟩

private theorem yields_enumTypeDefinition (levels : Nat) :
    Yields (description >>= enumTypeDefinition levels) EnumTypeDefinition.form
      (EnumTypeDefinition.Conforms levels) := by
  intro s c c' d hc h
  simp only [enumTypeDefinition, description_bind, start_bind, bind_eq_ok, located_bind,
    pure_eq_ok] at h
  obtain ⟨_, m₁, hword, n, m₂, hn, ds, m₃, hds, vs, m₄, hvs, rfl, rfl⟩ := h
  obtain ⟨⟨fword, pdescription⟩, hm₁⟩ := heading_of_keyword hc hword
  obtain ⟨fn, pn, hm₂⟩ := yields_name.step hm₁ hn
  obtain ⟨fds, pds, hm₃⟩ := (yields_directives levels).step hm₂ hds
  obtain ⟨fvs, hne, pvs⟩ :=
    yields_block1 .braceOpen .braceClose (yields_enumValueDefinition levels) hm₃ hvs
  exact ⟨⟨⟨m₁, fword, m₂, fn, m₃, fds, m₄, fvs, rfl⟩, rfl⟩, pdescription, pn, pds, hne, pvs⟩

private theorem yields_inputObjectTypeDefinition (levels : Nat) :
    Yields (description >>= inputObjectTypeDefinition levels) InputObjectTypeDefinition.form
      (InputObjectTypeDefinition.Conforms levels) := by
  intro s c c' d hc h
  simp only [inputObjectTypeDefinition, description_bind, start_bind, bind_eq_ok, located_bind,
    pure_eq_ok] at h
  obtain ⟨_, m₁, hword, n, m₂, hn, ds, m₃, hds, fs, m₄, hfs, rfl, rfl⟩ := h
  obtain ⟨⟨fword, pdescription⟩, hm₁⟩ := heading_of_keyword hc hword
  obtain ⟨fn, pn, hm₂⟩ := yields_name.step hm₁ hn
  obtain ⟨fds, pds, hm₃⟩ := (yields_directives levels).step hm₂ hds
  obtain ⟨ffs, pfs⟩ :=
    yields_block .braceOpen .braceClose (yields_inputValueDefinition levels) hm₃ hfs
  exact ⟨⟨⟨m₁, fword, m₂, fn, m₃, fds, m₄, ffs, rfl⟩, rfl⟩, pdescription, pn, pds, pfs⟩

private theorem yields_typeExtensionDefinition (levels : Nat) :
    Yields (description >>= typeExtensionDefinition levels) TypeExtensionDefinition.form
      (TypeExtensionDefinition.Conforms levels) := by
  intro s c c' d hc h
  simp only [typeExtensionDefinition, description_bind, start_bind, bind_eq_ok, located_bind,
    pure_eq_ok] at h
  obtain ⟨_, m₁, hword, o, m₂, ho, rfl, rfl⟩ := h
  obtain ⟨⟨fword, pdescription⟩, hm₁⟩ := heading_of_keyword hc hword
  obtain ⟨fo, po, hnone⟩ :=
    spans_of_objectTypeDefinition hm₁ (by simp [ConformsDescription]) (fun _ hm => hm) ho
  exact ⟨⟨⟨m₁, fword, m₂, fo, rfl⟩, rfl⟩, pdescription, po, hnone⟩

private theorem yields_directiveDefinition (levels : Nat) :
    Yields (description >>= directiveDefinition levels) DirectiveDefinition.form
      (DirectiveDefinition.Conforms levels) := by
  intro s c c' d hc h
  simp only [directiveDefinition, description_bind, start_bind, bind_eq_ok, located_bind,
    pure_eq_ok] at h
  obtain ⟨_, m₁, hword, _, m₂, hat, n, m₃, hn, as, m₄, has, _, m₅, hon, ns, m₆, hns, rfl, rfl⟩ := h
  obtain ⟨⟨fword, pdescription⟩, hm₁⟩ := heading_of_keyword hc hword
  obtain ⟨fat, -, hm₂⟩ := (yields_expect .atSign).step hm₁ hat
  obtain ⟨fn, pn, hm₃⟩ := yields_name.step hm₂ hn
  obtain ⟨fas, pas, hm₄⟩ := (yields_argumentDefinitions levels).step hm₃ has
  obtain ⟨fon, -, hm₅⟩ := (yields_keyword "on").step hm₄ hon
  obtain ⟨fns, hne, pns⟩ := yields_separatedBy .pipe yields_name hm₅ hns
  exact ⟨⟨⟨m₁, fword, m₂, fat, m₃, fn, m₄, fas, m₅, fon, m₆, fns, rfl⟩, rfl⟩, pdescription,
    pn, pas, hne, pns⟩

theorem yields_operationResult {fields : Parser (List FieldDefinition)}
    {P : List FieldDefinition → Prop}
    (hf : Yields fields (fun fs => .block .braceOpen .braceClose (fs.map FieldDefinition.form)) P) :
    Yields (operationResult levels fields) (fun r => r.2.form r.1)
      (fun r => (∀ d ∈ r.1, d.Conforms levels) ∧ r.2.Conforms P levels) := by
  intro s c c' r hc h
  rw [operationResult] at h
  obtain ⟨m₁, fcolon, hm₁, h⟩ | h := skip_bind_cases hc h
  · simp only [if_true, bind_eq_ok, pure_eq_ok] at h
    obtain ⟨t, m₂, ht, ds, m₃, hds, rfl, rfl⟩ := h
    obtain ⟨ft, pt, hm₂⟩ := (yields_plainType levels).step hm₁ ht
    obtain ⟨fds, pds⟩ := yields_directives levels hm₂ hds
    exact ⟨⟨m₁, fcolon, m₂, ft, m₃, fds, rfl⟩, pds, pt⟩
  · simp only [Bool.false_eq_true, if_false, bind_eq_ok, pure_eq_ok] at h
    obtain ⟨ds, m₁, hds, fs, m₂, hfs, rfl, rfl⟩ := h
    obtain ⟨fds, pds, hm₁⟩ := (yields_directives levels).step hc hds
    obtain ⟨ffs, pfs⟩ := hf hm₁ hfs
    exact ⟨⟨m₁, fds, m₂, ffs, rfl⟩, pds, pfs⟩

private theorem yields_operationDefinition (word : String) {fields : Parser (List FieldDefinition)}
    {P : List FieldDefinition → Prop}
    (hf : Yields fields (fun fs => .block .braceOpen .braceClose (fs.map FieldDefinition.form)) P) :
    Yields (description >>= operationDefinition word levels fields) (OperationDefinition.form word)
      (OperationDefinition.Conforms P levels) := by
  intro s c c' d hc h
  simp only [operationDefinition, description_bind, start_bind, bind_eq_ok, located_bind,
    pure_eq_ok] at h
  obtain ⟨_, m₁, hword, n, m₂, hn, as, m₃, has, ⟨ds, r⟩, m₄, hr, rfl, rfl⟩ := h
  obtain ⟨⟨fword, pdescription⟩, hm₁⟩ := heading_of_keyword hc hword
  obtain ⟨fn, pn, hm₂⟩ := yields_name.step hm₁ hn
  obtain ⟨fas, pas, hm₃⟩ := (yields_argumentDefinitions levels).step hm₂ has
  obtain ⟨fr, pds, pr⟩ := yields_operationResult hf hm₃ hr
  exact ⟨⟨⟨m₁, fword, m₂, fn, m₃, fas, m₄, fr, rfl⟩, rfl⟩, pdescription, pn, pas, pds, pr⟩

private theorem yields_mutationDefinition (levels : Nat) :
    Yields (description >>= mutationDefinition levels) (OperationDefinition.form "mutation")
      (OperationDefinition.Conforms (ConformMutationFields levels) levels) :=
  yields_operationDefinition "mutation"
    (yields_block .braceOpen .braceClose (yields_mutationFieldDefinition levels))

private theorem yields_queryDefinition (levels : Nat) :
    Yields (description >>= queryDefinition levels) (OperationDefinition.form "query")
      (OperationDefinition.Conforms (ConformQueryFields levels) levels) :=
  yields_operationDefinition "query"
    (yields_block1 .braceOpen .braceClose (yields_queryFieldDefinition levels))

private theorem yields_filterDefinition (levels : Nat) :
    Yields (description >>= filterDefinition levels) FilterDefinition.form
      (FilterDefinition.Conforms levels) := by
  intro s c c' d hc h
  simp only [filterDefinition, description_bind, start_bind, bind_eq_ok, located_bind,
    pure_eq_ok] at h
  obtain ⟨_, m₁, hword, _, m₂, hon, t, m₃, ht, cs, m₄, hcs, rfl, rfl⟩ := h
  obtain ⟨⟨fword, pdescription⟩, hm₁⟩ := heading_of_keyword hc hword
  obtain ⟨fon, -, hm₂⟩ := (yields_keyword "on").step hm₁ hon
  obtain ⟨ft, pt, hm₃⟩ := (yields_targetType levels).step hm₂ ht
  obtain ⟨fcs, pcs⟩ := yields_block .braceOpen .braceClose (yields_filterCondition levels) hm₃ hcs
  exact ⟨⟨⟨m₁, fword, m₂, fon, m₃, ft, m₄, fcs, rfl⟩, rfl⟩, pdescription, pt, pcs⟩

private theorem yields_orderDefinition (levels : Nat) :
    Yields (description >>= orderDefinition levels) OrderDefinition.form
      (OrderDefinition.Conforms levels) := by
  intro s c c' d hc h
  simp only [orderDefinition, description_bind, start_bind, bind_eq_ok, located_bind,
    pure_eq_ok] at h
  obtain ⟨_, m₁, hword, _, m₂, hon, t, m₃, ht, es, m₄, hes, rfl, rfl⟩ := h
  obtain ⟨⟨fword, pdescription⟩, hm₁⟩ := heading_of_keyword hc hword
  obtain ⟨fon, -, hm₂⟩ := (yields_keyword "on").step hm₁ hon
  obtain ⟨ft, pt, hm₃⟩ := (yields_targetType levels).step hm₂ ht
  obtain ⟨fes, pes⟩ := yields_block .braceOpen .braceClose (yields_orderExpression levels) hm₃ hes
  exact ⟨⟨⟨m₁, fword, m₂, fon, m₃, ft, m₄, fes, rfl⟩, rfl⟩, pdescription, pt, pes⟩

theorem yields_definition (levels : Nat) :
    Yields (definition levels) Definition.form (Definition.Conforms levels) := by
  intro s c c' d hc h
  rw [definition, description_bind, token_bind] at h
  -- The parser is named before the cases are split, so that the split does not reach
  -- into its answer.
  obtain ⟨p, hp, h⟩ : ∃ p : Parser Definition, _ = p ∧ p s c = .ok (d, c') := ⟨_, rfl, h⟩
  split at hp
  · obtain ⟨x, hx, rfl⟩ := map_eq_ok.1 (hp ▸ h)
    exact yields_scalarTypeDefinition levels hc hx
  · obtain ⟨x, hx, rfl⟩ := map_eq_ok.1 (hp ▸ h)
    exact yields_objectTypeDefinition levels hc hx
  · obtain ⟨x, hx, rfl⟩ := map_eq_ok.1 (hp ▸ h)
    exact yields_interfaceTypeDefinition levels hc hx
  · obtain ⟨x, hx, rfl⟩ := map_eq_ok.1 (hp ▸ h)
    exact yields_unionTypeDefinition levels hc hx
  · obtain ⟨x, hx, rfl⟩ := map_eq_ok.1 (hp ▸ h)
    exact yields_enumTypeDefinition levels hc hx
  · obtain ⟨x, hx, rfl⟩ := map_eq_ok.1 (hp ▸ h)
    exact yields_inputObjectTypeDefinition levels hc hx
  · obtain ⟨x, hx, rfl⟩ := map_eq_ok.1 (hp ▸ h)
    exact yields_typeExtensionDefinition levels hc hx
  · obtain ⟨x, hx, rfl⟩ := map_eq_ok.1 (hp ▸ h)
    exact yields_directiveDefinition levels hc hx
  · obtain ⟨x, hx, rfl⟩ := map_eq_ok.1 (hp ▸ h)
    exact yields_mutationDefinition levels hc hx
  · obtain ⟨x, hx, rfl⟩ := map_eq_ok.1 (hp ▸ h)
    exact yields_queryDefinition levels hc hx
  · obtain ⟨x, hx, rfl⟩ := map_eq_ok.1 (hp ▸ h)
    exact yields_filterDefinition levels hc hx
  · obtain ⟨x, hx, rfl⟩ := map_eq_ok.1 (hp ▸ h)
    exact yields_orderDefinition levels hc hx
  · subst hp; simp at h
  · subst hp; simp at h

/-- Definitions are read up to an end of the input, which is taken as well. -/
theorem spans_of_definitions {n : Nat} {s : Setting} {c c' : Cursor} {ds : List Definition}
    (hc : c.IsSound s) (h : definitions levels n s c = .ok (ds, c')) :
    ∃ m, (Form.all (ds.map Definition.form)).Spans s.locate c m ∧ m.current.token = .endOfInput ∧
      advance s m = .ok ((), c') ∧ ds ≠ [] ∧ ∀ d ∈ ds, d.Conforms levels := by
  induction n generalizing c ds with
  | zero => simp [definitions] at h
  | succ n ih =>
    obtain ⟨d, m, hd, h⟩ := bind_eq_ok.1 h
    obtain ⟨fd, pd, hm⟩ := (yields_definition levels).step hc hd
    rw [token_bind] at h
    split at h
    · rename_i hend
      simp only [bind_eq_ok, pure_eq_ok] at h
      obtain ⟨_, _, hadv, rfl, rfl⟩ := h
      exact ⟨m, ⟨m, fd, rfl⟩, hend, hadv, List.cons_ne_nil _ _, by simpa using pd⟩
    · simp only [bind_eq_ok, pure_eq_ok] at h
      obtain ⟨es, _, hes, rfl, rfl⟩ := h
      obtain ⟨m', fes, hend, hadv, -, pes⟩ := ih hm hes
      exact ⟨m', ⟨m, fd, fes⟩, hend, hadv, List.cons_ne_nil _ _, List.forall_mem_cons.2 ⟨pd, pes⟩⟩

end SchemaLang.Parser
