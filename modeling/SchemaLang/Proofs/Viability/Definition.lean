import SchemaLang.Proofs.Soundness.Definition
import SchemaLang.Proofs.Viability.Type

/-!
# Misfits in definitions

Where a document breaks off at a misfit there is a document that goes on from there, if lists and
objects may be nested at all. A description in front of the misfit belongs to what it goes on with.
-/

namespace SchemaLang.Parser

open Form (writes_located writes_all_cons writes_all_nil)

variable {levels : Nat} {G : List Lexeme → Prop}

private theorem resumes_inputValueDefinition (levels : Nat) : Resumes (inputValueDefinition levels)
    (LexemesOf InputValueDefinition.form (InputValueDefinition.Conforms levels)) := by
  refine .described heads_name fun d _ n ls₁ pd pn f₁ => ?_
  refine .bind (yields_expect .colon) (resumes_expect .colon) fun _ ls₂ _ f₂ => ?_
  refine .bind (yields_plainType levels) (resumes_plainType levels) fun t ls₃ pt f₃ => ?_
  refine .skip .equals (fun l hl => Resumes.completes (.map_bind ?_)) ?_
  · refine .bind (yields_value true levels) (resumes_value true levels) fun v ls₄ pv f₄ => ?_
    refine .bind (yields_directives levels) (resumes_directives levels) fun ds ls₅ pds f₅ => ?_
    have f₄ : (defaultForm (some v)).Writes ([l] ++ (ls₄ ++ [])) :=
      writes_all_cons (F := .punctuator .equals) ⟨l, rfl, hl⟩ (writes_all_cons f₄ writes_all_nil)
    rw [List.append_nil] at f₄
    refine .located (.pure ⟨⟨d, n, t, some v, ds, none⟩, ⟨pd, pn, pt, by simpa using pv, pds⟩, ?_⟩)
    exact writes_located (writes_all_cons f₁ (writes_all_cons f₂ (writes_all_cons f₃
      (writes_all_cons f₄ (writes_all_cons f₅ writes_all_nil)))))
  · refine Resumes.bind (p := directives levels) (yields_directives levels)
      (resumes_directives levels)
      fun ds ls₄ pds f₄ => ?_
    have f₄ : (Form.all [defaultForm none, Directive.forms ds]).Writes ([] ++ (ls₄ ++ [])) :=
      writes_all_cons rfl (writes_all_cons f₄ writes_all_nil)
    exact .located (.pure ⟨⟨d, n, t, none, ds, none⟩, ⟨pd, pn, pt, by simp, pds⟩,
      writes_located (writes_all_cons f₁ (writes_all_cons f₂ (writes_all_cons f₃ f₄)))⟩)

private theorem resumes_argumentDefinitions (levels : Nat) : Resumes (argumentDefinitions levels)
    (LexemesOf InputValueDefinition.argumentForms (∀ a ∈ ·, a.Conforms levels)) :=
  resumes_optionalBlock (yields_inputValueDefinition levels)
    (resumes_inputValueDefinition levels) _ _

private theorem resumes_fieldDefinitionOf {colon : Parser Unit} {type : Parser TypeRef}
    {admits : TypeRef → Prop} (ycolon : Yields colon (fun _ => .punctuator .colon) fun _ => True)
    (ytype : Yields type TypeRef.form (TypeRef.Conforms admits levels))
    (hcolon : Resumes colon (LexemesOf (fun _ => .punctuator .colon) fun _ : Unit => True))
    (htype : Resumes type (LexemesOf TypeRef.form (TypeRef.Conforms admits levels))) :
    Resumes (fieldDefinitionOf levels colon type)
      (LexemesOf FieldDefinition.form (FieldDefinition.Conforms admits levels)) := by
  refine .described heads_name fun d _ n ls₁ pd pn f₁ => ?_
  refine .bind (yields_argumentDefinitions levels) (resumes_argumentDefinitions levels)
    fun as ls₂ pas f₂ => ?_
  refine .bind ycolon hcolon fun _ ls₃ _ f₃ => .bind ytype htype fun t ls₄ pt f₄ => ?_
  refine .bind (yields_directives levels) (resumes_directives levels) fun ds ls₅ pds f₅ => ?_
  exact .located (.pure ⟨⟨d, n, as, t, ds, none⟩, ⟨pd, pn, pas, pt, pds⟩,
    writes_located (writes_all_cons f₁ (writes_all_cons f₂ (writes_all_cons f₃
      (writes_all_cons f₄ (writes_all_cons f₅ writes_all_nil)))))⟩)

private theorem resumes_fieldDefinition (levels : Nat) : Resumes (fieldDefinition levels)
    (LexemesOf FieldDefinition.form
      (FieldDefinition.Conforms (TypeRef.IsOrNonNull TypeRef.IsFieldBase) levels)) :=
  resumes_fieldDefinitionOf ((yields_expect .colon).withHint _) (yields_fieldType levels)
    ((resumes_expect .colon).withHint _) (resumes_fieldType levels)

private theorem resumes_mutationFieldDefinition (levels : Nat) :
    Resumes (mutationFieldDefinition levels) (LexemesOf FieldDefinition.form
      (FieldDefinition.Conforms (TypeRef.IsOrNonNull TypeRef.IsMutationFieldBase) levels)) :=
  resumes_fieldDefinitionOf (yields_expect .colon) (yields_mutationFieldType levels)
    (resumes_expect .colon)
    (resumes_mutationFieldType levels)

private theorem resumes_queryFieldDefinition (levels : Nat) : Resumes (queryFieldDefinition levels)
    (LexemesOf FieldDefinition.form (FieldDefinition.Conforms TypeRef.IsPlain levels)) :=
  resumes_fieldDefinitionOf (yields_expect .colon) (yields_plainType levels) (resumes_expect .colon)
    (resumes_plainType levels)

private theorem resumes_enumValueDefinition (levels : Nat) : Resumes (enumValueDefinition levels)
    (LexemesOf EnumValueDefinition.form (EnumValueDefinition.Conforms levels)) := by
  refine .described heads_name fun d _ n ls₁ pd pn f₁ => ?_
  refine .bind (yields_directives levels) (resumes_directives levels) fun ds ls₂ pds f₂ => ?_
  exact .located (.pure ⟨⟨d, n, ds, none⟩, ⟨pd, pn, pds⟩,
    writes_located (writes_all_cons f₁ (writes_all_cons f₂ writes_all_nil))⟩)

private theorem resumes_filterCondition (levels : Nat) : Resumes (filterCondition (levels + 1))
    (LexemesOf FilterCondition.form (FilterCondition.Conforms (levels + 1))) := by
  refine .start fun _ => .bind (yields_enumValueDefinition _) (resumes_enumValueDefinition _)
    fun k ls₁ pk f₁ => ?_
  refine .bind (yields_expect .colon) (resumes_expect .colon) fun _ ls₂ _ f₂ => ?_
  refine .bind (yields_argumentDefinitions _) (resumes_argumentDefinitions _) ?_
  intro as ls₃ pas f₃
  refine .bind (yields_objectValue _) (resumes_objectValue levels) fun o ls₄ po f₄ => ?_
  exact .located (.pure ⟨⟨k, as, o, none⟩, ⟨pk, pas, po⟩,
    writes_located
      (writes_all_cons f₁
        (writes_all_cons f₂ (writes_all_cons f₃ (writes_all_cons f₄ writes_all_nil))))⟩)

/-- One object that stands in brackets needs none. -/
theorem OrderExpression.objectsForm_of_block {o : ObjectValue} {os : List ObjectValue}
    {ls : List Lexeme}
    (h : (Form.block .bracketOpen .bracketClose ((o :: os).map ObjectValue.form)).Writes ls) :
    (OrderExpression.objectsForm (o :: os)).Writes ls := by
  cases os with
  | cons p ps => exact h
  | nil =>
    obtain ⟨_, _, rfl, ⟨l, rfl, hl⟩, _, _, rfl, ⟨xs, _, rfl, fo, rfl⟩, _, _, rfl,
      ⟨l', rfl, hl'⟩, rfl⟩ := h
    exact .inr ⟨l, xs, l', by simp, hl, fo, hl'⟩

private theorem resumes_orderObjects (levels : Nat) : Resumes (orderObjects (levels + 1))
    (LexemesOf OrderExpression.objectsForm fun os => os ≠ [] ∧
      ∀ o ∈ os, o.Conforms (levels + 1)) := by
  have objects := resumes_block1 (yields_objectValue (levels + 1)) (resumes_objectValue levels)
  refine .peek .bracketOpen fun b =>
    .ite ((objects _ _).mono fun ls ⟨os, pos, fos⟩ => ⟨os, pos, ?_⟩) ?_
  · obtain ⟨o, os, rfl⟩ := List.exists_cons_of_ne_nil pos.1
    exact OrderExpression.objectsForm_of_block fos
  · refine ((resumes_objectValue levels).mono ?_).before fun o => meetsNoMisfit_pure [o]
    rintro ls ⟨o, po, fo⟩
    exact ⟨[o], ⟨List.cons_ne_nil _ _, by simpa using po⟩, .inl fo⟩

private theorem resumes_orderExpression (levels : Nat) : Resumes (orderExpression (levels + 1))
    (LexemesOf OrderExpression.form (OrderExpression.Conforms (levels + 1))) := by
  refine .start fun _ => .bind (yields_enumValueDefinition _) (resumes_enumValueDefinition _)
    fun k ls₁ pk f₁ => ?_
  refine .bind (yields_expect .colon) (resumes_expect .colon) fun _ ls₂ _ f₂ => ?_
  refine .bind (yields_orderObjects _) (resumes_orderObjects levels) fun os ls₃ pos f₃ => ?_
  exact .located (.pure ⟨⟨k, os, none⟩, ⟨pk, pos.1, pos.2⟩,
    writes_located (writes_all_cons f₁ (writes_all_cons f₂ (writes_all_cons f₃ writes_all_nil)))⟩)

private theorem resumes_scalarTypeDefinition (levels : Nat) :
    Resumes (description >>= scalarTypeDefinition levels)
      (LexemesOf ScalarTypeDefinition.form (ScalarTypeDefinition.Conforms levels)) := by
  refine .described (heads_keyword (by decide)) fun d _ _ ls₁ pd _ f₁ => ?_
  refine .bind yields_name resumes_name fun n ls₂ pn f₂ => ?_
  refine .bind (yields_directives levels) (resumes_directives levels) fun ds ls₃ pds f₃ => ?_
  exact .located (.pure ⟨⟨d, n, ds, none⟩, ⟨pd, pn, pds⟩,
    writes_located (writes_all_cons f₁ (writes_all_cons f₂ (writes_all_cons f₃ writes_all_nil)))⟩)

private theorem resumes_interfaces :
    Resumes interfaces (LexemesOf interfaceForms (∀ t ∈ ·, t.Conforms)) := by
  refine .take (by simp) (fun l hl => Resumes.completes ?_) (.pure ⟨[], by simp, rfl⟩)
  refine .bind yields_namedType resumes_namedType fun t ls₁ pt f₁ => ?_
  refine .bind (yields_many _ yields_namedType) (resumes_many yields_namedType resumes_namedType _)
    fun ts ls₂ pts f₂ => ?_
  exact .pure ⟨t :: ts, List.forall_mem_cons.2 ⟨pt, pts⟩,
    writes_all_cons (F := .word "implements") ⟨l, rfl, hl⟩
      (writes_all_cons f₁ (writes_all_cons f₂ writes_all_nil))⟩

/-- The fields of an object or an interface. -/
theorem resumes_fields (levels : Nat) :
    Resumes (block .braceOpen .braceClose (fieldDefinition levels))
      (LexemesOf (fun fs : List FieldDefinition =>
      .block .braceOpen .braceClose (fs.map FieldDefinition.form)) (∀ f ∈
        ·, f.Conforms (TypeRef.IsOrNonNull TypeRef.IsFieldBase) levels)) :=
  resumes_block (yields_fieldDefinition levels) (resumes_fieldDefinition levels) _ _

/-- An object behind its first word, whatever that counts as. -/
theorem resumes_objectBody {d : Option String} {first : Form} {n : Nat} {ls₁ : List Lexeme}
    (pd : ConformsDescription d) (f₁ : first.Writes ls₁) : Resumes (do
      let name ← name
      let is ← interfaces
      let ds ← directives levels
      let fields ← block .braceOpen .braceClose (fieldDefinition levels)
      return (⟨d, name, is, ds, fields, ← located n⟩ : ObjectTypeDefinition))
    fun ls => ∃ o : ObjectTypeDefinition, (o.Conforms levels ∧ o.description = d) ∧
      (o.formFrom first).Writes (ls₁ ++ ls) := by
  refine .bind yields_name resumes_name fun name ls₂ pn f₂ => ?_
  refine .bind yields_interfaces resumes_interfaces fun is ls₃ pis f₃ => ?_
  refine .bind (yields_directives levels) (resumes_directives levels) fun ds ls₄ pds f₄ => ?_
  refine .bind (yields_block _ _ (yields_fieldDefinition levels)) (resumes_fields levels)
    fun fs ls₅ pfs f₅ => ?_
  exact .located (.pure ⟨⟨d, name, is, ds, fs, none⟩, ⟨⟨pd, pn, pis, pds, pfs⟩, rfl⟩,
    writes_located (writes_all_cons f₁ (writes_all_cons f₂ (writes_all_cons f₃
      (writes_all_cons f₄ (writes_all_cons f₅ writes_all_nil)))))⟩)

private theorem resumes_objectTypeDefinition (levels : Nat) :
    Resumes (description >>= objectTypeDefinition levels)
      (LexemesOf ObjectTypeDefinition.form (ObjectTypeDefinition.Conforms levels)) := by
  refine .described (heads_keyword (by decide)) fun d _ _ ls₁ pd _ f₁ => ?_
  refine (resumes_objectBody pd f₁).mono fun ls ⟨o, ⟨po, hd⟩, fo⟩ => ⟨o, po, ?_⟩
  rw [← hd] at fo
  exact fo

private theorem resumes_interfaceTypeDefinition (levels : Nat) :
    Resumes (description >>= interfaceTypeDefinition levels)
      (LexemesOf InterfaceTypeDefinition.form (InterfaceTypeDefinition.Conforms levels)) := by
  refine .described (heads_keyword (by decide)) fun d _ _ ls₁ pd _ f₁ => ?_
  refine .bind yields_name resumes_name fun n ls₂ pn f₂ => ?_
  refine .bind (yields_directives levels) (resumes_directives levels) fun ds ls₃ pds f₃ => ?_
  refine .bind (yields_block _ _ (yields_fieldDefinition levels)) (resumes_fields levels)
    fun fs ls₄ pfs f₄ => ?_
  exact .located (.pure ⟨⟨d, n, ds, fs, none⟩, ⟨pd, pn, pds, pfs⟩,
    writes_located
      (writes_all_cons f₁
        (writes_all_cons f₂ (writes_all_cons f₃ (writes_all_cons f₄ writes_all_nil))))⟩)

private theorem resumes_unionTypeDefinition (levels : Nat) :
    Resumes (description >>= unionTypeDefinition levels)
      (LexemesOf UnionTypeDefinition.form (UnionTypeDefinition.Conforms levels)) := by
  refine .described (heads_keyword (by decide)) fun d _ _ ls₁ pd _ f₁ => ?_
  refine .bind yields_name resumes_name fun n ls₂ pn f₂ => ?_
  refine .bind (yields_directives levels) (resumes_directives levels) fun ds ls₃ pds f₃ => ?_
  refine .bind (yields_expect .equals) (resumes_expect .equals) fun _ ls₄ _ f₄ => ?_
  refine .bind (yields_separatedBy .pipe yields_namedType)
    (resumes_separatedBy yields_namedType resumes_namedType .pipe) fun ts ls₅ pts f₅ => ?_
  exact .located (.pure ⟨⟨d, n, ds, ts, none⟩, ⟨pd, pn, pds, pts.1, pts.2⟩,
    writes_located (writes_all_cons f₁ (writes_all_cons f₂ (writes_all_cons f₃
      (writes_all_cons f₄ (writes_all_cons f₅ writes_all_nil)))))⟩)

private theorem resumes_enumTypeDefinition (levels : Nat) :
    Resumes (description >>= enumTypeDefinition levels)
      (LexemesOf EnumTypeDefinition.form (EnumTypeDefinition.Conforms levels)) := by
  refine .described (heads_keyword (by decide)) fun d _ _ ls₁ pd _ f₁ => ?_
  refine .bind yields_name resumes_name fun n ls₂ pn f₂ => ?_
  refine .bind (yields_directives levels) (resumes_directives levels) fun ds ls₃ pds f₃ => ?_
  refine .bind (yields_block1 _ _ (yields_enumValueDefinition levels))
    (resumes_block1 (yields_enumValueDefinition levels) (resumes_enumValueDefinition levels) _ _)
    fun vs ls₄ pvs f₄ => ?_
  exact .located (.pure ⟨⟨d, n, ds, vs, none⟩, ⟨pd, pn, pds, pvs.1, pvs.2⟩,
    writes_located
      (writes_all_cons f₁
        (writes_all_cons f₂ (writes_all_cons f₃ (writes_all_cons f₄ writes_all_nil))))⟩)

private theorem resumes_inputObjectTypeDefinition (levels : Nat) :
    Resumes (description >>= inputObjectTypeDefinition levels)
      (LexemesOf InputObjectTypeDefinition.form (InputObjectTypeDefinition.Conforms levels)) := by
  refine .described (heads_keyword (by decide)) fun d _ _ ls₁ pd _ f₁ => ?_
  refine .bind yields_name resumes_name fun n ls₂ pn f₂ => ?_
  refine .bind (yields_directives levels) (resumes_directives levels) fun ds ls₃ pds f₃ => ?_
  refine .bind (yields_block _ _ (yields_inputValueDefinition levels))
    (resumes_block (yields_inputValueDefinition levels) (resumes_inputValueDefinition levels) _ _)
    fun fs ls₄ pfs f₄ => ?_
  exact .located (.pure ⟨⟨d, n, ds, fs, none⟩, ⟨pd, pn, pds, pfs⟩,
    writes_located
      (writes_all_cons f₁
        (writes_all_cons f₂ (writes_all_cons f₃ (writes_all_cons f₄ writes_all_nil))))⟩)

/-- The object in an extension has no description of its own. -/
theorem yields_extendedObject :
    Yields (objectTypeDefinition levels none) (·.formFrom (.word "type"))
    fun o => o.Conforms levels ∧ o.description = none := by
  intro s c c' o hc h
  obtain ⟨fo, po⟩ :=
    spans_of_objectTypeDefinition hc (by simp [ConformsDescription]) (fun _ hm => hm) h
  exact ⟨fo, po⟩

private theorem resumes_extendedObject (levels : Nat) :
    Resumes (objectTypeDefinition levels none) (LexemesOf (·.formFrom (.word "type"))
      fun o : ObjectTypeDefinition => o.Conforms levels ∧ o.description = none) := by
  refine .start fun _ => .bind (yields_keyword "type") (resumes_keyword (by decide))
    fun _ ls₁ _ f₁ => ?_
  exact resumes_objectBody (by simp [ConformsDescription]) f₁

private theorem resumes_typeExtensionDefinition (levels : Nat) :
    Resumes (description >>= typeExtensionDefinition levels)
      (LexemesOf TypeExtensionDefinition.form (TypeExtensionDefinition.Conforms levels)) := by
  refine .described (heads_keyword (by decide)) fun d _ _ ls₁ pd _ f₁ => ?_
  refine .bind yields_extendedObject (resumes_extendedObject levels) fun o ls₂ po f₂ => ?_
  exact .located (.pure ⟨⟨d, o, none⟩, ⟨pd, po.1, po.2⟩,
    writes_located (writes_all_cons f₁ (writes_all_cons f₂ writes_all_nil))⟩)

private theorem resumes_directiveDefinition (levels : Nat) :
    Resumes (description >>= directiveDefinition levels)
      (LexemesOf DirectiveDefinition.form (DirectiveDefinition.Conforms levels)) := by
  refine .described (heads_keyword (by decide)) fun d _ _ ls₁ pd _ f₁ => ?_
  refine .bind (yields_expect .atSign) (resumes_expect .atSign) fun _ ls₂ _ f₂ => ?_
  refine .bind yields_name resumes_name fun n ls₃ pn f₃ => ?_
  refine .bind (yields_argumentDefinitions levels) (resumes_argumentDefinitions levels)
    fun as ls₄ pas f₄ => ?_
  refine .bind (yields_keyword "on") (resumes_keyword (by decide)) fun _ ls₅ _ f₅ => ?_
  refine .bind (yields_separatedBy .pipe yields_name)
    (resumes_separatedBy yields_name resumes_name .pipe)
    fun ns ls₆ pns f₆ => ?_
  exact .located (.pure ⟨⟨d, n, as, ns, none⟩, ⟨pd, pn, pas, pns.1, pns.2⟩,
    writes_located (writes_all_cons f₁ (writes_all_cons f₂ (writes_all_cons f₃
      (writes_all_cons f₄ (writes_all_cons f₅ (writes_all_cons f₆ writes_all_nil))))))⟩)

section Operations

variable {fields : Parser (List FieldDefinition)} {P : List FieldDefinition → Prop}
  (yf : Yields fields (fun fs => .block .braceOpen .braceClose (fs.map FieldDefinition.form)) P)
  (hf : Resumes fields
    (LexemesOf (fun fs : List FieldDefinition =>
    .block .braceOpen .braceClose (fs.map FieldDefinition.form)) P))

include yf hf

private theorem resumes_operationResult : Resumes (operationResult levels fields)
    (LexemesOf (fun r : List Directive × OperationResult => r.2.form r.1)
      fun r => (∀ d ∈ r.1, d.Conforms levels) ∧ r.2.Conforms P levels) := by
  refine .skip .colon (fun l hl => Resumes.completes ?_) ?_
  · refine .bind (yields_plainType levels) (resumes_plainType levels) fun t ls₁ pt f₁ => ?_
    refine .bind (yields_directives levels) (resumes_directives levels) fun ds ls₂ pds f₂ => ?_
    exact .pure ⟨(ds, .type t), ⟨pds, pt⟩, writes_all_cons (F := .punctuator .colon) ⟨l, rfl, hl⟩
      (writes_all_cons f₁ (writes_all_cons f₂ writes_all_nil))⟩
  · refine .bind (yields_directives levels) (resumes_directives levels) fun ds ls₁ pds f₁ => ?_
    refine .bind yf hf fun fs ls₂ pfs f₂ => ?_
    exact .pure ⟨(ds, .fields fs), ⟨pds, pfs⟩,
      writes_all_cons f₁ (writes_all_cons f₂ writes_all_nil)⟩

private theorem resumes_operationDefinition {word : String} (hword : IsName word) :
    Resumes (description >>= operationDefinition word levels fields)
      (LexemesOf (OperationDefinition.form word) (OperationDefinition.Conforms P levels)) := by
  refine .described (heads_keyword hword) fun d _ _ ls₁ pd _ f₁ => ?_
  refine .bind yields_name resumes_name fun n ls₂ pn f₂ => ?_
  refine .bind (yields_argumentDefinitions levels) (resumes_argumentDefinitions levels)
    fun as ls₃ pas f₃ => ?_
  refine .bind (yields_operationResult yf) (resumes_operationResult yf hf) fun r ls₄ pr f₄ => ?_
  exact .located (.pure ⟨⟨d, n, as, r.1, r.2, none⟩, ⟨pd, pn, pas, pr.1, pr.2⟩,
    writes_located
      (writes_all_cons f₁
        (writes_all_cons f₂ (writes_all_cons f₃ (writes_all_cons f₄ writes_all_nil))))⟩)

end Operations

private theorem resumes_mutationDefinition (levels : Nat) :
    Resumes (description >>= mutationDefinition levels)
      (LexemesOf (OperationDefinition.form "mutation")
        (OperationDefinition.Conforms (ConformMutationFields levels) levels)) :=
  resumes_operationDefinition (yields_block _ _ (yields_mutationFieldDefinition levels))
    (resumes_block (yields_mutationFieldDefinition levels)
      (resumes_mutationFieldDefinition levels) _ _) (by decide)

private theorem resumes_queryDefinition (levels : Nat) :
    Resumes (description >>= queryDefinition levels)
      (LexemesOf (OperationDefinition.form "query")
        (OperationDefinition.Conforms (ConformQueryFields levels) levels)) :=
  resumes_operationDefinition (yields_block1 _ _ (yields_queryFieldDefinition levels))
    (resumes_block1 (yields_queryFieldDefinition levels) (resumes_queryFieldDefinition levels) _ _)
    (by decide)

private theorem resumes_filterDefinition (levels : Nat) :
    Resumes (description >>= filterDefinition (levels + 1))
      (LexemesOf FilterDefinition.form (FilterDefinition.Conforms (levels + 1))) := by
  refine .described (heads_keyword (by decide)) fun d _ _ ls₁ pd _ f₁ => ?_
  refine .bind (yields_keyword "on") (resumes_keyword (by decide)) fun _ ls₂ _ f₂ => ?_
  refine .bind (yields_targetType _) (resumes_targetType _) fun t ls₃ pt f₃ => ?_
  refine .bind (yields_block _ _ (yields_filterCondition _))
    (resumes_block (yields_filterCondition _) (resumes_filterCondition levels) _ _)
      fun cs ls₄ pcs f₄ => ?_
  exact .located (.pure ⟨⟨d, t, cs, none⟩, ⟨pd, pt, pcs⟩,
    writes_located
      (writes_all_cons f₁
        (writes_all_cons f₂ (writes_all_cons f₃ (writes_all_cons f₄ writes_all_nil))))⟩)

private theorem resumes_orderDefinition (levels : Nat) :
    Resumes (description >>= orderDefinition (levels + 1))
      (LexemesOf OrderDefinition.form (OrderDefinition.Conforms (levels + 1))) := by
  refine .described (heads_keyword (by decide)) fun d _ _ ls₁ pd _ f₁ => ?_
  refine .bind (yields_keyword "on") (resumes_keyword (by decide)) fun _ ls₂ _ f₂ => ?_
  refine .bind (yields_targetType _) (resumes_targetType _) fun t ls₃ pt f₃ => ?_
  refine .bind (yields_block _ _ (yields_orderExpression _))
    (resumes_block (yields_orderExpression _) (resumes_orderExpression levels) _ _)
      fun es ls₄ pes f₄ => ?_
  exact .located (.pure ⟨⟨d, t, es, none⟩, ⟨pd, pt, pes⟩,
    writes_located
      (writes_all_cons f₁
        (writes_all_cons f₂ (writes_all_cons f₃ (writes_all_cons f₄ writes_all_nil))))⟩)

private theorem isBegun_definition (levels : Nat) :
    IsBegun (LexemesOf Definition.form (Definition.Conforms levels)) := by
  intro d hd
  have begins : (Form.heading d "scalar").Writes [⟨.name "scalar", ⟨0, 0⟩, d⟩] := ⟨_, rfl, rfl, rfl⟩
  have named : (Name.form ⟨"a", none⟩).Writes [⟨.name "a", ⟨0, 0⟩, none⟩] :=
    writes_located (F := .token (.name "a") rfl) ⟨_, rfl, rfl⟩
  have bare : (Directive.forms []).Writes [] := writes_all_nil
  refine ⟨_, _, ?_, ?_, .scalar ⟨d, ⟨"a", none⟩, [], none⟩, ⟨hd, isName_a, by simp⟩,
    writes_located
      (writes_all_cons begins (writes_all_cons named (writes_all_cons bare writes_all_nil)))⟩
  · have scalar : IsName "scalar" := by decide
    exact List.forall_mem_cons.2 ⟨⟨scalar, hd⟩, List.forall_mem_cons.2
      ⟨⟨isName_a, by simp [ConformsDescription]⟩, fun _ hl => absurd hl List.not_mem_nil⟩⟩
  · rfl

private theorem resumes_definition (levels : Nat) :
    Resumes (definition (levels + 1))
      (LexemesOf Definition.form (Definition.Conforms (levels + 1))) := by
  have begun := isBegun_definition (levels + 1)
  refine ⟨fun s c e hs hc he => ?_, begun.isWritable⟩
  rw [definition, description_bind, token_bind] at he
  -- The parser is named before the cases are split, so that the split does not reach
  -- into its answer.
  obtain ⟨p, hp, he⟩ : ∃ p : Parser Definition, _ = p ∧ p s c = .error e := ⟨_, rfl, he⟩
  have made {α : Type} {q : Option String → Parser α} {form : α → Form} {P : α →
    Prop} {f : α → Definition}
      (hp : f <$> q c.current.description = p) (hq : Resumes (description >>= q) (LexemesOf form P))
      (hform : ∀ a, (f a).form = form a) (hP : ∀ a, P a → (f a).Conforms (levels + 1)) :
      e.cause.category.IsMisfit →
        c.GoesOn e.position (LexemesOf Definition.form (Definition.Conforms (levels + 1))) := by
    rw [← hp] at he
    exact (hq.map f hform hP).completes hs hc he
  split at hp
  · exact made hp (resumes_scalarTypeDefinition _) (fun _ => rfl) fun _ pd => pd
  · exact made hp (resumes_objectTypeDefinition _) (fun _ => rfl) fun _ pd => pd
  · exact made hp (resumes_interfaceTypeDefinition _) (fun _ => rfl) fun _ pd => pd
  · exact made hp (resumes_unionTypeDefinition _) (fun _ => rfl) fun _ pd => pd
  · exact made hp (resumes_enumTypeDefinition _) (fun _ => rfl) fun _ pd => pd
  · exact made hp (resumes_inputObjectTypeDefinition _) (fun _ => rfl) fun _ pd => pd
  · exact made hp (resumes_typeExtensionDefinition _) (fun _ => rfl) fun _ pd => pd
  · exact made hp (resumes_directiveDefinition _) (fun _ => rfl) fun _ pd => pd
  · exact made hp (resumes_mutationDefinition _) (fun _ => rfl) fun _ pd => pd
  · exact made hp (resumes_queryDefinition _) (fun _ => rfl) fun _ pd => pd
  · exact made hp (resumes_filterDefinition _) (fun _ => rfl) fun _ pd => pd
  · exact made hp (resumes_orderDefinition _) (fun _ => rfl) fun _ pd => pd
  · exact ((completes_unexpected begun).withHint .definitionKeyword) hs hc (hp ▸ he)
  · exact completes_unexpected begun hs hc (hp ▸ he)

private theorem resumes_definitions (levels n : Nat) : Resumes (definitions (levels + 1) n)
    (LexemesOf (fun ds : List Definition => .all (ds.map Definition.form))
      fun ds => ds ≠ [] ∧ ∀ d ∈ ds, d.Conforms (levels + 1)) := by
  have one {d : Definition} {ls : List Lexeme} (pd : d.Conforms (levels + 1))
    (fd : d.form.Writes ls) :
      LexemesOf (fun ds : List Definition => .all (ds.map Definition.form))
        (fun ds => ds ≠ [] ∧ ∀ d ∈ ds, d.Conforms (levels + 1)) (ls ++ []) :=
    ⟨[d], ⟨List.cons_ne_nil _ _, by simpa using pd⟩, writes_all_cons fd writes_all_nil⟩
  induction n with
  | zero =>
    have begun : IsBegun (LexemesOf (fun ds : List Definition => .all (ds.map Definition.form))
        fun ds => ds ≠ [] ∧ ∀ d ∈ ds, d.Conforms (levels + 1)) :=
      (isBegun_definition (levels + 1)).mono fun ls ⟨d, pd, fd⟩ => List.append_nil ls ▸ one pd fd
    exact ⟨completes_unexpected begun, begun.isWritable⟩
  | succ n ih =>
    refine .bind (yields_definition _) (resumes_definition levels) fun d ls pd fd =>
      .token fun t => .ite ?_ ?_
    · refine ⟨(meetsNoMisfit_advance.bind fun _ => meetsNoMisfit_pure [d]).completes,
        [], ?_, one pd fd⟩
      exact fun _ hl => absurd hl List.not_mem_nil
    · refine Resumes.before (ih.mono fun ls' ⟨ds, pds, fds⟩ => ?_) fun ds =>
        meetsNoMisfit_pure (d :: ds)
      exact ⟨d :: ds, ⟨List.cons_ne_nil _ _, List.forall_mem_cons.2 ⟨pd, pds.2⟩⟩,
        writes_all_cons fd fds⟩

/-- Up to a misfit in a document there could have stood another one, if lists and objects may be
nested at all. -/
theorem goesOn_of_document {s : Setting} {c : Cursor} {e : SyntaxError} (hs : s.IsBare)
    (hc : c.IsSound s) (hdepth : 0 < s.maxDepth) (he : document s c = .error e)
    (hmisfit : e.cause.category.IsMisfit) :
    c.GoesOn e.position (LexemesOf Document.form (Document.Conforms s.maxDepth)) := by
  obtain ⟨levels, hlevels⟩ := Nat.exists_eq_add_one_of_ne_zero (Nat.ne_of_gt hdepth)
  rw [document, setting_bind, start_bind, hlevels] at he
  rw [hlevels]
  have resumes : Resumes (remaining >>= definitions (levels + 1))
      (LexemesOf Document.form (Document.Conforms (levels + 1))) :=
    .remaining fun n => (resumes_definitions levels n).mono fun ls ⟨ds, pds, fds⟩ =>
      ⟨⟨ds, none⟩, ⟨pds.1, pds.2⟩, fds⟩
  refine (resumes.before fun ds => ?_).completes hs hc he hmisfit
  exact (meetsNoMisfit_located _).bind fun loc => meetsNoMisfit_pure _

end SchemaLang.Parser
