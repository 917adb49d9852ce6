import SchemaLang.Proofs.Completeness.TypeRef
import SchemaLang.Proofs.Completeness.Value
import SchemaLang.Proofs.Soundness.Definition

/-!
# What the parsers of definitions accept

Every definition that conforms is read where its form stands. The part of a definition that stands
last may have any token behind it that starts the next part or closes the block around it.
-/

namespace SchemaLang.Parser

variable {s : Setting} {c c' : Cursor} {levels : Nat}

/-- What may stand behind a definition or an entry of a block: a name, a closing
bracket, or the end. -/
def EndsPart (t : Token) : Prop :=
  t.isName ∨ t = .punctuator .parenClose ∨ t = .punctuator .braceClose ∨ t = .endOfInput

private theorem EndsPart.ne_punctuator {t : Token} (h : EndsPart t) {p : Punctuator}
    (hp : p ≠ .parenClose ∧ p ≠ .braceClose) : t ≠ .punctuator p := by
  rintro rfl
  rcases h with h | h | h | h
  · exact absurd h (by simp [Token.isName])
  · exact hp.1 (Token.punctuator.inj h)
  · exact hp.2 (Token.punctuator.inj h)
  · exact absurd h (by simp)

private theorem EndsPart.endsDirectives {t : Token} (h : EndsPart t) : EndsDirectives t :=
  ⟨h.ne_punctuator (by decide), h.ne_punctuator (by decide)⟩

private theorem EndsPart.endsFieldType {t : Token} (h : EndsPart t) : EndsFieldType t := by
  refine ⟨?_, h.ne_punctuator (by decide)⟩
  cases t with
  | punctuator p =>
    rcases h with h | h | h | h
    · exact absurd h (by simp [Token.isName])
    · rw [h]; rfl
    · rw [h]; rfl
    · exact absurd h (by simp)
  | _ => rfl

/-- Directives start with an at sign, unless there are none. -/
theorem token_of_directives {ds : List Directive} (h : (Directive.forms ds).Spans s.locate c c') :
    c.current.token = .punctuator .atSign ∨ c' = c := by
  cases ds with
  | nil => exact .inr h
  | cons d ds =>
    obtain ⟨m, ⟨⟨_, ⟨ht, -⟩, -⟩, -⟩, -⟩ := h
    exact .inl ht

/-- In front of directives stands an at sign or what may stand behind them. -/
theorem follow_of_directives {Q : Token → Prop} {ds : List Directive}
    (h : (Directive.forms ds).Spans s.locate c c') (hat : Q (.punctuator .atSign))
    (hend : Q c'.current.token) : Q c.current.token := by
  rcases token_of_directives h with ht | rfl
  · rw [ht]
    exact hat
  · exact hend

private theorem accepts_inputValueDefinition (levels : Nat) : Accepts (inputValueDefinition levels)
    InputValueDefinition.form (InputValueDefinition.Conforms levels) EndsPart := by
  intro s c c' d ⟨_, pn, pt, pv, pds⟩ h hend
  obtain ⟨text, n, t, defaultValue, ds, loc⟩ := d
  obtain ⟨⟨m₁, fn, m₂, ⟨hcolon, hm⟩, m₃, ft, m₄, fdefault, _, fds, rfl⟩, rfl⟩ := h
  obtain ⟨rfl, hname⟩ := accepts_described pn fn
  have hds := accepts_directives levels pds fds hend.endsDirectives
  rw [inputValueDefinition, description_bind, start_bind, bind_of_ok hname,
    bind_of_ok (expect_of_moves hcolon hm)]
  cases defaultValue with
  | none =>
    obtain rfl := fdefault
    have hbang := follow_of_directives (Q := (· ≠ .punctuator .bang)) fds (by simp)
      (hend.ne_punctuator (by decide))
    have hequals := follow_of_directives (Q := (· ≠ .punctuator .equals)) fds (by simp)
      (hend.ne_punctuator (by decide))
    rw [bind_of_ok (accepts_plainType levels pt ft hbang), skip_bind, if_neg hequals]
    change (directives levels >>= _) s m₄ = _
    rw [bind_of_ok hds, located_bind]
    rfl
  | some v =>
    obtain ⟨m, ⟨ht, hm'⟩, _, fv, rfl⟩ := fdefault
    have hv : (some <$> value true levels) s m = .ok (some v, m₄) :=
      map_eq_ok.2 ⟨v, accepts_value true levels (pv v rfl) fv trivial, rfl⟩
    rw [bind_of_ok (accepts_plainType levels pt ft (by simp [ht])), skip_bind, if_pos ht,
      bind_of_ok (advance_of_moves hm'), if_pos rfl, bind_of_ok hv]
    change (directives levels >>= _) s m₄ = _
    rw [bind_of_ok hds, located_bind]
    rfl

private theorem accepts_argumentDefinitions (levels : Nat) : Accepts (argumentDefinitions levels)
    InputValueDefinition.argumentForms (∀ a ∈ ·, a.Conforms levels) (· ≠ .punctuator .parenOpen) :=
  accepts_optionalBlock (accepts_inputValueDefinition levels)
    (fun a _ => show a.form.Starts _ from ⟨.inl rfl, by simp⟩) (.inr (.inl rfl))

/-- A field is read if what reads its type goes on up to a directive or to the end of the field. -/
theorem accepts_fieldDefinitionOf {colon : Parser Unit} {type : Parser TypeRef}
    {admits : TypeRef → Prop} {follow : Token → Prop}
    (hcolon : ∀ {s : Setting} {c c' : Cursor}, c.current.token = .punctuator .colon → c.Moves c' →
      colon s c = .ok ((), c'))
    (htype : Accepts type TypeRef.form (TypeRef.Conforms admits levels) follow)
    (hat : follow (.punctuator .atSign)) (hfollow : ∀ t, EndsPart t → follow t) :
    Accepts (fieldDefinitionOf levels colon type) FieldDefinition.form
      (FieldDefinition.Conforms admits levels) EndsPart := by
  intro s c c' d ⟨_, pn, pas, pt, pds⟩ h hend
  obtain ⟨text, n, as, t, ds, loc⟩ := d
  obtain ⟨⟨m₁, fn, m₂, fas, m₃, ⟨ht, hm⟩, m₄, ft, _, fds, rfl⟩, rfl⟩ := h
  obtain ⟨rfl, hname⟩ := accepts_described pn fn
  have hft : follow m₄.current.token := follow_of_directives fds hat (hfollow _ hend)
  rw [fieldDefinitionOf, description_bind, start_bind, bind_of_ok hname,
    bind_of_ok (accepts_argumentDefinitions levels pas fas (by simp [ht])),
    bind_of_ok (hcolon ht hm), bind_of_ok (htype pt ft hft),
    bind_of_ok (accepts_directives levels pds fds hend.endsDirectives), located_bind]
  rfl

private theorem accepts_fieldDefinition (levels : Nat) :
    Accepts (fieldDefinition levels) FieldDefinition.form
      (FieldDefinition.Conforms (TypeRef.IsOrNonNull TypeRef.IsFieldBase) levels) EndsPart :=
  accepts_fieldDefinitionOf (fun ht hm => withHint_eq_ok.2 (expect_of_moves ht hm))
    (accepts_fieldType levels)
    ⟨rfl, by simp⟩ fun _ h => h.endsFieldType

private theorem accepts_mutationFieldDefinition (levels : Nat) :
    Accepts (mutationFieldDefinition levels) FieldDefinition.form
      (FieldDefinition.Conforms (TypeRef.IsOrNonNull TypeRef.IsMutationFieldBase) levels)
      EndsPart :=
  accepts_fieldDefinitionOf expect_of_moves (accepts_mutationFieldType levels) (by simp)
    fun _ h => h.ne_punctuator (by decide)

private theorem accepts_queryFieldDefinition (levels : Nat) :
    Accepts (queryFieldDefinition levels) FieldDefinition.form
      (FieldDefinition.Conforms TypeRef.IsPlain levels) EndsPart :=
  accepts_fieldDefinitionOf expect_of_moves (accepts_plainType levels) (by simp)
    fun _ h => h.ne_punctuator (by decide)

private theorem accepts_enumValueDefinition (levels : Nat) :
    Accepts (enumValueDefinition levels) EnumValueDefinition.form
      (EnumValueDefinition.Conforms levels) EndsDirectives := by
  intro s c c' d ⟨_, pn, pds⟩ h hend
  obtain ⟨text, n, ds, loc⟩ := d
  obtain ⟨⟨m₁, fn, _, fds, rfl⟩, rfl⟩ := h
  obtain ⟨rfl, hname⟩ := accepts_described pn fn
  rw [enumValueDefinition, description_bind, start_bind, bind_of_ok hname,
    bind_of_ok (accepts_directives levels pds fds hend), located_bind]
  rfl

/-- An entry that starts with a name is told apart from the end of its block. -/
theorem starts_entry {F : Form} {p : Punctuator} (h : F.Starts fun t => t.isName) :
    F.Starts fun t => EndsPart t ∧ t ≠ .punctuator p :=
  h.imp fun t ht => ⟨.inl ht, by rintro rfl; exact absurd ht (by simp [Token.isName])⟩

private theorem accepts_filterCondition (levels : Nat) :
    Accepts (filterCondition levels) FilterCondition.form (FilterCondition.Conforms levels)
      fun _ => True := by
  intro s c c' d ⟨pk, pas, po⟩ h _
  obtain ⟨k, as, o, loc⟩ := d
  obtain ⟨⟨m₁, fk, m₂, ⟨ht, hm⟩, m₃, fas, _, fo, rfl⟩, rfl⟩ := h
  have hbrace : m₃.current.token = .punctuator .braceOpen := fo.1.choose_spec.1.1
  rw [filterCondition, start_bind,
    bind_of_ok (accepts_enumValueDefinition levels pk fk (by simp [EndsDirectives, ht])),
    bind_of_ok (expect_of_moves ht hm),
    bind_of_ok (accepts_argumentDefinitions levels pas fas (by simp [hbrace])),
    bind_of_ok (accepts_objectValue levels po fo trivial), located_bind]
  rfl

private theorem accepts_orderObjects (levels : Nat) :
    Accepts (orderObjects levels) OrderExpression.objectsForm
      (fun os => os ≠ [] ∧ ∀ o ∈ os, o.Conforms levels) fun _ => True := by
  intro s c c' os pos h _
  have hblock
    (h : (Form.block .bracketOpen .bracketClose (os.map ObjectValue.form)).Spans s.locate c c') :
      block1 .bracketOpen .bracketClose (objectValue levels) s c = .ok (os, c') :=
    accepts_block1 (accepts_objectValue levels)
      (fun o _ => show o.form.Starts _ from ⟨trivial, by simp⟩) trivial pos h trivial
  rw [orderObjects, peek_bind]
  rcases os with _ | ⟨o, _ | ⟨o', os⟩⟩
  · exact absurd rfl pos.1
  · rcases h with fo | ⟨m, m', ⟨ht, hm⟩, fo, ht', hm'⟩
    · have hbrace : c.current.token = .punctuator .braceOpen := fo.1.choose_spec.1.1
      rw [if_neg (by simp [hbrace]),
        bind_of_ok (accepts_objectValue levels (pos.2 o List.mem_cons_self) fo trivial)]
      rfl
    · rw [if_pos (by simpa using ht)]
      exact hblock ⟨m, ⟨ht, hm⟩, m', ⟨m', fo, rfl⟩, c', ⟨ht', hm'⟩, rfl⟩
  · have ht : c.current.token = .punctuator .bracketOpen := h.choose_spec.1.1
    rw [if_pos (by simpa using ht)]
    exact hblock h

private theorem accepts_orderExpression (levels : Nat) :
    Accepts (orderExpression levels) OrderExpression.form (OrderExpression.Conforms levels)
      fun _ => True := by
  intro s c c' e ⟨pk, hne, pos⟩ h _
  obtain ⟨k, os, loc⟩ := e
  obtain ⟨⟨m₁, fk, m₂, ⟨ht, hm⟩, _, fos, rfl⟩, rfl⟩ := h
  rw [orderExpression, start_bind,
    bind_of_ok (accepts_enumValueDefinition levels pk fk (by simp [EndsDirectives, ht])),
    bind_of_ok (expect_of_moves ht hm),
    bind_of_ok (accepts_orderObjects levels ⟨hne, pos⟩ fos trivial), located_bind]
  rfl

private theorem accepts_scalarTypeDefinition (levels : Nat) :
    Accepts (description >>= scalarTypeDefinition levels) ScalarTypeDefinition.form
      (ScalarTypeDefinition.Conforms levels) EndsPart := by
  intro s c c' d ⟨_, pn, pds⟩ h hend
  obtain ⟨text, n, ds, loc⟩ := d
  obtain ⟨⟨m₁, ⟨rfl, ht, hm⟩, m₂, fn, _, fds, rfl⟩, rfl⟩ := h
  rw [description_bind, scalarTypeDefinition, start_bind, bind_of_ok (keyword_of_moves ht hm),
    bind_of_ok (accepts_name pn fn trivial),
    bind_of_ok (accepts_directives levels pds fds hend.endsDirectives), located_bind]
  rfl

private theorem accepts_interfaces :
    Accepts interfaces interfaceForms (∀ t ∈ ·, t.Conforms) fun t => t.isName = false := by
  intro s c c' ts pts h hend
  rw [interfaces, token_bind]
  cases ts with
  | nil =>
    obtain rfl := h
    have hne : c'.current.token ≠ .name "implements" := by
      intro ht
      rw [ht] at hend
      exact absurd hend (by simp [Token.isName])
    rw [if_neg hne]
    rfl
  | cons t ts =>
    obtain ⟨pt, pts⟩ := List.forall_mem_cons.1 pts
    obtain ⟨m₁, ⟨ht, hm⟩, m₂, ft, _, fts, rfl⟩ := h
    have hmany := accepts_many accepts_namedType
      (fun t _ => show t.form.Starts (fun t => True ∧ t.isName) from ⟨trivial, rfl⟩) pts
        fts ⟨trivial, hend⟩
    rw [if_pos ht, bind_of_ok (advance_of_moves hm), bind_of_ok (accepts_namedType pt ft trivial),
      bind_of_ok hmany]
    rfl

/-- An object's definition is read behind the word that it starts with, whatever
description it is given. -/
theorem accepts_objectTypeDefinition_from {first : Form} {d : ObjectTypeDefinition}
    (hd : d.Conforms levels)
    (hfirst : ∀ m, first.Spans s.locate c m → (Form.word "type").Spans s.locate c m)
    (h : (d.formFrom first).Spans s.locate c c') :
    objectTypeDefinition levels d.description s c = .ok (d, c') := by
  obtain ⟨_, pn, pis, pds, pfs⟩ := hd
  obtain ⟨text, n, is, ds, fs, loc⟩ := d
  obtain ⟨⟨m₁, ffirst, m₂, fn, m₃, fis, m₄, fds, _, ffs, rfl⟩, rfl⟩ := h
  obtain ⟨ht, hm⟩ := hfirst m₁ ffirst
  have hbrace : m₄.current.token = .punctuator .braceOpen := ffs.choose_spec.1.1
  have hname := follow_of_directives (Q := fun t => t.isName = false) fds rfl (by rw [hbrace]; rfl)
  have hblock := accepts_block (accepts_fieldDefinition levels)
    (fun f _ => show f.form.Starts _ from starts_entry rfl) (.inr (.inr (.inl rfl))) pfs ffs trivial
  rw [objectTypeDefinition, start_bind, bind_of_ok (keyword_of_moves ht hm),
    bind_of_ok (accepts_name pn fn trivial), bind_of_ok (accepts_interfaces pis fis hname),
    bind_of_ok (accepts_directives levels pds fds (by simp [EndsDirectives, hbrace])),
    bind_of_ok hblock, located_bind]
  rfl

private theorem accepts_objectTypeDefinition (levels : Nat) :
    Accepts (description >>= objectTypeDefinition levels) ObjectTypeDefinition.form
      (ObjectTypeDefinition.Conforms levels) fun _ => True := by
  intro s c c' d pd h _
  have hd : c.current.description = d.description := by
    obtain ⟨⟨_, ⟨hd, -⟩, -⟩, -⟩ := h
    exact hd
  have hfirst : ∀ m, (Form.heading d.description "type").Spans s.locate c m →
      (Form.word "type").Spans s.locate c m := fun _ hm => hm.2
  rw [description_bind, hd]
  exact accepts_objectTypeDefinition_from pd hfirst h

private theorem accepts_interfaceTypeDefinition (levels : Nat) :
    Accepts (description >>= interfaceTypeDefinition levels) InterfaceTypeDefinition.form
      (InterfaceTypeDefinition.Conforms levels) fun _ => True := by
  intro s c c' d ⟨_, pn, pds, pfs⟩ h _
  obtain ⟨text, n, ds, fs, loc⟩ := d
  obtain ⟨⟨m₁, ⟨rfl, ht, hm⟩, m₂, fn, m₃, fds, _, ffs, rfl⟩, rfl⟩ := h
  have hbrace : m₃.current.token = .punctuator .braceOpen := ffs.choose_spec.1.1
  have hblock := accepts_block (accepts_fieldDefinition levels)
    (fun f _ => show f.form.Starts _ from starts_entry rfl) (.inr (.inr (.inl rfl))) pfs ffs trivial
  rw [description_bind, interfaceTypeDefinition, start_bind, bind_of_ok (keyword_of_moves ht hm),
    bind_of_ok (accepts_name pn fn trivial),
    bind_of_ok (accepts_directives levels pds fds (by simp [EndsDirectives, hbrace])),
    bind_of_ok hblock, located_bind]
  rfl

private theorem accepts_unionTypeDefinition (levels : Nat) :
    Accepts (description >>= unionTypeDefinition levels) UnionTypeDefinition.form
      (UnionTypeDefinition.Conforms levels) EndsPart := by
  intro s c c' d ⟨_, pn, pds, hne, pts⟩ h hend
  obtain ⟨text, n, ds, ts, loc⟩ := d
  obtain ⟨⟨m₁, ⟨rfl, ht, hm⟩, m₂, fn, m₃, fds, m₄, ⟨hequals, hm'⟩, _, fts, rfl⟩, rfl⟩ := h
  have hts := accepts_separatedBy accepts_namedType trivial ⟨hne, pts⟩ fts ⟨trivial,
    hend.ne_punctuator (by decide)⟩
  rw [description_bind, unionTypeDefinition, start_bind, bind_of_ok (keyword_of_moves ht hm),
    bind_of_ok (accepts_name pn fn trivial),
    bind_of_ok (accepts_directives levels pds fds (by simp [EndsDirectives, hequals])),
    bind_of_ok (expect_of_moves hequals hm'), bind_of_ok hts, located_bind]
  rfl

private theorem accepts_enumTypeDefinition (levels : Nat) :
    Accepts (description >>= enumTypeDefinition levels) EnumTypeDefinition.form
      (EnumTypeDefinition.Conforms levels) fun _ => True := by
  intro s c c' d ⟨_, pn, pds, hne, pvs⟩ h _
  obtain ⟨text, n, ds, vs, loc⟩ := d
  obtain ⟨⟨m₁, ⟨rfl, ht, hm⟩, m₂, fn, m₃, fds, _, fvs, rfl⟩, rfl⟩ := h
  have hbrace : m₃.current.token = .punctuator .braceOpen := fvs.choose_spec.1.1
  have hstart (v : EnumValueDefinition) : v.form.Starts fun t =>
      EndsDirectives t ∧ t ≠ .punctuator .braceClose :=
    show v.form.Starts _ from ⟨⟨by simp, by simp⟩, by simp⟩
  have hblock := accepts_block1 (accepts_enumValueDefinition levels) (fun v _ => hstart v)
    (by simp [EndsDirectives]) ⟨hne, pvs⟩ fvs trivial
  rw [description_bind, enumTypeDefinition, start_bind, bind_of_ok (keyword_of_moves ht hm),
    bind_of_ok (accepts_name pn fn trivial),
    bind_of_ok (accepts_directives levels pds fds (by simp [EndsDirectives, hbrace])),
    bind_of_ok hblock, located_bind]
  rfl

private theorem accepts_inputObjectTypeDefinition (levels : Nat) :
    Accepts (description >>= inputObjectTypeDefinition levels) InputObjectTypeDefinition.form
      (InputObjectTypeDefinition.Conforms levels) fun _ => True := by
  intro s c c' d ⟨_, pn, pds, pfs⟩ h _
  obtain ⟨text, n, ds, fs, loc⟩ := d
  obtain ⟨⟨m₁, ⟨rfl, ht, hm⟩, m₂, fn, m₃, fds, _, ffs, rfl⟩, rfl⟩ := h
  have hbrace : m₃.current.token = .punctuator .braceOpen := ffs.choose_spec.1.1
  have hblock := accepts_block (accepts_inputValueDefinition levels)
    (fun f _ => show f.form.Starts _ from starts_entry rfl) (.inr (.inr (.inl rfl))) pfs ffs trivial
  rw [description_bind, inputObjectTypeDefinition, start_bind, bind_of_ok (keyword_of_moves ht hm),
    bind_of_ok (accepts_name pn fn trivial),
    bind_of_ok (accepts_directives levels pds fds (by simp [EndsDirectives, hbrace])),
    bind_of_ok hblock, located_bind]
  rfl

private theorem accepts_typeExtensionDefinition (levels : Nat) :
    Accepts (description >>= typeExtensionDefinition levels) TypeExtensionDefinition.form
      (TypeExtensionDefinition.Conforms levels) fun _ => True := by
  intro s c c' d ⟨_, po, hnone⟩ h _
  obtain ⟨text, o, loc⟩ := d
  obtain ⟨⟨m₁, ⟨rfl, ht, hm⟩, _, fo, rfl⟩, rfl⟩ := h
  have ho := accepts_objectTypeDefinition_from po (fun _ hm => hm) fo
  rw [hnone] at ho
  rw [description_bind, typeExtensionDefinition, start_bind,
    bind_of_ok (keyword_of_moves ht hm), bind_of_ok ho, located_bind]
  rfl

private theorem accepts_directiveDefinition (levels : Nat) :
    Accepts (description >>= directiveDefinition levels) DirectiveDefinition.form
      (DirectiveDefinition.Conforms levels) EndsPart := by
  intro s c c' d ⟨_, pn, pas, hne, pns⟩ h hend
  obtain ⟨text, n, as, ns, loc⟩ := d
  obtain ⟨⟨m₁, ⟨rfl, ht, hm⟩, m₂, ⟨hat, hm'⟩, m₃, fn, m₄, fas, m₅, ⟨hon, hm''⟩, _, fns, rfl⟩,
    rfl⟩ := h
  have hns := accepts_separatedBy accepts_name trivial ⟨hne, pns⟩ fns ⟨trivial,
    hend.ne_punctuator (by decide)⟩
  rw [description_bind, directiveDefinition, start_bind, bind_of_ok (keyword_of_moves ht hm),
    bind_of_ok (expect_of_moves hat hm'), bind_of_ok (accepts_name pn fn trivial),
    bind_of_ok (accepts_argumentDefinitions levels pas fas (by simp [hon])),
    bind_of_ok (keyword_of_moves hon hm''), bind_of_ok hns, located_bind]
  rfl

private theorem accepts_operationResult {fields : Parser (List FieldDefinition)}
    {P : List FieldDefinition → Prop}
    (hf : Accepts fields (fun fs => .block .braceOpen .braceClose (fs.map FieldDefinition.form)) P
      fun _ => True) {ds : List Directive} {r : OperationResult} (pds : ∀ d ∈ ds, d.Conforms levels)
      (pr : r.Conforms P levels)
    (h : (r.form ds).Spans s.locate c c') (hend : EndsPart c'.current.token) :
    operationResult levels fields s c = .ok ((ds, r), c') := by
  rw [operationResult, skip_bind]
  cases r with
  | type t =>
    obtain ⟨m₁, ⟨ht, hm⟩, m₂, ft, _, fds, rfl⟩ := h
    have hbang := follow_of_directives (Q := (· ≠ .punctuator .bang)) fds (by simp)
      (hend.ne_punctuator (by decide))
    rw [if_pos ht, bind_of_ok (advance_of_moves hm), if_pos rfl,
      bind_of_ok (accepts_plainType levels pr ft hbang),
      bind_of_ok (accepts_directives levels pds fds hend.endsDirectives)]
    rfl
  | fields fs =>
    obtain ⟨m₁, fds, _, ffs, rfl⟩ := h
    have hbrace : m₁.current.token = .punctuator .braceOpen := ffs.choose_spec.1.1
    have hcolon :=
      follow_of_directives (Q := (· ≠ .punctuator .colon)) fds (by simp) (by simp [hbrace])
    rw [if_neg hcolon, if_neg Bool.false_ne_true,
      bind_of_ok (accepts_directives levels pds fds (by simp [EndsDirectives, hbrace])),
      bind_of_ok (hf pr ffs trivial)]
    rfl

private theorem accepts_operationDefinition (word : String) {fields : Parser (List FieldDefinition)}
    {P : List FieldDefinition → Prop}
    (hf : Accepts fields (fun fs => .block .braceOpen .braceClose (fs.map FieldDefinition.form)) P
      fun _ => True) :
    Accepts (description >>= operationDefinition word levels fields) (OperationDefinition.form word)
      (OperationDefinition.Conforms P levels) EndsPart := by
  intro s c c' d ⟨_, pn, pas, pds, pr⟩ h hend
  obtain ⟨text, n, as, ds, r, loc⟩ := d
  obtain ⟨⟨m₁, ⟨rfl, ht, hm⟩, m₂, fn, m₃, fas, _, fr, rfl⟩, rfl⟩ := h
  have hparen : m₃.current.token ≠ .punctuator .parenOpen := by
    cases r with
    | type t =>
      obtain ⟨_, ⟨hcolon, -⟩, -⟩ := fr
      simp [hcolon]
    | fields fs =>
      obtain ⟨m, fds, _, ffs, -⟩ := fr
      have hbrace : m.current.token = .punctuator .braceOpen := ffs.choose_spec.1.1
      exact follow_of_directives (Q := (· ≠ .punctuator .parenOpen)) fds (by simp)
        (by simp [hbrace])
  rw [description_bind, operationDefinition, start_bind, bind_of_ok (keyword_of_moves ht hm),
    bind_of_ok (accepts_name pn fn trivial),
    bind_of_ok (accepts_argumentDefinitions levels pas fas hparen),
    bind_of_ok (accepts_operationResult hf pds pr fr hend)]
  change (located _ >>= _) s _ = _
  rw [located_bind]
  rfl

private theorem accepts_mutationDefinition (levels : Nat) :
    Accepts (description >>= mutationDefinition levels) (OperationDefinition.form "mutation")
      (OperationDefinition.Conforms (ConformMutationFields levels) levels) EndsPart :=
  accepts_operationDefinition "mutation" (accepts_block (accepts_mutationFieldDefinition levels)
    (fun f _ => show f.form.Starts _ from starts_entry rfl) (.inr (.inr (.inl rfl))))

private theorem accepts_queryDefinition (levels : Nat) :
    Accepts (description >>= queryDefinition levels) (OperationDefinition.form "query")
      (OperationDefinition.Conforms (ConformQueryFields levels) levels) EndsPart :=
  accepts_operationDefinition "query" (accepts_block1 (accepts_queryFieldDefinition levels)
    (fun f _ => show f.form.Starts _ from starts_entry rfl) (.inr (.inr (.inl rfl))))

private theorem accepts_filterDefinition (levels : Nat) :
    Accepts (description >>= filterDefinition levels) FilterDefinition.form
      (FilterDefinition.Conforms levels) fun _ => True := by
  intro s c c' d ⟨_, pt, pcs⟩ h _
  obtain ⟨text, t, cs, loc⟩ := d
  obtain ⟨⟨m₁, ⟨rfl, ht, hm⟩, m₂, ⟨hon, hm'⟩, m₃, ft, _, fcs, rfl⟩, rfl⟩ := h
  have hblock := accepts_block (accepts_filterCondition levels)
    (fun c _ => show c.form.Starts _ from ⟨trivial, by simp⟩) trivial pcs fcs trivial
  rw [description_bind, filterDefinition, start_bind, bind_of_ok (keyword_of_moves ht hm),
    bind_of_ok (keyword_of_moves hon hm'), bind_of_ok (accepts_targetType levels pt ft trivial),
    bind_of_ok hblock, located_bind]
  rfl

private theorem accepts_orderDefinition (levels : Nat) :
    Accepts (description >>= orderDefinition levels) OrderDefinition.form
      (OrderDefinition.Conforms levels) fun _ => True := by
  intro s c c' d ⟨_, pt, pes⟩ h _
  obtain ⟨text, t, es, loc⟩ := d
  obtain ⟨⟨m₁, ⟨rfl, ht, hm⟩, m₂, ⟨hon, hm'⟩, m₃, ft, _, fes, rfl⟩, rfl⟩ := h
  have hblock := accepts_block (accepts_orderExpression levels)
    (fun e _ => show e.form.Starts _ from ⟨trivial, by simp⟩) trivial pes fes trivial
  rw [description_bind, orderDefinition, start_bind, bind_of_ok (keyword_of_moves ht hm),
    bind_of_ok (keyword_of_moves hon hm'), bind_of_ok (accepts_targetType levels pt ft trivial),
    bind_of_ok hblock, located_bind]
  rfl

/-- The word that a definition starts with. -/
def Definition.word : Definition → String
  | .scalar _ => "scalar"
  | .object _ => "type"
  | .interface _ => "interface"
  | .union _ => "union"
  | .enum _ => "enum"
  | .inputObject _ => "input"
  | .typeExtension _ => "extend"
  | .directive _ => "directive"
  | .mutation _ => "mutation"
  | .query _ => "query"
  | .filter _ => "filter"
  | .order _ => "order"

theorem starts_definition (d : Definition) : d.form.Starts (· = .name (Definition.word d)) := by
  cases d <;> rfl

private theorem accepts_definition (levels : Nat) :
    Accepts (definition levels) Definition.form (Definition.Conforms levels) EndsPart := by
  intro s c c' d pd h hend
  have ht := ((starts_definition d).of_spans h).1
  rw [definition, description_bind, token_bind, ht]
  cases d with
  | scalar d => exact map_eq_ok.2 ⟨d, accepts_scalarTypeDefinition levels pd h hend, rfl⟩
  | object d => exact map_eq_ok.2 ⟨d, accepts_objectTypeDefinition levels pd h trivial, rfl⟩
  | interface d => exact map_eq_ok.2 ⟨d, accepts_interfaceTypeDefinition levels pd h trivial, rfl⟩
  | union d => exact map_eq_ok.2 ⟨d, accepts_unionTypeDefinition levels pd h hend, rfl⟩
  | enum d => exact map_eq_ok.2 ⟨d, accepts_enumTypeDefinition levels pd h trivial, rfl⟩
  | inputObject d =>
    exact map_eq_ok.2 ⟨d, accepts_inputObjectTypeDefinition levels pd h trivial, rfl⟩
  | typeExtension d =>
    exact map_eq_ok.2 ⟨d, accepts_typeExtensionDefinition levels pd h trivial, rfl⟩
  | directive d => exact map_eq_ok.2 ⟨d, accepts_directiveDefinition levels pd h hend, rfl⟩
  | mutation d => exact map_eq_ok.2 ⟨d, accepts_mutationDefinition levels pd h hend, rfl⟩
  | query d => exact map_eq_ok.2 ⟨d, accepts_queryDefinition levels pd h hend, rfl⟩
  | filter d => exact map_eq_ok.2 ⟨d, accepts_filterDefinition levels pd h trivial, rfl⟩
  | order d => exact map_eq_ok.2 ⟨d, accepts_orderDefinition levels pd h trivial, rfl⟩

/-- Definitions are read up to the end of the input if it stands behind them. -/
theorem accepts_definitions {ds : List Definition} (hne : ds ≠ [])
    (pds : ∀ d ∈ ds, d.Conforms levels) {n : Nat} (hn : ds.length ≤ n)
    (h : (Form.all (ds.map Definition.form)).Spans s.locate c c')
    (hend : c'.current.token = .endOfInput) {c'' : Cursor} (hadv : advance s c' = .ok ((), c'')) :
    definitions levels n s c = .ok (ds, c'') := by
  induction ds generalizing c n with
  | nil => exact absurd rfl hne
  | cons d ds ih =>
    obtain ⟨n, rfl⟩ : ∃ k, n = k + 1 := ⟨n - 1, by simp at hn; omega⟩
    obtain ⟨pd, pds⟩ := List.forall_mem_cons.1 pds
    obtain ⟨m, fd, fds⟩ := h
    rw [definitions]
    cases ds with
    | nil =>
      obtain rfl := fds
      rw [bind_of_ok (accepts_definition levels pd fd (.inr (.inr (.inr hend)))),
        token_bind, if_pos hend, bind_of_ok hadv]
      rfl
    | cons e es =>
      have he := ((starts_definition e).of_spans fds.choose_spec.1).1
      rw [bind_of_ok (accepts_definition levels pd fd (.inl (by rw [he]; rfl))), token_bind,
        if_neg (by simp [he]),
        bind_of_ok (ih (List.cons_ne_nil _ _) pds (Nat.le_of_succ_le_succ hn) fds)]
      rfl

end SchemaLang.Parser
