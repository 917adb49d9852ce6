import SchemaLang.Printer.Render
import SchemaLang.Proofs.Descriptions
import SchemaLang.Proofs.Printing.Layout
import SchemaLang.Proofs.Syntax

/-!
# The canonical text spells the form

The canonical text of every node that conforms has exactly the tokens of the node's form, in order
and descriptions included. No two of them run into one another, and none is lost where a part is
left out or set on lines of its own. The descriptions of the node need not be in the contract for
this, as long as what is read of them is.
-/

namespace SchemaLang

/-- The tokens of directives one after the other. -/
theorem Form.tokens_map {α : Type} (form : α → Form) (xs : List α) :
    (all (xs.map form)).tokens = (xs.map fun x => (form x).tokens).flatten := by
  rw [tokens_all, List.map_map]
  rfl

private theorem Form.tokens_parentheses_map {α : Type} (form : α → Form) (xs : List α) :
    (optionalBlock .parenOpen .parenClose (xs.map form)).tokens =
      parenthesized (xs.map fun x => (form x).tokens) := by
  rw [tokens_parentheses, List.map_map]
  rfl

private theorem Form.tokens_braces_map {α : Type} (form : α → Form) (xs : List α) :
    (block .braceOpen .braceClose (xs.map form)).tokens =
      braced (xs.map fun x => (form x).tokens) := by
  rw [tokens_block, List.map_map]
  rfl

private theorem Form.tokens_separated_map {α : Type} (p : Punctuator)
    (form : α → Form) (xs : List α) : (separated p (xs.map form)).tokens =
      [.punctuator p].intercalate (xs.map fun x => (form x).tokens) := by
  rw [tokens_separated, List.map_map]
  rfl

theorem Name.spells {n : Name} (h : n.Conforms) : Spells n.render n.form.tokens := spells_name h

theorem NamedType.spells {t : NamedType} (h : t.Conforms) :
    Spells t.render t.form.tokens := Name.spells h

mutual

theorem Value.spells {constant : Bool} :
    ∀ v : Value, v.IsWritable constant → Spells v.render v.form.tokens
  | .var n _, h => spells_after "$" (by decide) (by
      have hn := Name.spells h.2
      rw [← List.append_nil n.form.tokens] at hn
      exact hn)
  | .int text _, h => spells_number false h
  | .float text _, h => spells_number true h
  | .string text _, _ => spells_quote text
  | .boolean true _, _ => show Spells "true" _ from spells_name (by decide)
  | .boolean false _, _ => show Spells "false" _ from spells_name (by decide)
  | .enum text _, h => spells_name h.1
  | .list vs loc, h => by
      have hlist := spells_listOf (Value.spellAll vs h)
      rw [← Form.tokens_block .bracketOpen .bracketClose] at hlist
      exact hlist
  | .object fs loc, h => by
      have hobject := spells_objectOf (Value.spellAll_fields fs h)
      rw [braced, ← Form.tokens_block .braceOpen .braceClose] at hobject
      exact hobject

theorem Value.spellAll {constant : Bool} :
    ∀ vs : List Value, Value.AreWritable constant vs →
      SpellAll (renderValues vs) ((Value.forms vs).map Form.tokens)
  | [], _ => .nil
  | v :: vs, h => .cons (Value.spells v h.1) (Value.spellAll vs h.2)

theorem Value.spellAll_fields {constant : Bool} :
    ∀ fs : List ObjectField, Value.FieldsAreWritable constant fs →
      SpellAll (renderFields fs) ((Value.fieldForms fs).map Form.tokens)
  | [], _ => .nil
  | ⟨_, v, _⟩ :: fs, h =>
      .cons (spells_member (Name.spells h.1.1) (Value.spells v h.1.2))
        (Value.spellAll_fields fs h.2)

end

theorem ObjectValue.spells {depth : Nat} {o : ObjectValue} (h : o.Conforms depth) :
    Spells o.render o.form.tokens :=
  Value.spells o.toValue h.1

theorem Argument.spells {depth : Nat} {a : Argument} (h : a.Conforms depth) :
    Spells a.render a.form.tokens :=
  spells_member (Name.spells h.1) (Value.spells a.value h.2.1)

theorem Directive.spells {depth : Nat} {d : Directive} (h : d.Conforms depth) :
    Spells d.render d.form.tokens := by
  have hne : ∀ ts ∈ d.arguments.map fun a => a.form.tokens, ts ≠ [] :=
    List.forall_mem_map.2 fun _ _ => List.cons_ne_nil _ _
  have hspells :=
    spells_directive (Name.spells h.1) (spellAll_map fun a ha => Argument.spells (h.2 a ha)) hne
  rw [← Form.tokens_parentheses_map] at hspells
  exact hspells

/-- Directives one by one. -/
theorem Directive.spellAll {depth : Nat} {ds : List Directive} (h : ∀ d ∈ ds, d.Conforms depth) :
    SpellAll (ds.map (·.render)) (ds.map fun d => d.form.tokens) :=
  spellAll_map fun d hd => Directive.spells (h d hd)

private theorem Directive.tokens_forms (ds : List Directive) :
    (Directive.forms ds).tokens = (ds.map fun d => d.form.tokens).flatten := Form.tokens_map _ ds

/-- The label of an arrow, or nothing, does not start with a digit. -/
theorem NamedType.spells_label {label : Option NamedType} (h : ∀ l ∈ label, l.Conforms) :
    Spells (NamedType.renderLabel label) (labelForm label).tokens ∧
      ∀ c ∈ (NamedType.renderLabel label).toList.head?, c.isDigit = false := by
  cases label with
  | none => exact ⟨spells_empty, by simp [NamedType.renderLabel]⟩
  | some l =>
    refine ⟨NamedType.spells (h l rfl), ?_⟩
    obtain ⟨c, cs, hcs, hc, -⟩ : IsName l.name.value := h l rfl
    intro d hd
    change d ∈ l.name.value.toList.head? at hd
    rw [hcs] at hd
    obtain rfl : c = d := by simpa using hd
    exact not_isDigit_of_isNameStart hc

private theorem spells_arrow (direction : Direction) (cardinality : Cardinality)
    {label : Option NamedType} {t : NamedType} (hlabel : ∀ l ∈ label, l.Conforms)
    (ht : t.Conforms) :
    Spells (Layout.hop direction cardinality (NamedType.renderLabel label) t.render)
      (arrowForm direction cardinality label t).tokens := by
  obtain ⟨hspells, hhead⟩ := NamedType.spells_label hlabel
  have h := spells_hop direction cardinality hspells hhead (NamedType.spells ht)
  cases direction <;> cases cardinality <;> exact h

theorem ConnectionType.spells {t : ConnectionType} (h : t.Conforms) :
    Spells t.render t.form.tokens :=
  spells_arrow t.direction t.cardinality h.2 h.1

theorem EdgeType.spells {t : EdgeType} (h : t.Conforms) : Spells t.render t.form.tokens :=
  spells_arrow t.direction .plural h.2 h.1

/-- A list type around a type. -/
theorem spells_listType {text : String} {ts : List Token} (h : Spells text ts) :
    Spells (Layout.listType text) [[.punctuator .bracketOpen], ts,
      [.punctuator .bracketClose]].flatten :=
  spells_before _ (by decide) (spells_after "[" (by decide) h)

/-- The mark that a type is required. -/
theorem spells_nonNullType {text : String} {ts : List Token} (h : Spells text ts) :
    Spells (Layout.nonNullType text) [ts, [.punctuator .bang]].flatten :=
  spells_before "!" (by decide) h

namespace TypeRef

private theorem spells_of_isPlain {t : TypeRef} (h : t.IsPlain) :
    Spells t.render t.form.tokens := by
  induction t with
  | named t => exact NamedType.spells h
  | list t loc ih => exact spells_listType (ih h)
  | nonNull t loc ih =>
    cases t with
    | named t => exact spells_nonNullType (NamedType.spells h)
    | list t loc => exact spells_nonNullType (ih h)
    | _ => exact h.elim
  | _ => exact h.elim

/-- A type that is required is spelled if the type itself is. -/
theorem spells_of_isOrNonNull {base : TypeRef → Prop}
    (hbase : ∀ t, base t → Spells t.render t.form.tokens) {t : TypeRef} (h : t.IsOrNonNull base) :
    Spells t.render t.form.tokens := by
  rcases h with h | ⟨u, loc, rfl, hu⟩
  · exact hbase t h
  · exact spells_nonNullType (hbase u hu)

private theorem spells_of_isFieldBase {t : TypeRef} (h : t.IsFieldBase) :
    Spells t.render t.form.tokens := by
  cases t with
  | named t => exact NamedType.spells h
  | list t loc => exact spells_listType (spells_of_isPlain h)
  | connection t => exact ConnectionType.spells h
  | connectionJoin t =>
    have hspells := spells_spaced (spellAll_map fun c hc => ConnectionType.spells (h.2 c hc))
    rw [← Form.tokens_map] at hspells
    exact hspells
  | nonNull t loc => exact h.elim
  | edge t => exact h.elim

private theorem spells_of_isMutationFieldBase {t : TypeRef} (h : t.IsMutationFieldBase) :
    Spells t.render t.form.tokens := by
  cases t with
  | named t => exact NamedType.spells h
  | list t loc => exact spells_listType (spells_of_isPlain h)
  | edge t => exact EdgeType.spells h
  | connection t => exact h.elim
  | connectionJoin t => exact h.elim
  | nonNull t loc => exact h.elim

private theorem spells_of_isTarget {t : TypeRef} (h : t.IsTarget) :
    Spells t.render t.form.tokens := by
  cases t with
  | named t => exact NamedType.spells h
  | list t loc => exact spells_listType (spells_of_isPlain h)
  | connection t => exact ConnectionType.spells h
  | edge t => exact h.elim
  | connectionJoin t => exact h.elim
  | nonNull t loc => exact h.elim

end TypeRef

/-- In front of anything, a description is read as what `read` makes of it, wherever
that conforms. -/
def ReadsDescriptions (read : String → Option String) : Prop :=
  ∀ d text ts, ConformsDescription (d.bind read) → Spells text ts →
    Spells (Layout.described d text) (descriptionTokens (d.bind read) ++ ts)

/-- What of a description is read: nothing that conforms if one of its lines is not
read to its end. -/
def Text.asRead (text : String) : Option String :=
  if HasUnbrokenLines text then some (trimLines text) else some text

/-- A description that conforms is read as it is. -/
theorem readsDescriptions_some : ReadsDescriptions some := by
  intro d text ts hd h
  rw [Option.bind_fun_some] at hd ⊢
  have hspells := spells_described (fun value hvalue =>
    Text.hasUnbrokenLines_of_isDescription (hd value hvalue)) h
  cases d with
  | none => exact hspells
  | some value =>
    rw [Option.map_some, Text.trimLines_of_isDescription (hd value rfl)] at hspells
    exact hspells

theorem readsDescriptions_asRead : ReadsDescriptions Text.asRead := by
  intro d text ts hd h
  cases d with
  | none => exact h
  | some value =>
    have hlines : Text.HasUnbrokenLines value := by
      by_contra hbroken
      refine hbroken (Text.hasUnbrokenLines_of_isDescription (hd value ?_))
      rw [Option.bind_some, Text.asRead, if_neg hbroken]
      rfl
    have hspells := spells_described (d := some value) (by rintro _ ⟨⟩; exact hlines) h
    rw [Option.bind_some, Text.asRead, if_pos hlines]
    exact hspells

section Reading

variable {read : String → Option String} {depth : Nat}

theorem InputValueDefinition.spells (hread : ReadsDescriptions read) {d : InputValueDefinition}
    (h : (d.mapDescriptions read).Conforms depth) :
    Spells d.render (d.mapDescriptions read).form.tokens := by
  obtain ⟨text, n, t, defaultValue, ds, loc⟩ := d
  obtain ⟨hdescription, hn, ht, hv, hds⟩ := h
  obtain ⟨us, hspells, hnone, hus⟩ : ∃ us, Spells ((defaultValue.map Value.render).getD "") us ∧
      (us = [] → (defaultValue.map Value.render).getD "" = "") ∧
      defaulted us = (defaultForm defaultValue).tokens := by
    cases defaultValue with
    | none => exact ⟨[], spells_empty, fun _ => rfl, rfl⟩
    | some v =>
      have hne := v.starts_form.tokens_ne_nil
      obtain ⟨u, us, hcons⟩ := List.exists_cons_of_ne_nil hne
      refine ⟨v.form.tokens, Value.spells v (hv v rfl).1, fun hnil => absurd hnil hne, ?_⟩
      change _ = .punctuator .equals :: (v.form.tokens ++ [])
      rw [List.append_nil, hcons]
      rfl
  have h :=
    hread _ _ _ hdescription
      (spells_inputValue (Name.spells hn) (TypeRef.spells_of_isPlain ht.1) hspells hnone
        (Directive.spellAll hds))
  rw [hus, ← Directive.tokens_forms] at h
  have htokens :
      (InputValueDefinition.mapDescriptions read ⟨text, n, t, defaultValue, ds, loc⟩).form.tokens =
        descriptionTokens (text.bind read) ++
        [[n.form.tokens, [.punctuator .colon], t.form.tokens].flatten,
         (defaultForm defaultValue).tokens, (Directive.forms ds).tokens].flatten := by
    simp [InputValueDefinition.mapDescriptions, InputValueDefinition.form]
  rw [htokens]
  exact h

/-- Definitions of arguments one by one, none of which is empty. -/
theorem InputValueDefinition.spellAll (hread : ReadsDescriptions read)
    {ds : List InputValueDefinition} (h : ∀ d ∈ ds.map (·.mapDescriptions read), d.Conforms depth) :
    SpellAll (ds.map (·.render)) (ds.map fun d => (d.mapDescriptions read).form.tokens) ∧
      ∀ ts ∈ ds.map (fun d => (d.mapDescriptions read).form.tokens), ts ≠ [] := by
  refine ⟨spellAll_map fun d hd => ?_, ?_⟩
  · exact InputValueDefinition.spells hread (List.forall_mem_map.1 h d hd)
  intro ts hts
  obtain ⟨d, -, rfl⟩ := List.mem_map.1 hts
  simp [InputValueDefinition.form]

theorem FieldDefinition.spells (hread : ReadsDescriptions read) {admits : TypeRef → Prop}
    (hadmits : ∀ t, admits t → Spells t.render t.form.tokens) {d : FieldDefinition}
    (h : (d.mapDescriptions read).Conforms admits depth) :
    Spells d.render (d.mapDescriptions read).form.tokens := by
  obtain ⟨text, n, as, t, ds, loc⟩ := d
  obtain ⟨hdescription, hn, has, ht, hds⟩ := h
  obtain ⟨hargs, hne⟩ := InputValueDefinition.spellAll hread has
  have h := hread _ _ _ hdescription
    (spells_field (Name.spells hn) hargs hne (hadmits t ht.1) (Directive.spellAll hds))
  have htokens : (FieldDefinition.mapDescriptions read ⟨text, n, as, t, ds, loc⟩).form.tokens =
      descriptionTokens (text.bind read) ++ [n.form.tokens,
        parenthesized (as.map fun a => (a.mapDescriptions read).form.tokens),
        [.punctuator .colon], t.form.tokens, (ds.map fun d => d.form.tokens).flatten].flatten := by
    simp [FieldDefinition.mapDescriptions, FieldDefinition.form, InputValueDefinition.argumentForms,
      Form.tokens_parentheses_map, Directive.tokens_forms, Function.comp_def]
  rw [htokens]
  exact h

/-- Fields one by one. -/
theorem FieldDefinition.spellAll (hread : ReadsDescriptions read) {admits : TypeRef → Prop}
    (hadmits : ∀ t, admits t → Spells t.render t.form.tokens) {ds : List FieldDefinition}
    (h : ∀ d ∈ ds.map (·.mapDescriptions read), d.Conforms admits depth) :
    SpellAll (ds.map (·.render)) (ds.map fun d => (d.mapDescriptions read).form.tokens) :=
  spellAll_map fun d hd => FieldDefinition.spells hread hadmits (List.forall_mem_map.1 h d hd)

/-- The fields of objects and interfaces. -/
theorem FieldDefinition.spellAll_of_isFieldBase (hread : ReadsDescriptions read)
    {ds : List FieldDefinition}
    (h : ∀ d ∈ ds.map (·.mapDescriptions read),
      d.Conforms (TypeRef.IsOrNonNull TypeRef.IsFieldBase) depth) :
      SpellAll (ds.map (·.render)) (ds.map fun d => (d.mapDescriptions read).form.tokens) :=
  FieldDefinition.spellAll hread (fun _ => TypeRef.spells_of_isOrNonNull fun _ =>
    TypeRef.spells_of_isFieldBase) h

theorem EnumValueDefinition.spells (hread : ReadsDescriptions read) {d : EnumValueDefinition}
    (h : (d.mapDescriptions read).Conforms depth) :
    Spells d.render (d.mapDescriptions read).form.tokens := by
  obtain ⟨text, n, ds, loc⟩ := d
  obtain ⟨hdescription, hn, hds⟩ := h
  have h := hread _ _ _ hdescription (spells_enumValue (Name.spells hn) (Directive.spellAll hds))
  have htokens : (EnumValueDefinition.mapDescriptions read ⟨text, n, ds, loc⟩).form.tokens =
      descriptionTokens (text.bind read) ++
      [n.form.tokens, (ds.map fun d => d.form.tokens).flatten].flatten := by
    simp [EnumValueDefinition.mapDescriptions, EnumValueDefinition.form, Directive.tokens_forms]
  rw [htokens]
  exact h

theorem ScalarTypeDefinition.spells (hread : ReadsDescriptions read) {d : ScalarTypeDefinition}
    (h : (d.mapDescriptions read).Conforms depth) :
    Spells d.render (d.mapDescriptions read).form.tokens := by
  obtain ⟨text, n, ds, loc⟩ := d
  obtain ⟨hdescription, hn, hds⟩ := h
  have h := hread _ _ _ hdescription (spells_scalar (Name.spells hn) (Directive.spellAll hds))
  have htokens : (ScalarTypeDefinition.mapDescriptions read ⟨text, n, ds, loc⟩).form.tokens =
      descriptionTokens (text.bind read) ++
        [[.name "scalar"], n.form.tokens, (ds.map fun d => d.form.tokens).flatten].flatten := by
    simp [ScalarTypeDefinition.mapDescriptions, ScalarTypeDefinition.form, Directive.tokens_forms]
  rw [htokens]
  exact h

/-- The tokens of an object's definition behind its first word. -/
theorem ObjectTypeDefinition.spells_bare (hread : ReadsDescriptions read) {d : ObjectTypeDefinition}
    (description : Option String)
    (h : ({ d.mapFieldDescriptions read with description }).Conforms depth) :
    Spells d.renderBare ((d.mapFieldDescriptions read).formFrom (.word "type")).tokens := by
  obtain ⟨text, n, ts, ds, fs, loc⟩ := d
  obtain ⟨-, hn, hts, hds, hfs⟩ := h
  have hne : ∀ us ∈ ts.map fun t => t.form.tokens, us ≠ [] :=
    List.forall_mem_map.2 fun _ _ => List.cons_ne_nil _ _
  have h :=
    spells_objectType (Name.spells hn) (spellAll_map fun t ht => NamedType.spells (hts t ht)) hne
    (Directive.spellAll hds) (FieldDefinition.spellAll_of_isFieldBase hread hfs)
  have himplemented : (interfaceForms ts).tokens = implemented (ts.map fun t => t.form.tokens) := by
    cases ts with
    | nil => rfl
    | cons t ts =>
      change .name "implements" ::
        (t.form.tokens ++ ((Form.all (ts.map NamedType.form)).tokens ++ [])) = _
      rw [Form.tokens_map, List.append_nil]
      rfl
  have htokens :
      ((ObjectTypeDefinition.mapFieldDescriptions read ⟨text, n, ts, ds, fs, loc⟩).formFrom
        (.word "type")).tokens =
      [[.name "type"], n.form.tokens, implemented (ts.map fun t => t.form.tokens),
        (ds.map fun d => d.form.tokens).flatten,
        braced (fs.map fun f => (f.mapDescriptions read).form.tokens)].flatten := by
    simp [ObjectTypeDefinition.mapFieldDescriptions, ObjectTypeDefinition.formFrom, himplemented,
      Form.tokens_braces_map, Directive.tokens_forms, Function.comp_def]
  rw [htokens]
  exact h

theorem ObjectTypeDefinition.spells (hread : ReadsDescriptions read) {d : ObjectTypeDefinition}
    (h : (d.mapDescriptions read).Conforms depth) :
    Spells d.render (d.mapDescriptions read).form.tokens := by
  have htokens : (d.mapDescriptions read).form.tokens =
      descriptionTokens (d.description.bind read) ++
      ((d.mapFieldDescriptions read).formFrom (.word "type")).tokens := by
    simp [ObjectTypeDefinition.mapDescriptions, ObjectTypeDefinition.form,
      ObjectTypeDefinition.formFrom]
  rw [htokens]
  exact hread _ _ _ h.description
    (ObjectTypeDefinition.spells_bare hread (d.description.bind read) h)

/-- A definition of named entries. -/
theorem spells_entries (hread : ReadsDescriptions read) (word : String) (hword : IsName word)
    {text : Option String} {n : Name} {ds : List Directive} {entries : List String}
    {ess : List (List Token)} (hdescription : ConformsDescription (text.bind read))
    (hn : n.Conforms) (hds : ∀ d ∈ ds, d.Conforms depth) (he : SpellAll entries ess) :
    Spells (Layout.described text (Layout.entriesOf word n.render (ds.map (·.render)) entries))
      (descriptionTokens (text.bind read) ++
        [[.name word], n.form.tokens, (ds.map fun d => d.form.tokens).flatten,
         braced ess].flatten) :=
  hread _ _ _ hdescription (spells_entriesOf hword (Name.spells hn) (Directive.spellAll hds) he)

theorem InterfaceTypeDefinition.spells (hread : ReadsDescriptions read)
    {d : InterfaceTypeDefinition} (h : (d.mapDescriptions read).Conforms depth) :
    Spells d.render (d.mapDescriptions read).form.tokens := by
  obtain ⟨text, n, ds, fs, loc⟩ := d
  obtain ⟨hdescription, hn, hds, hfs⟩ := h
  have h := spells_entries hread "interface" (by decide) hdescription hn hds
    (FieldDefinition.spellAll_of_isFieldBase hread hfs)
  have htokens : (InterfaceTypeDefinition.mapDescriptions read ⟨text, n, ds, fs, loc⟩).form.tokens =
      descriptionTokens (text.bind read) ++
        [[.name "interface"], n.form.tokens, (ds.map fun d => d.form.tokens).flatten,
         braced (fs.map fun f => (f.mapDescriptions read).form.tokens)].flatten := by
    simp [InterfaceTypeDefinition.mapDescriptions, InterfaceTypeDefinition.form,
      Form.tokens_braces_map, Directive.tokens_forms, Function.comp_def]
  rw [htokens]
  exact h

theorem UnionTypeDefinition.spells (hread : ReadsDescriptions read) {d : UnionTypeDefinition}
    (h : (d.mapDescriptions read).Conforms depth) :
    Spells d.render (d.mapDescriptions read).form.tokens := by
  obtain ⟨text, n, ds, ts, loc⟩ := d
  obtain ⟨hdescription, hn, hds, -, hts⟩ := h
  have hne : ∀ us ∈ ts.map fun t => t.form.tokens, us ≠ [] :=
    List.forall_mem_map.2 fun _ _ => List.cons_ne_nil _ _
  have h := hread _ _ _ hdescription (spells_union (Name.spells hn) (Directive.spellAll hds)
    (spellAll_map fun t ht => NamedType.spells (hts t ht)) hne)
  have htokens : (UnionTypeDefinition.mapDescriptions read ⟨text, n, ds, ts, loc⟩).form.tokens =
      descriptionTokens (text.bind read) ++
      [[.name "union"], n.form.tokens, (ds.map fun d => d.form.tokens).flatten,
        [.punctuator .equals] ++
        [.punctuator .pipe].intercalate (ts.map fun t => t.form.tokens)].flatten := by
    simp [UnionTypeDefinition.mapDescriptions, UnionTypeDefinition.form, Form.tokens_separated_map,
      Directive.tokens_forms]
  rw [htokens]
  exact h

theorem EnumTypeDefinition.spells (hread : ReadsDescriptions read) {d : EnumTypeDefinition}
    (h : (d.mapDescriptions read).Conforms depth) :
    Spells d.render (d.mapDescriptions read).form.tokens := by
  obtain ⟨text, n, ds, vs, loc⟩ := d
  obtain ⟨hdescription, hn, hds, -, hvs⟩ := h
  have h := spells_entries hread "enum" (by decide) hdescription hn hds
    (spellAll_map fun v hv => EnumValueDefinition.spells hread (List.forall_mem_map.1 hvs v hv))
  have htokens : (EnumTypeDefinition.mapDescriptions read ⟨text, n, ds, vs, loc⟩).form.tokens =
      descriptionTokens (text.bind read) ++
        [[.name "enum"], n.form.tokens, (ds.map fun d => d.form.tokens).flatten,
         braced (vs.map fun v => (v.mapDescriptions read).form.tokens)].flatten := by
    simp [EnumTypeDefinition.mapDescriptions, EnumTypeDefinition.form, Form.tokens_braces_map,
      Directive.tokens_forms, Function.comp_def]
  rw [htokens]
  exact h

theorem InputObjectTypeDefinition.spells (hread : ReadsDescriptions read)
    {d : InputObjectTypeDefinition} (h : (d.mapDescriptions read).Conforms depth) :
    Spells d.render (d.mapDescriptions read).form.tokens := by
  obtain ⟨text, n, ds, fs, loc⟩ := d
  obtain ⟨hdescription, hn, hds, hfs⟩ := h
  have h := spells_entries hread "input" (by decide) hdescription hn hds
    (InputValueDefinition.spellAll hread hfs).1
  have htokens :
      (InputObjectTypeDefinition.mapDescriptions read ⟨text, n, ds, fs, loc⟩).form.tokens =
        descriptionTokens (text.bind read) ++
        [[.name "input"], n.form.tokens, (ds.map fun d => d.form.tokens).flatten,
         braced (fs.map fun f => (f.mapDescriptions read).form.tokens)].flatten := by
    simp [InputObjectTypeDefinition.mapDescriptions, InputObjectTypeDefinition.form,
      Form.tokens_braces_map, Directive.tokens_forms, Function.comp_def]
  rw [htokens]
  exact h

theorem TypeExtensionDefinition.spells (hread : ReadsDescriptions read)
    {d : TypeExtensionDefinition} (h : (d.mapDescriptions read).Conforms depth) :
    Spells d.render (d.mapDescriptions read).form.tokens := by
  obtain ⟨text, o, loc⟩ := d
  obtain ⟨hdescription, ho, -⟩ := h
  have h :=
    hread _ _ _ hdescription
      (spells_extension (ObjectTypeDefinition.spells_bare hread o.description ho))
  have htokens : (TypeExtensionDefinition.mapDescriptions read ⟨text, o, loc⟩).form.tokens =
      descriptionTokens (text.bind read) ++
        [[.name "extend"],
         ((o.mapFieldDescriptions read).formFrom (.word "type")).tokens].flatten := by
    simp [TypeExtensionDefinition.mapDescriptions, TypeExtensionDefinition.form]
  rw [htokens]
  exact h

theorem DirectiveDefinition.spells (hread : ReadsDescriptions read) {d : DirectiveDefinition}
    (h : (d.mapDescriptions read).Conforms depth) :
    Spells d.render (d.mapDescriptions read).form.tokens := by
  obtain ⟨text, n, as, ns, loc⟩ := d
  obtain ⟨hdescription, hn, has, -, hns⟩ := h
  obtain ⟨hargs, hne⟩ := InputValueDefinition.spellAll hread has
  have hnames : ∀ us ∈ ns.map fun n => n.form.tokens, us ≠ [] :=
    List.forall_mem_map.2 fun _ _ => List.cons_ne_nil _ _
  have h := hread _ _ _ hdescription (spells_directiveDefinition (Name.spells hn) hargs hne
    (spellAll_map fun n hn => Name.spells (hns n hn)) hnames)
  have htokens : (DirectiveDefinition.mapDescriptions read ⟨text, n, as, ns, loc⟩).form.tokens =
      descriptionTokens (text.bind read) ++
      [[.name "directive"], [.punctuator .atSign], n.form.tokens,
        parenthesized (as.map fun a => (a.mapDescriptions read).form.tokens), [.name "on"],
        [.punctuator .pipe].intercalate (ns.map fun n => n.form.tokens)].flatten := by
    simp [DirectiveDefinition.mapDescriptions, DirectiveDefinition.form,
      InputValueDefinition.argumentForms, Form.tokens_parentheses_map, Form.tokens_separated_map,
      Function.comp_def]
  rw [htokens]
  exact h

theorem OperationDefinition.spells (hread : ReadsDescriptions read) {word : String}
    (hword : IsName word) {P : List FieldDefinition → Prop}
    (hP : ∀ fs : List FieldDefinition, P (fs.map (·.mapDescriptions read)) →
      SpellAll (fs.map (·.render)) (fs.map fun f => (f.mapDescriptions read).form.tokens))
      {d : OperationDefinition}
    (h : (d.mapDescriptions read).Conforms P depth) :
    Spells (d.render word) ((d.mapDescriptions read).form word).tokens := by
  obtain ⟨text, n, as, ds, r, loc⟩ := d
  obtain ⟨hdescription, hn, has, hds, hr⟩ := h
  obtain ⟨hargs, hne⟩ := InputValueDefinition.spellAll hread has
  have htokens :
      ((OperationDefinition.mapDescriptions read ⟨text, n, as, ds, r, loc⟩).form word).tokens =
        descriptionTokens (text.bind read) ++
        [[.name word], n.form.tokens,
         parenthesized (as.map fun a => (a.mapDescriptions read).form.tokens),
         ((r.mapDescriptions read).form ds).tokens].flatten := by
    simp [OperationDefinition.mapDescriptions, OperationDefinition.form,
      InputValueDefinition.argumentForms, Form.tokens_parentheses_map, Function.comp_def]
  rw [htokens]
  cases r with
  | type t =>
    have hresult : (((OperationResult.type t).mapDescriptions read).form ds).tokens =
        [.punctuator .colon] ++ (t.form.tokens ++ (ds.map fun d => d.form.tokens).flatten) := by
      simp [OperationResult.mapDescriptions, OperationResult.form, Directive.tokens_forms]
    rw [hresult]
    exact hread _ _ _ hdescription (spells_operationOfType hword (Name.spells hn) hargs hne
      (TypeRef.spells_of_isPlain hr.1) (Directive.spellAll hds))
  | fields fs =>
    have hresult : (((OperationResult.fields fs).mapDescriptions read).form ds).tokens =
        (ds.map fun d => d.form.tokens).flatten ++
        braced (fs.map fun f => (f.mapDescriptions read).form.tokens) := by
      simp [OperationResult.mapDescriptions, OperationResult.form, Directive.tokens_forms,
        Form.tokens_braces_map, Function.comp_def]
    rw [hresult]
    exact hread _ _ _ hdescription (spells_operationOfFields hword (Name.spells hn) hargs hne
      (Directive.spellAll hds) (hP fs hr))

theorem FilterCondition.spells (hread : ReadsDescriptions read) {c : FilterCondition}
    (h : (c.mapDescriptions read).Conforms depth) :
    Spells c.render (c.mapDescriptions read).form.tokens := by
  obtain ⟨k, as, o, loc⟩ := c
  obtain ⟨hk, has, ho⟩ := h
  obtain ⟨hargs, hne⟩ := InputValueDefinition.spellAll hread has
  have h := spells_condition (EnumValueDefinition.spells hread hk) hargs hne (ObjectValue.spells ho)
  have htokens : (FilterCondition.mapDescriptions read ⟨k, as, o, loc⟩).form.tokens =
      [(k.mapDescriptions read).form.tokens, [.punctuator .colon],
       parenthesized (as.map fun a => (a.mapDescriptions read).form.tokens),
       o.form.tokens].flatten := by
    simp [FilterCondition.mapDescriptions, FilterCondition.form, InputValueDefinition.argumentForms,
      Form.tokens_parentheses_map, Function.comp_def]
  rw [htokens]
  exact h

/-- A block of entries for a target. -/
theorem spells_target (hread : ReadsDescriptions read) (word : String) (hword : IsName word)
    {text : Option String} {t : TypeRef} {entries : List String} {ess : List (List Token)}
    (hdescription : ConformsDescription (text.bind read)) (ht : t.Conforms TypeRef.IsTarget depth)
    (he : SpellAll entries ess) :
    Spells (Layout.described text (Layout.targeted (word ++ " on") t.render entries))
      (descriptionTokens (text.bind read) ++
      [[.name word], [.name "on"], t.form.tokens, braced ess].flatten) :=
  hread _ _ _ hdescription (spells_targeted hword (TypeRef.spells_of_isTarget ht.1) he)

theorem FilterDefinition.spells (hread : ReadsDescriptions read) {d : FilterDefinition}
    (h : (d.mapDescriptions read).Conforms depth) :
    Spells d.render (d.mapDescriptions read).form.tokens := by
  obtain ⟨text, t, cs, loc⟩ := d
  obtain ⟨hdescription, ht, hcs⟩ := h
  have h := spells_target hread "filter" (by decide) hdescription ht
    (spellAll_map fun c hc => FilterCondition.spells hread (List.forall_mem_map.1 hcs c hc))
  have htokens : (FilterDefinition.mapDescriptions read ⟨text, t, cs, loc⟩).form.tokens =
      descriptionTokens (text.bind read) ++ [[.name "filter"], [.name "on"], t.form.tokens,
        braced (cs.map fun c => (c.mapDescriptions read).form.tokens)].flatten := by
    simp [FilterDefinition.mapDescriptions, FilterDefinition.form, Form.tokens_braces_map,
      Function.comp_def]
  rw [htokens]
  exact h

theorem OrderExpression.spells (hread : ReadsDescriptions read) {e : OrderExpression}
    (h : (e.mapDescriptions read).Conforms depth) :
    Spells e.render (e.mapDescriptions read).form.tokens := by
  obtain ⟨k, os, loc⟩ := e
  obtain ⟨hk, hne, hos⟩ := h
  have h := spells_ordering (EnumValueDefinition.spells hread hk)
    (spellAll_map fun o ho => ObjectValue.spells (hos o ho)) (by simpa using hne)
  have hobjects : (OrderExpression.objectsForm os).tokens =
      listedObjects (os.map fun o => o.form.tokens) := by
    rcases os with _ | ⟨o, _ | ⟨o', os⟩⟩
    · exact absurd rfl hne
    · rfl
    · change (Form.block .bracketOpen .bracketClose _).tokens = _
      rw [Form.tokens_block, List.map_map]
      rfl
  have htokens : (OrderExpression.mapDescriptions read ⟨k, os, loc⟩).form.tokens =
      [(k.mapDescriptions read).form.tokens, [.punctuator .colon],
       listedObjects (os.map fun o => o.form.tokens)].flatten := by
    simp [OrderExpression.mapDescriptions, OrderExpression.form, hobjects]
  rw [htokens]
  exact h

theorem OrderDefinition.spells (hread : ReadsDescriptions read) {d : OrderDefinition}
    (h : (d.mapDescriptions read).Conforms depth) :
    Spells d.render (d.mapDescriptions read).form.tokens := by
  obtain ⟨text, t, es, loc⟩ := d
  obtain ⟨hdescription, ht, hes⟩ := h
  have h := spells_target hread "order" (by decide) hdescription ht
    (spellAll_map fun e he => OrderExpression.spells hread (List.forall_mem_map.1 hes e he))
  have htokens : (OrderDefinition.mapDescriptions read ⟨text, t, es, loc⟩).form.tokens =
      descriptionTokens (text.bind read) ++ [[.name "order"], [.name "on"], t.form.tokens,
        braced (es.map fun e => (e.mapDescriptions read).form.tokens)].flatten := by
    simp [OrderDefinition.mapDescriptions, OrderDefinition.form, Form.tokens_braces_map,
      Function.comp_def]
  rw [htokens]
  exact h

theorem Definition.spells_asRead (hread : ReadsDescriptions read) {d : Definition}
    (h : (d.mapDescriptions read).Conforms depth) :
    Spells d.render (d.mapDescriptions read).form.tokens := by
  cases d with
  | scalar d => exact ScalarTypeDefinition.spells hread h
  | object d => exact ObjectTypeDefinition.spells hread h
  | interface d => exact InterfaceTypeDefinition.spells hread h
  | union d => exact UnionTypeDefinition.spells hread h
  | enum d => exact EnumTypeDefinition.spells hread h
  | inputObject d => exact InputObjectTypeDefinition.spells hread h
  | typeExtension d => exact TypeExtensionDefinition.spells hread h
  | directive d => exact DirectiveDefinition.spells hread h
  | mutation d =>
    exact OperationDefinition.spells hread (by decide) (fun fs hfs =>
      FieldDefinition.spellAll hread (fun _ => TypeRef.spells_of_isOrNonNull
        fun _ => TypeRef.spells_of_isMutationFieldBase) hfs) h
  | query d =>
    exact OperationDefinition.spells hread (by decide) (fun fs hfs =>
      FieldDefinition.spellAll hread (fun _ => TypeRef.spells_of_isPlain) hfs.2) h
  | filter d => exact FilterDefinition.spells hread h
  | order d => exact OrderDefinition.spells hread h

/-- The canonical text of a document whose descriptions conform as they are read has the tokens of
the document with these descriptions, and no fault. -/
theorem Document.spells_asRead (hread : ReadsDescriptions read) {d : Document}
    (h : (d.mapDescriptions read).Conforms depth) :
    Spells d.render (d.mapDescriptions read).form.tokens := by
  have hspells := spells_document (spellAll_map fun x hx =>
    Definition.spells_asRead hread (List.forall_mem_map.1 h.definitions x hx))
  have htokens : (d.mapDescriptions read).form.tokens =
      (d.definitions.map fun x => (x.mapDescriptions read).form.tokens).flatten := by
    simp [Document.mapDescriptions, Document.form, Form.tokens_map, Function.comp_def]
  rw [htokens]
  exact hspells

end Reading

theorem Definition.spells {depth : Nat} {d : Definition} (h : d.Conforms depth) :
    Spells d.render d.form.tokens := by
  rw [← d.mapDescriptions_some] at h
  have hspells := Definition.spells_asRead readsDescriptions_some h
  rwa [mapDescriptions_some] at hspells

/-- The definitions of a document with a blank line between them have the tokens of the document. -/
theorem Document.spells_definitions {depth : Nat} {d : Document} (h : d.Conforms depth) :
    Spells (Layout.join "\n\n" (d.definitions.map (·.render))) d.form.tokens := by
  have hspells := spells_join isSeparation_feeds rfl
    (spellAll_map fun x hx => Definition.spells (h.definitions x hx))
  rw [← Form.tokens_map] at hspells
  exact hspells

/-- The canonical text of a document that conforms has the tokens of the document and no fault. -/
theorem Document.spells {depth : Nat} {d : Document} (h : d.Conforms depth) :
    Spells d.render d.form.tokens := by
  rw [← d.mapDescriptions_some] at h
  have hspells := Document.spells_asRead readsDescriptions_some h
  rwa [mapDescriptions_some] at hspells

end SchemaLang
