import SchemaLang.Proofs.Codec.Edit
import SchemaLang.Proofs.Codec.Reading

/-!
# Readers and changes that mean nothing

A structure is read part by part. If each member that a part looks for is tolerably the same, so is
what the part turns out to be, and then so is the structure: this is one law for each sort of part,
and one for what is made of parts.
-/

namespace SchemaLang

namespace Json

variable {α β ε : Type}

/-- Whatever the first reading answers, so does the second. -/
def Agrees (x y : Except ε α) : Prop := ∀ a, x = .ok a → y = .ok a

theorem Agrees.refl (x : Except ε α) : Agrees x x := fun _ h => h

theorem Agrees.bind {x y : Read α} {f g : α → Read β} (h : Agrees x y)
    (hfg : ∀ a, Agrees (f a) (g a)) : Agrees (x >>= f) (y >>= g) := by
  intro b hb
  obtain ⟨a, ha, hb⟩ := bind_eq_ok.1 hb
  exact bind_eq_ok.2 ⟨a, h a ha, hfg a b hb⟩

theorem Agrees.map {x y : Read α} (h : Agrees x y) (f : α → β) : Agrees (f <$> x) (f <$> y) := by
  intro b hb
  obtain ⟨a, ha, rfl⟩ := map_eq_ok.1 hb
  exact map_eq_ok.2 ⟨a, h a ha, rfl⟩

theorem Agrees.mapError {ε' : Type} {x y : Except ε α} (h : Agrees x y) (f : ε → ε') :
    Agrees (x.mapError f) (y.mapError f) :=
  fun a ha => mapError_eq_ok.2 (h a (mapError_eq_ok.1 ha))

/-- If the kind stays, so does the reader that it leads to. -/
theorem Agrees.byKind {reader? : Kind → Option (Json → Read α)} {j j' : Json} {k : Kind}
    (hk : j.kind? = some k) (hk' : j'.kind? = some k)
    (h : ∀ read, reader? k = some read → Agrees (read j) (read j')) :
    Agrees (byKind reader? j) (byKind reader? j') := by
  intro a ha
  obtain ⟨k', read, hkind, hread, ha⟩ := byKind_eq_ok.1 ha
  obtain rfl : k = k' := Option.some.inj (hk.symm.trans hkind)
  exact byKind_of_ok hk' hread (h read hread a ha)

end Json

open Json (Agrees Read Part Parts readList orNull)

/-- What was read at the place is still read. -/
def Place.Keeps (j j' : Json) : Place → Prop
  | .scalar => j' = j
  | .source => Agrees (Source.ofJson j) (Source.ofJson j')
  | .loc => Agrees (Loc.ofJson j) (Loc.ofJson j')
  | .name => Agrees (Name.ofJson j) (Name.ofJson j')
  | .namedType => Agrees (NamedType.ofJson j) (NamedType.ofJson j')
  | .connection => Agrees (ConnectionType.ofJson j) (ConnectionType.ofJson j')
  | .object => Agrees (ObjectValue.ofJson j) (ObjectValue.ofJson j')
  | .objectField => Agrees (ObjectFieldOf.ofJson j) (ObjectFieldOf.ofJson j')
  | .argument => Agrees (Argument.ofJson j) (Argument.ofJson j')
  | .directive => Agrees (Directive.ofJson j) (Directive.ofJson j')
  | .inputValue => Agrees (InputValueDefinition.ofJson j) (InputValueDefinition.ofJson j')
  | .field owner => Agrees (FieldDefinition.ofJson owner j) (FieldDefinition.ofJson owner j')
  | .enumValue => Agrees (EnumValueDefinition.ofJson j) (EnumValueDefinition.ofJson j')
  | .objectType => Agrees (ObjectTypeDefinition.ofJson j) (ObjectTypeDefinition.ofJson j')
  | .condition => Agrees (FilterCondition.ofJson j) (FilterCondition.ofJson j')
  | .ordering => Agrees (OrderExpression.ofJson j) (OrderExpression.ofJson j')
  | .value => Agrees (Value.ofJson j) (Value.ofJson j')
  | .type => Agrees (TypeRef.ofJson j) (TypeRef.ofJson j')
  | .definition => Agrees (Definition.ofJson j) (Definition.ofJson j')
  | .node => Agrees (Node.ofJson j) (Node.ofJson j')

namespace Json

/-- What a filter asks for under a key is no empty list. One would be read as an object without
fields, and yet it could not be left out. -/
def IsFilledCondition (j : Json) : Prop := j.member? "condition" ≠ some (.arr [])

/-- The conditions of a filter are filled. -/
def IsFilledFilter (j : Json) : Prop :=
  ∀ items, j.member? "conditions" = some (.arr items) → ∀ i ∈ items, i.IsFilledCondition

/-- The filters among the definitions of a document are filled. -/
def IsFilledDocument (j : Json) : Prop :=
  ∀ items, j.member? "definitions" = some (.arr items) →
    ∀ i ∈ items, i.kind? = some .filterDefinition → i.IsFilledFilter

end Json

/-- Every condition of a filter that is read at the place is filled. -/
def Place.IsFilled (j : Json) : Place → Prop
  | .condition => j.IsFilledCondition
  | .definition => j.kind? = some .filterDefinition → j.IsFilledFilter
  | .node =>
    (j.kind? = some .filterCondition → j.IsFilledCondition) ∧
      (j.kind? = some .filterDefinition → j.IsFilledFilter) ∧
      (j.kind? = some .document → j.IsFilledDocument)
  | _ => True

/-- A place where nothing has to be filled and an empty list is nothing. -/
def Place.IsPlain : Place → Prop
  | .object | .condition | .definition | .node => False
  | _ => True

private theorem Place.IsPlain.isFilled {p : Place} (h : p.IsPlain) (j : Json) : p.IsFilled j := by
  cases p with
  | condition | definition | node => exact h.elim
  | _ => trivial

private theorem Place.IsPlain.ne_object {p : Place} (h : p.IsPlain) : p ≠ .object := by
  rintro rfl
  exact h

/-- What was read at the place is still read, and what was filled is still filled. -/
def Place.Stays (j j' : Json) (p : Place) : Prop := p.IsFilled j → p.Keeps j j' ∧ p.IsFilled j'

/-- How a member may change that is looked for: inside, or between nothing and what counts as
nothing. -/
inductive Field.Tolerates (f : Field) : Option Json → Option Json → Prop
  | same {j? : Option Json} : f.Tolerates j? j?
  | member {ms ms' : List (String × Json)}
    (hsingle : f.presence = .required ∨ f.presence = .nullable)
    (h : f.place.Stays (.obj ms) (.obj ms')) : f.Tolerates (some (.obj ms)) (some (.obj ms'))
  | item {before after : List Json} {j j' : Json}
    (hlist : f.presence = .list ∨ f.presence = .requiredList) (h : f.place.Stays j j') :
    f.Tolerates (some (.arr (before ++ j :: after))) (some (.arr (before ++ j' :: after)))
  | drop {j : Json} (hempty : j = .null ∨ j = .arr []) (hlist : f.presence ≠ .requiredList) :
    f.Tolerates (some j) none
  | writeNull (hnullable : f.presence = .nullable) : f.Tolerates none (some .null)

/-- Each member that is looked for is tolerably the same. -/
def Tolerates (fields : List Field) (ms ms' : List (String × Json)) : Prop :=
  ∀ f ∈ fields, f.Tolerates (ms.lookup f.key) (ms'.lookup f.key)

theorem Tolerates.of_cons {f : Field} {fields : List Field} {ms ms' : List (String × Json)}
    (h : Tolerates (f :: fields) ms ms') : Tolerates fields ms ms' :=
  fun g hg => h g (List.mem_cons_of_mem f hg)

/-- The reader is the one for the place, and nothing is not what it looks for. -/
structure Place.Reads {α : Type} (p : Place) (read : Json → Read α) : Prop where
  agrees : ∀ {j j'}, p.Keeps j j' → Agrees (read j) (read j')
  ne_null : ∀ {a}, read .null ≠ .ok a
  ne_nil : p ≠ .object → ∀ {a}, read (.arr []) ≠ .ok a

namespace Place

variable {α : Type} {p : Place} {read : Json → Read α}

private theorem Reads.of_error {e e' : DecodeError} (hnull : read .null = .error e)
    (hnil : read (.arr []) = .error e') (h : ∀ {j j'}, p.Keeps j j' → Agrees (read j) (read j')) :
    p.Reads read where
  agrees := h
  ne_null := fun ha => nomatch hnull.symm.trans ha
  ne_nil := fun _ _ ha => nomatch hnil.symm.trans ha

/-- A change to one item of a list. -/
theorem Reads.item (hread : p.Reads read) {j j' : Json} (h : p.Keeps j j')
    (before after : List Json) :
    Agrees (readList read (.arr (before ++ j :: after)))
      (readList read (.arr (before ++ j' :: after))) := by
  change Agrees ((before ++ j :: after).mapM read) ((before ++ j' :: after).mapM read)
  rw [List.mapM_append, List.mapM_append, List.mapM_cons, List.mapM_cons]
  exact (Agrees.refl _).bind fun _ => ((hread.agrees h).bind fun _ => .refl _).bind fun _ => .refl _

theorem reads_string : scalar.Reads Json.readString := .of_error rfl rfl fun h => h ▸ .refl _

theorem reads_bool : scalar.Reads Json.readBool := .of_error rfl rfl fun h => h ▸ .refl _

theorem reads_nat : scalar.Reads Json.readNat := .of_error rfl rfl fun h => h ▸ .refl _

theorem reads_direction : scalar.Reads Direction.ofJson := .of_error rfl rfl fun h => h ▸ .refl _

theorem reads_cardinality : scalar.Reads Cardinality.ofJson :=
  .of_error rfl rfl fun h => h ▸ .refl _

theorem reads_resultTag : scalar.Reads readResultTag := .of_error rfl rfl fun h => h ▸ .refl _

theorem reads_source : source.Reads Source.ofJson := .of_error rfl rfl id

private theorem reads_loc : loc.Reads Loc.ofJson := .of_error rfl rfl id

theorem reads_name : name.Reads Name.ofJson := .of_error rfl rfl id

theorem reads_namedType : namedType.Reads NamedType.ofJson := .of_error rfl rfl id

theorem reads_connection : connection.Reads ConnectionType.ofJson := .of_error rfl rfl id

/-- An object has no part that must be there, so that an empty list reads as one. -/
theorem reads_object : object.Reads ObjectValue.ofJson where
  agrees := id
  ne_null := nofun
  ne_nil := fun h => absurd rfl h

theorem reads_objectField : objectField.Reads ObjectFieldOf.ofJson := by
  have hnil : ObjectFieldOf.ofJson (.arr []) = .error (.shortArray 0 "ObjectField" 3) := by
    rw [ObjectFieldOf.ofJson_eq]
    rfl
  exact .of_error rfl hnil id

theorem reads_argument : argument.Reads Argument.ofJson := .of_error rfl rfl id

private theorem reads_directive : directive.Reads Directive.ofJson := .of_error rfl rfl id

theorem reads_inputValue : inputValue.Reads InputValueDefinition.ofJson := .of_error rfl rfl id

theorem reads_field (owner : FieldOwner) : (field owner).Reads (FieldDefinition.ofJson owner) :=
  .of_error rfl rfl id

theorem reads_enumValue : enumValue.Reads EnumValueDefinition.ofJson := .of_error rfl rfl id

theorem reads_objectType : objectType.Reads ObjectTypeDefinition.ofJson := .of_error rfl rfl id

theorem reads_condition : condition.Reads FilterCondition.ofJson := .of_error rfl rfl id

theorem reads_ordering : ordering.Reads OrderExpression.ofJson := .of_error rfl rfl id

theorem reads_value : value.Reads Value.ofJson := .of_error rfl rfl id

private theorem reads_type : type.Reads TypeRef.ofJson := .of_error rfl rfl id

theorem reads_definition : definition.Reads Definition.ofJson := .of_error rfl rfl id

end Place

namespace Json

variable {α β : Type} {fields : List Field} {ms ms' : List (String × Json)} {key : String}
  {place : Place} {reader : Json → Read α}

namespace Part

/-- Whatever the part turns out to be, it still is after a tolerable change. -/
def Keeps (fields : List Field) (ms : List (String × Json)) (p : Part α) : Prop :=
  ∀ ⦃ms'⦄, Tolerates fields ms ms' → Agrees (p.ofMembers ms) (p.ofMembers ms')

/-- A part that must be there, which an empty list is only in the place of an object. -/
theorem Keeps.requiredIf (hf : ⟨key, .required, place⟩ ∈ fields) (hread : place.Reads reader)
    (hplace : ∀ j, place.IsFilled j) (hnil : place = .object → ms.lookup key ≠ some (.arr [])) :
    (Part.required key reader).Keeps fields ms := by
  intro ms' h
  have hkey : Field.Tolerates ⟨key, .required, place⟩ (ms.lookup key) (ms'.lookup key) := h _ hf
  rw [Part.required, ofMembers_mk, ofMembers_mk]
  generalize ms.lookup key = j?, ms'.lookup key = j'? at hkey hnil ⊢
  cases hkey with
  | same => exact .refl _
  | member _ hstays => exact (hread.agrees (hstays (hplace _)).1).mapError _
  | item hlist => exact absurd hlist (by simp)
  | drop hempty _ =>
    intro a ha
    rcases hempty with rfl | rfl
    · exact absurd (mapError_eq_ok.1 ha) hread.ne_null
    · exact absurd (mapError_eq_ok.1 ha) (hread.ne_nil fun h => hnil h rfl)
  | writeNull hnullable => cases hnullable

theorem Keeps.required (hf : ⟨key, .required, place⟩ ∈ fields) (hread : place.Reads reader)
    (hplain : place.IsPlain) : (Part.required key reader).Keeps fields ms :=
  .requiredIf hf hread hplain.isFilled fun h => absurd h hplain.ne_object

theorem Keeps.nullable (hf : ⟨key, .nullable, place⟩ ∈ fields) (hread : place.Reads reader)
    (hplain : place.IsPlain) : (Part.nullable key reader).Keeps fields ms := by
  intro ms' h
  have hkey : Field.Tolerates ⟨key, .nullable, place⟩ (ms.lookup key) (ms'.lookup key) := h _ hf
  rw [Part.nullable, ofMembers_mk, ofMembers_mk]
  generalize ms.lookup key = j?, ms'.lookup key = j'? at hkey ⊢
  cases hkey with
  | same => exact .refl _
  | member _ hstays => exact ((hread.agrees (hstays (hplain.isFilled _)).1).map some).mapError _
  | item hlist => exact absurd hlist (by simp)
  | drop hempty _ =>
    intro a? ha
    rcases hempty with rfl | rfl
    · exact ha
    · obtain ⟨a, ha, -⟩ := map_eq_ok.1 (mapError_eq_ok.1 ha)
      exact absurd ha (hread.ne_nil hplain.ne_object)
  | writeNull _ => exact .refl _

/-- A list, of which each item is filled. -/
theorem Keeps.listIf (hf : ⟨key, .list, place⟩ ∈ fields) (hread : place.Reads reader)
    (hitems : ∀ items, ms.lookup key = some (.arr items) → ∀ j ∈ items, place.IsFilled j) :
    (Part.list key reader).Keeps fields ms := by
  intro ms' h
  have hkey : Field.Tolerates ⟨key, .list, place⟩ (ms.lookup key) (ms'.lookup key) := h _ hf
  rw [Part.list, ofMembers_mk, ofMembers_mk]
  generalize ms.lookup key = j?, ms'.lookup key = j'? at hkey hitems ⊢
  cases hkey with
  | same => exact .refl _
  | member hsingle => exact absurd hsingle (by simp)
  | item _ hstays =>
    exact (hread.item (hstays (hitems _ rfl _ (by simp))).1 _ _).mapError _
  | drop hempty _ =>
    rcases hempty with rfl | rfl
    · exact fun _ ha => nomatch ha
    · exact .refl _
  | writeNull hnullable => cases hnullable

theorem Keeps.list (hf : ⟨key, .list, place⟩ ∈ fields) (hread : place.Reads reader)
    (hplain : place.IsPlain) : (Part.list key reader).Keeps fields ms :=
  .listIf hf hread fun _ _ j _ => hplain.isFilled j

theorem Keeps.requiredList (hf : ⟨key, .requiredList, place⟩ ∈ fields) (hplain : place.IsPlain)
    (hread : ∀ before after {j j'}, place.Keeps j j' →
      Agrees (reader (.arr (before ++ j :: after))) (reader (.arr (before ++ j' :: after)))) :
    (Part.required key reader).Keeps fields ms := by
  intro ms' h
  have hkey : Field.Tolerates ⟨key, .requiredList, place⟩ (ms.lookup key) (ms'.lookup key) :=
    h _ hf
  rw [Part.required, ofMembers_mk, ofMembers_mk]
  generalize ms.lookup key = j?, ms'.lookup key = j'? at hkey ⊢
  cases hkey with
  | same => exact .refl _
  | member hsingle => exact absurd hsingle (by simp)
  | item _ hstays => exact (hread _ _ (hstays (hplain.isFilled _)).1).mapError _
  | drop _ hlist => exact absurd rfl hlist
  | writeNull hnullable => cases hnullable

theorem Keeps.loc (hf : .loc ∈ fields) : Part.loc.Keeps fields ms :=
  .nullable hf Place.reads_loc trivial

theorem Keeps.description (hf : .description ∈ fields) : Part.description.Keeps fields ms :=
  .nullable hf Place.reads_string trivial

theorem Keeps.name (hf : .name ∈ fields) : Part.name.Keeps fields ms :=
  .required hf Place.reads_name trivial

theorem Keeps.type (hf : .type ∈ fields) : Part.type.Keeps fields ms :=
  .required hf Place.reads_type trivial

theorem Keeps.directives (hf : .directives ∈ fields) : Part.directives.Keeps fields ms :=
  .list hf Place.reads_directive trivial

theorem Keeps.arguments (hf : .arguments ∈ fields) : Part.arguments.Keeps fields ms :=
  .list hf Place.reads_inputValue trivial

end Part

namespace Parts

/-- Whatever each part turns out to be, it still is after a tolerable change. -/
def Keeps (fields : List Field) (ms : List (String × Json)) : {α : Type} → Parts α → Prop
  | _, .of _ => True
  | _, .and ps p => ps.Keeps fields ms ∧ p.Keeps fields ms

theorem Keeps.of (a : α) : (Parts.of a).Keeps fields ms := trivial

theorem Keeps.and {ps : Parts (β → α)} {p : Part β} (hps : ps.Keeps fields ms)
    (hp : p.Keeps fields ms) : (ps.and p).Keeps fields ms := ⟨hps, hp⟩

theorem Keeps.ofMembers {ps : Parts α} (h : ps.Keeps fields ms) (hms : Tolerates fields ms ms') :
    Agrees (ps.ofMembers ms) (ps.ofMembers ms') := by
  induction ps with
  | of a => exact .refl _
  | and ps p ih =>
    intro a ha
    obtain ⟨f, b, hf, hb, rfl⟩ := both_eq_ok.1 ha
    exact both_eq_ok.2 ⟨f, b, ih h.1 f hf, h.2 hms b hb, rfl⟩

theorem Keeps.readMembers {ps : Parts α} (h : ps.Keeps fields ms)
    (hms : Tolerates fields ms ms') : Agrees (ps.readMembers ms) (ps.readMembers ms') :=
  (h.ofMembers hms).mapError _

theorem Keeps.read {ps : Parts α} (h : ps.Keeps fields ms) (hms : Tolerates fields ms ms')
    (structName : String) :
    Agrees (ps.read structName (.obj ms)) (ps.read structName (.obj ms')) := h.readMembers hms

end Parts

end Json

end SchemaLang
