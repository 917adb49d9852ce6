import Mathlib.Data.List.Nodup
import Mathlib.Logic.Relation
import SchemaLang.Proofs.Codec.Agreement
import SchemaLang.Proofs.Codec.Decode
import SchemaLang.Proofs.Codec.Encode

/-!
# Changes that mean nothing

No change that means nothing to its reader changes what is read. One change touches the members with
one key, and no two fields of a table have one key, so that all other members stay the same and this
one changes tolerably. By induction on how deep the change is, and then on how many there are, the
answer stays what it was.
-/

namespace SchemaLang

open Json (lookup_cons put without)

namespace Json

variable {front back ms : List (String × Json)} {key key' : String} {j j' : Json}

private theorem lookup_insert_of_ne (h : key' ≠ key) :
    (front ++ (key, j) :: back).lookup key' = (front ++ back).lookup key' := by
  rw [List.lookup_append, List.lookup_append, lookup_cons, if_neg h]

private theorem lookup_insert_self (h : (front ++ back).lookup key = none) :
    (front ++ (key, j) :: back).lookup key = some j := by
  rw [List.lookup_append, Option.or_eq_none_iff] at h
  rw [List.lookup_append, h.1, Option.none_or, lookup_cons, if_pos rfl]

private theorem lookup_without_of_ne (h : key' ≠ key) :
    (without key ms).lookup key' = ms.lookup key' := by
  induction ms with
  | nil => rfl
  | cons m ms ih =>
    rw [without, List.filter_cons]
    split
    · rw [lookup_cons, lookup_cons, ← ih, without]
    · rename_i hkey
      have hm : m.1 = key := by simpa using hkey
      rw [lookup_cons, if_neg (hm ▸ h), ← ih, without]

private theorem lookup_without_self : (without key ms).lookup key = none := by
  induction ms with
  | nil => rfl
  | cons m ms ih =>
    rw [without, List.filter_cons]
    split
    · rename_i hkey
      have hm : m.1 ≠ key := by simpa using hkey
      rw [lookup_cons, if_neg hm.symm, ← without, ih]
    · rw [← without, ih]

private theorem lookup_put_of_ne (h : key' ≠ key) :
    (put key j ms).lookup key' = ms.lookup key' := by
  induction ms with
  | nil => rfl
  | cons m ms ih =>
    rw [put, List.map_cons, ← put]
    split
    · rename_i hm
      rw [lookup_cons, if_neg h, lookup_cons, if_neg (hm ▸ h), ih]
    · rw [lookup_cons, lookup_cons, ih]

private theorem lookup_put_self (h : ms.lookup key = some j) :
    (put key j' ms).lookup key = some j' := by
  induction ms with
  | nil => exact nomatch h
  | cons m ms ih =>
    rw [put, List.map_cons, ← put]
    split
    · rw [lookup_cons, if_pos rfl]
    · rename_i hm
      rw [lookup_cons, if_neg (Ne.symm hm)] at h ⊢
      exact ih h

end Json

variable {ms ms' : List (String × Json)} {p : Place} {fields : List Field}

/-- No two fields have one key, and none has the key of the kind. -/
theorem Field.nodup_kind_ofKind (ms : List (String × Json)) (k : Kind) :
    ((kind :: ofKind ms k).map key).Nodup := by
  have hoperation : ∀ owner, ((kind :: ofOperation owner ms).map key).Nodup := by
    intro owner
    rw [ofOperation, ofResult]
    split <;> simp [kind, description, name, arguments, directives, type, loc]
  cases k with
  | mutationDefinition => exact hoperation .mutation
  | queryDefinition => exact hoperation .query
  | _ => simp [ofKind, kind, description, name, arguments, directives, type, loc]

namespace Place

/-- What is looked for at a place for one structure only does not depend on the members. -/
theorem fields?_of_fixed (h : p.fixedFields? = some fields) (ms : List (String × Json)) :
    p.fields? ms = some fields := by
  cases p with
  | scalar | value | type | definition | node => exact nomatch h
  | _ => exact h

private theorem nodup_of_fixed (h : p.fixedFields? = some fields) :
    ((Field.kind :: fields).map Field.key).Nodup := by
  cases p with
  | scalar | value | type | definition | node => exact nomatch h
  | source =>
    obtain rfl := Option.some.inj h
    simp [Field.kind, Field.ofSource]
  | loc =>
    obtain rfl := Option.some.inj h
    simp [Field.kind, Field.ofLoc]
  | _ =>
    obtain rfl := Option.some.inj h
    exact Field.nodup_kind_ofKind ..

/-- Otherwise the kind is looked for, and then what the kind has. -/
theorem fields?_eq_some (h : p.fields? ms = some fields) :
    p.fixedFields? = some fields ∨ ∃ k, fields = .kind :: Field.ofKind ms k := by
  cases p with
  | scalar => exact nomatch h
  | value | type | definition | node =>
    obtain ⟨k, -, rfl⟩ := Option.map_eq_some_iff.1 h
    exact .inr ⟨k, rfl⟩
  | _ => exact .inl h

private theorem nodup_of_fields? (h : p.fields? ms = some fields) :
    (fields.map Field.key).Nodup := by
  obtain hfixed | ⟨k, rfl⟩ := fields?_eq_some h
  · exact (nodup_of_fixed hfixed).of_cons
  · exact Field.nodup_kind_ofKind ms k

/-- The field with a key is the only one. -/
theorem eq_of_key_eq (h : p.fields? ms = some fields) {f g : Field} (hf : f ∈ fields)
    (hg : g ∈ fields) (hkey : g.key = f.key) : g = f :=
  List.inj_on_of_nodup_map (nodup_of_fields? h) hg hf hkey

private theorem key_ne_kind (h : p.fixedFields? = some fields) {f : Field} (hf : f ∈ fields) :
    f.key ≠ "kind" := by
  intro hkey
  exact (List.nodup_cons.1 (nodup_of_fixed h)).1 (List.mem_map.2 ⟨f, hf, hkey⟩)

/-- A change that touches none of the members that are looked for. -/
theorem tolerates_of_lookup_eq (h : ∀ f ∈ fields, ms'.lookup f.key = ms.lookup f.key) :
    Tolerates fields ms ms' := by
  intro f hf
  rw [h f hf]
  exact .same

/-- A change that touches the members for one field only. -/
theorem tolerates_of_field (h : p.fields? ms = some fields) {f : Field} (hf : f ∈ fields)
    (here : f.Tolerates (ms.lookup f.key) (ms'.lookup f.key))
    (others : ∀ key, key ≠ f.key → ms'.lookup key = ms.lookup key) : Tolerates fields ms ms' := by
  intro g hg
  by_cases hkey : g.key = f.key
  · obtain rfl := eq_of_key_eq h hf hg hkey
    exact here
  · rw [others g.key hkey]
    exact .same

/-- A node still names its kind, because null and an empty list name none. -/
theorem kind?_of_tolerates {k : Kind} (hk : Json.kind? (.obj ms) = some k)
    (h : Tolerates (.kind :: fields) ms ms') : Json.kind? (.obj ms') = some k := by
  have hkey : Field.Tolerates .kind (ms.lookup "kind") (ms'.lookup "kind") := h _ List.mem_cons_self
  rw [Json.kind?, Json.member?] at hk ⊢
  generalize ms.lookup "kind" = j?, ms'.lookup "kind" = j'? at hk hkey ⊢
  cases hkey with
  | same => exact hk
  | member _ hkeeps => cases hk
  | item hlist => cases hk
  | drop hempty =>
    rcases hempty with rfl | rfl
    · cases hk
    · cases hk
  | writeNull hnullable => cases hnullable

/-- What a filter asks for is still no empty list, which no change writes. -/
theorem isFilledCondition_of_tolerates (h : Tolerates (Field.ofKind ms .filterCondition) ms ms')
    (hfilled : (Json.obj ms).IsFilledCondition) : (Json.obj ms').IsFilledCondition := by
  have hkey := h ⟨"condition", .required, .object⟩ (by simp)
  rw [Json.IsFilledCondition, Json.member?] at hfilled ⊢
  generalize ms.lookup "condition" = j?, ms'.lookup "condition" = j'? at hkey hfilled ⊢
  cases hkey with
  | same => exact hfilled
  | member => simp
  | item hlist => exact absurd hlist (by simp)
  | drop => simp
  | writeNull hnullable => cases hnullable

/-- A list of which every item is filled is still one, since a change in an item keeps it filled. -/
private theorem forall_filled_of_tolerates {key : String} {place : Place}
    {filled : Json → Prop} (hplace : ∀ j, place.IsFilled j ↔ filled j)
    (hkey : Field.Tolerates ⟨key, .list, place⟩ (ms.lookup key) (ms'.lookup key))
    (h : ∀ items, ms.lookup key = some (.arr items) → ∀ i ∈ items, filled i) :
    ∀ items, ms'.lookup key = some (.arr items) → ∀ i ∈ items, filled i := by
  generalize ms.lookup key = j?, ms'.lookup key = j'? at hkey h ⊢
  cases hkey with
  | same => exact h
  | member hsingle => exact absurd hsingle (by simp)
  | @item before after j j' _ hstays =>
    intro items hitems i hi
    obtain rfl : before ++ j' :: after = items := by simpa using hitems
    have hbefore := h _ rfl
    simp only [List.mem_append, List.mem_cons] at hi hbefore
    rcases hi with hi | rfl | hi
    · exact hbefore i (.inl hi)
    · exact (hplace _).1 (hstays ((hplace _).2 (hbefore j (.inr (.inl rfl))))).2
    · exact hbefore i (.inr (.inr hi))
  | drop => nofun
  | writeNull hnullable => cases hnullable

private theorem isFilledFilter_of_tolerates
    (h : Tolerates (Field.ofKind ms .filterDefinition) ms ms')
    (hfilled : (Json.obj ms).IsFilledFilter) : (Json.obj ms').IsFilledFilter :=
  forall_filled_of_tolerates (fun _ => .rfl) (h ⟨"conditions", .list, .condition⟩ (by simp)) hfilled

private theorem isFilledDocument_of_tolerates (h : Tolerates (Field.ofKind ms .document) ms ms')
    (hfilled : (Json.obj ms).IsFilledDocument) : (Json.obj ms').IsFilledDocument :=
  forall_filled_of_tolerates (fun _ => .rfl) (h ⟨"definitions", .list, .definition⟩ (by simp))
    hfilled

/-- What is read at a place stays if the members that are looked for are tolerably the same. -/
theorem stays_of_tolerates (hfields : p.fields? ms = some fields) (h : Tolerates fields ms ms') :
    p.Stays (.obj ms) (.obj ms') := by
  intro hfilled
  have htable : ∀ fs, p.fields? ms = some fs → Tolerates fs ms ms' := by
    intro fs hfs
    rw [hfields] at hfs
    exact Option.some.inj hfs ▸ h
  cases p with
  | scalar => exact nomatch hfields
  | source => exact ⟨Source.keeps_parts.read (htable _ rfl) _, trivial⟩
  | loc => exact ⟨Loc.keeps_parts.read (htable _ rfl) _, trivial⟩
  | name => exact ⟨Name.keeps_parts.read (htable _ rfl) _, trivial⟩
  | namedType => exact ⟨NamedType.keeps_parts.read (htable _ rfl) _, trivial⟩
  | connection => exact ⟨ConnectionType.keeps_parts.read (htable _ rfl) _, trivial⟩
  | object => exact ⟨ObjectValue.keeps_parts.read (htable _ rfl) _, trivial⟩
  | objectField => exact ⟨ObjectFieldOf.agrees_ofJson (htable _ rfl), trivial⟩
  | argument => exact ⟨Argument.keeps_parts.read (htable _ rfl) _, trivial⟩
  | directive => exact ⟨Directive.keeps_parts.read (htable _ rfl) _, trivial⟩
  | inputValue => exact ⟨InputValueDefinition.keeps_parts.read (htable _ rfl) _, trivial⟩
  | field owner => exact ⟨(FieldDefinition.keeps_parts owner).read (htable _ rfl) _, trivial⟩
  | enumValue => exact ⟨EnumValueDefinition.keeps_parts.read (htable _ rfl) _, trivial⟩
  | objectType => exact ⟨ObjectTypeDefinition.keeps_parts.read (htable _ rfl) _, trivial⟩
  | condition =>
    have h := htable _ rfl
    exact ⟨(FilterCondition.keeps_parts hfilled).read h _, isFilledCondition_of_tolerates h hfilled⟩
  | ordering => exact ⟨OrderExpression.keeps_parts.read (htable _ rfl) _, trivial⟩
  | value =>
    obtain ⟨k, hk, rfl⟩ := Option.map_eq_some_iff.1 hfields
    exact ⟨Value.agrees_ofJson hk (kind?_of_tolerates hk h) h.of_cons, trivial⟩
  | type =>
    obtain ⟨k, hk, rfl⟩ := Option.map_eq_some_iff.1 hfields
    exact ⟨TypeRef.agrees_ofJson hk (kind?_of_tolerates hk h) h.of_cons, trivial⟩
  | definition =>
    obtain ⟨k, hk, rfl⟩ := Option.map_eq_some_iff.1 hfields
    have hk' := kind?_of_tolerates hk h
    refine ⟨Definition.agrees_ofJson hk hk' h.of_cons hfilled, fun hfilter => ?_⟩
    obtain rfl : k = .filterDefinition := Option.some.inj (hk'.symm.trans hfilter)
    exact isFilledFilter_of_tolerates h.of_cons (hfilled hk)
  | node =>
    obtain ⟨k, hk, rfl⟩ := Option.map_eq_some_iff.1 hfields
    have hk' := kind?_of_tolerates hk h
    refine ⟨Node.agrees_ofJson hk hk' h.of_cons hfilled, fun hthis => ?_, fun hthis => ?_,
      fun hthis => ?_⟩
    · obtain rfl : k = .filterCondition := Option.some.inj (hk'.symm.trans hthis)
      exact isFilledCondition_of_tolerates h.of_cons (hfilled.1 hk)
    · obtain rfl : k = .filterDefinition := Option.some.inj (hk'.symm.trans hthis)
      exact isFilledFilter_of_tolerates h.of_cons (hfilled.2.1 hk)
    · obtain rfl : k = .document := Option.some.inj (hk'.symm.trans hthis)
      exact isFilledDocument_of_tolerates h.of_cons (hfilled.2.2 hk)

end Place

namespace Json

private theorem Edit.exists_obj {j j' : Json} (h : Edit p j j') :
    ∃ ms ms', j = .obj ms ∧ j' = .obj ms' := by
  cases h <;> exact ⟨_, _, rfl, rfl⟩

/-- What was read before a change is read after it. -/
theorem Edit.stays {j j' : Json} (h : Edit p j j') : p.Stays j j' := by
  induction h with
  | add hfields hunknown _ =>
    refine Place.stays_of_tolerates hfields (Place.tolerates_of_lookup_eq fun f hf => ?_)
    exact lookup_insert_of_ne (hunknown f hf)
  | @dropKind p ms hfixed =>
    obtain ⟨fields, hfields⟩ := Option.isSome_iff_exists.1 hfixed
    refine Place.stays_of_tolerates (Place.fields?_of_fixed hfields ms)
      (Place.tolerates_of_lookup_eq fun f hf => ?_)
    exact lookup_without_of_ne (Place.key_ne_kind hfields hf)
  | @changeKind p ms _ hfixed =>
    obtain ⟨fields, hfields⟩ := Option.isSome_iff_exists.1 hfixed
    refine Place.stays_of_tolerates (Place.fields?_of_fixed hfields ms)
      (Place.tolerates_of_lookup_eq fun f hf => ?_)
    exact lookup_put_of_ne (Place.key_ne_kind hfields hf)
  | @drop p ms fields key hfields hempty hlist =>
    -- The key may be that of no field, so the one field that is touched is not given.
    refine Place.stays_of_tolerates hfields fun f hf => ?_
    by_cases hkey : f.key = key
    · obtain ⟨j, hj, hempty⟩ : ∃ j, ms.lookup key = some j ∧ (j = .null ∨ j = .arr []) := by
        rcases hempty with h | h
        · exact ⟨_, h, .inl rfl⟩
        · exact ⟨_, h, .inr rfl⟩
      rw [hkey, hj, lookup_without_self]
      exact .drop hempty (hlist f hf hkey)
    · rw [lookup_without_of_ne hkey]
      exact .same
  | @writeNull p front back fields f hfields hf hnullable habsent =>
    refine Place.stays_of_tolerates hfields
      (Place.tolerates_of_field hfields hf ?_ fun _ hkey => lookup_insert_of_ne hkey)
    rw [habsent, lookup_insert_self habsent]
    exact .writeNull hnullable
  | @member p ms fields f j j' hfields hf hsingle hj h ih =>
    obtain ⟨ns, ns', rfl, rfl⟩ := h.exists_obj
    refine Place.stays_of_tolerates hfields (Place.tolerates_of_field hfields hf ?_ fun _ hkey =>
      lookup_put_of_ne hkey)
    rw [hj, lookup_put_self hj]
    exact .member hsingle ih
  | @item p ms fields f before after j j' hfields hf hlist hj h ih =>
    refine Place.stays_of_tolerates hfields (Place.tolerates_of_field hfields hf ?_ fun _ hkey =>
      lookup_put_of_ne hkey)
    rw [hj, lookup_put_self hj]
    exact .item hlist ih

/-- However many changes that mean nothing are made to what a node was read from, it is still read,
if every condition of a filter is filled. -/
theorem ofJson_of_edits {j j' : Json} {n : Node} (hn : Node.ofJson j = .ok n)
    (hfilled : Place.node.IsFilled j) (h : Relation.ReflTransGen (Edit .node) j j') :
    Node.ofJson j' = .ok n ∧ Place.node.IsFilled j' := by
  induction h with
  | refl => exact ⟨hn, hfilled⟩
  | tail _ hstep ih =>
    obtain ⟨hn, hfilled⟩ := ih
    obtain ⟨hkeeps, hfilled⟩ := hstep.stays hfilled
    exact ⟨hkeeps n hn, hfilled⟩

end Json

/-- What a filter asks for is written as an object. -/
theorem FilterCondition.isFilled_toJson (c : FilterCondition) : c.toJson.IsFilledCondition := by
  simp [toJson, Json.node, Json.IsFilledCondition, Json.member?, lookup_cons, Json.optional,
    ObjectValue.toJson, ObjectValue.toValue, Value.toJson]

private theorem FilterDefinition.isFilled_toJson (d : FilterDefinition) :
    d.toJson.IsFilledFilter := by
  have hmember : d.toJson.member? "conditions" =
      some (.list FilterCondition.toJson d.conditions) := by
    cases hdescription : d.description <;>
      simp [toJson, Json.node, Json.member?, lookup_cons, Json.optional, hdescription]
  intro items hitems i hi
  obtain rfl : d.conditions.map FilterCondition.toJson = items := by
    simpa [hmember, Json.list] using hitems
  obtain ⟨c, -, rfl⟩ := List.mem_map.1 hi
  exact c.isFilled_toJson

private theorem Definition.isFilled_toJson (d : Definition) :
    Place.definition.IsFilled d.toJson := by
  intro hkind
  rw [d.kind?_toJson] at hkind
  cases d with
  | filter d => exact d.isFilled_toJson
  | _ => exact nomatch hkind

private theorem Document.isFilled_toJson (d : Document) : d.toJson.IsFilledDocument := by
  have hmember : d.toJson.member? "definitions" =
      some (.list Definition.toJson d.definitions) := by
    simp [toJson, Json.node, Json.member?, lookup_cons, Json.optional]
  intro items hitems i hi
  obtain rfl : d.definitions.map Definition.toJson = items := by
    simpa [hmember, Json.list] using hitems
  obtain ⟨x, -, rfl⟩ := List.mem_map.1 hi
  exact x.isFilled_toJson

/-- Every condition of a filter in the JSON form of a node is filled. -/
theorem Node.isFilled_toJson (n : Node) : Place.node.IsFilled n.toJson := by
  rw [Place.IsFilled, n.kind?_toJson]
  cases n with
  | document d => exact ⟨nofun, nofun, fun _ => d.isFilled_toJson⟩
  | value v => cases v <;> exact ⟨nofun, nofun, nofun⟩
  | type t => cases t <;> exact ⟨nofun, nofun, nofun⟩
  | field owner d => cases owner <;> exact ⟨nofun, nofun, nofun⟩
  | definition d =>
    refine ⟨fun h => ?_, fun h => ?_, fun h => ?_⟩
    · cases d <;> cases h
    · exact d.isFilled_toJson (d.kind?_toJson.trans h)
    · cases d <;> cases h
  | condition c => exact ⟨fun _ => c.isFilled_toJson, nofun, nofun⟩
  | _ => exact ⟨nofun, nofun, nofun⟩

/-- A node whose joins are of two or more connections is read back from its JSON form and from
whatever changes that mean nothing make of the form, and the form is printed like the node. Only
such nodes are ever read. -/
theorem Node.codecContract :
    (∀ n : Node, n.JoinsConnect →
      Node.ofJson n.toJson = .ok n ∧ n.toJson.print = .ok n.print ∧
        ∀ j, Relation.ReflTransGen (Json.Edit .node) n.toJson j → Node.ofJson j = .ok n) ∧
      ∀ (j : Json) (n : Node), Node.ofJson j = .ok n → n.JoinsConnect := by
  refine ⟨fun n h => ?_, fun _ _ h => Node.yields_ofJson h⟩
  have hread := Node.ofJson_toJson h
  exact ⟨hread, Node.print_toJson h,
    fun j hedits => (Json.ofJson_of_edits hread n.isFilled_toJson hedits).1⟩

/-- A join of two connections, of which the first loses its kind, and then the join gets null for
its location. -/
theorem Node.codecContract_join :
    let c : ConnectionType := ⟨⟨⟨"A", none⟩, none⟩, none, .outgoing, .plural, none⟩
    let n : Node := .type (.connectionJoin ⟨[c, c], none⟩)
    let bare : Json :=
      .obj [("type", c.type.toJson), ("edgeLabel", .null), ("direction", .str "OUT"),
        ("cardinality", .str "PLURAL")]
    let ms : List (String × Json) :=
      [("kind", .str "ConnectionJoinType"), ("connections", .arr [bare, c.toJson])]
    n.JoinsConnect ∧
      Relation.ReflTransGen (Json.Edit .node) n.toJson (.obj (ms ++ [("loc", .null)])) ∧
      n.toJson.print = .ok n.print ∧ Node.ofJson (.obj (ms ++ [("loc", .null)])) = .ok n := by
  intro c n bare ms
  have hjoins : n.JoinsConnect := by simp [n]
  have hkind : Json.Edit .node n.toJson (.obj ms) :=
    @Json.Edit.item .node _ (.kind :: Field.ofKind [] .connectionJoinType)
      ⟨"connections", .requiredList, .connection⟩ [] [c.toJson] c.toJson bare rfl (by decide)
      (.inr rfl) rfl (.dropKind rfl)
  have hloc : Json.Edit .node (.obj ms) (.obj (ms ++ [("loc", .null)])) :=
    @Json.Edit.writeNull .node ms [] (.kind :: Field.ofKind [] .connectionJoinType) .loc rfl
      (by decide) rfl rfl
  have hedits := (Relation.ReflTransGen.single hkind).tail hloc
  obtain ⟨-, hprint, hread⟩ := Node.codecContract.1 n hjoins
  exact ⟨Node.codecContract.2 _ n (hread _ hedits), hedits, hprint, hread _ hedits⟩

end SchemaLang
