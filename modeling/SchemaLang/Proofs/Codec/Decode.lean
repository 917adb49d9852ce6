import SchemaLang.Proofs.Codec.Joins
import SchemaLang.Proofs.Codec.Reading

/-!
# What reading gives

No reader makes a join of fewer than two connections, so that no node that was read holds one, from
objects or from arrays: what holds of whatever the readers of the parts answer holds of everything
that is made of their answers.
-/

namespace SchemaLang

namespace Json

variable {α β : Type} {P : α → Prop} {Q : β → Prop} {read : Json → Read α}

/-- Every answer of the reader has a property. -/
def Yields (read : Json → Read α) (P : α → Prop) : Prop := ∀ ⦃j a⦄, read j = .ok a → P a

theorem Yields.map (hread : Yields read P) {f : α → β} (h : ∀ a, P a → Q (f a)) :
    Yields (fun j => f <$> read j) Q := by
  intro j b hb
  obtain ⟨a, ha, rfl⟩ := map_eq_ok.1 hb
  exact h a (hread ha)

/-- Whatever is made of an answer has a property that all of its kind have. -/
theorem Yields.map_of_forall {f : α → β} (h : ∀ a, Q (f a)) : Yields (fun j => f <$> read j) Q := by
  intro j b hb
  obtain ⟨a, -, rfl⟩ := map_eq_ok.1 hb
  exact h a

theorem Yields.readList (hread : Yields read P) : Yields (readList read) (∀ a ∈ ·, P a) := by
  intro j as h
  cases j with
  | arr items =>
    change items.mapM read = .ok as at h
    induction items generalizing as with
    | nil =>
      obtain rfl : [] = as := Except.ok.inj h
      exact fun a ha => absurd ha List.not_mem_nil
    | cons j items ih =>
      rw [List.mapM_cons] at h
      obtain ⟨a, ha, h⟩ := bind_eq_ok.1 h
      obtain ⟨as', has', h⟩ := bind_eq_ok.1 h
      obtain rfl : a :: as' = as := Except.ok.inj h
      exact List.forall_mem_cons.2 ⟨hread ha, ih has'⟩
  | _ => exact nomatch h

theorem Yields.byKind {reader? : Kind → Option (Json → Read α)}
    (h : ∀ k read, reader? k = some read → Yields read P) : Yields (byKind reader?) P := by
  intro j a ha
  obtain ⟨k, read, -, hread, ha⟩ := byKind_eq_ok.1 ha
  exact h k read hread ha

namespace Part

/-- The part may turn out to be this. -/
def Gives (p : Part α) (a : α) : Prop := (∃ j, p.read j = .ok a) ∨ p.absent = some a

private theorem gives_of_ofMembers {p : Part α} {ms : List (String × Json)} {a : α}
    (h : p.ofMembers ms = .ok a) : p.Gives a := by
  rcases ofMembers_eq_ok.1 h with ⟨j, -, hj⟩ | ⟨-, habsent⟩
  · exact .inl ⟨j, hj⟩
  · exact .inr habsent

theorem Gives.required {key : String} {a : α} (h : (Part.required key read).Gives a)
    (hread : Yields read P) : P a := by
  rcases h with ⟨j, hj⟩ | habsent
  · exact hread hj
  · exact nomatch habsent

theorem Gives.list {key : String} {as : List α} (h : (Part.list key read).Gives as)
    (hread : Yields read P) : ∀ a ∈ as, P a := by
  rcases h with ⟨j, hj⟩ | habsent
  · exact hread.readList hj
  · rw [← Option.some.inj habsent]
    exact fun a ha => absurd ha List.not_mem_nil

end Part

namespace Parts

/-- A property of whatever the parts make, whatever each part turns out to be. -/
def Always : {α : Type} → Parts α → (α → Prop) → Prop
  | _, .of a, P => P a
  | _, .and ps p, P => ps.Always fun f => ∀ b, p.Gives b → P (f b)

private theorem Always.of_members {ps : Parts α} {ms : List (String × Json)} {a : α}
    (h : ps.Always P) (ha : ps.ofMembers ms = .ok a) : P a := by
  induction ps with
  | of b =>
    obtain rfl := Except.ok.inj ha
    exact h
  | and ps p ih =>
    obtain ⟨f, b, hf, hb, rfl⟩ := both_eq_ok.1 ha
    exact ih h hf b (Part.gives_of_ofMembers hb)

/-- Objects give nothing but what the parts make, and neither do arrays, which are read like
objects. -/
theorem Always.yields {ps : Parts α} (hkeys : ps.keys.Nodup) (h : ps.Always P)
    (structName : String) : Yields (ps.read structName) P := by
  intro j a ha
  cases j with
  | obj ms => exact h.of_members (readMembers_eq_ok.1 ha)
  | arr items =>
    obtain ⟨-, ha⟩ := (read_arr_eq_ok hkeys).1 ha
    exact h.of_members (readMembers_eq_ok.1 ha)
  | _ => exact nomatch ha

end Parts

end Json

open Json (Parts Yields map_eq_ok bind_eq_ok byKind_eq_ok)

theorem ConnectionJoinType.yields_ofJson : Yields ofJson fun t => 2 ≤ t.connections.length := by
  have hread : Yields readConnections fun ts => 2 ≤ ts.length := by
    intro j ts h
    obtain ⟨ts', -, h⟩ := bind_eq_ok.1 h
    split at h
    · cases h
    · rename_i hlength
      obtain rfl := Except.ok.inj h
      exact Nat.not_lt.1 hlength
  refine Parts.Always.yields (by simp [parts, Parts.keys]) ?_ _
  intro ts hts loc _
  exact hts.required hread

/-- A type inside a list or a required type was read from somewhere, and a join from here. -/
def TypeRef.InsideIsRead (j : Json) : TypeRef → Prop
  | .list u _ => ∃ i, TypeRef.ofJson i = .ok u
  | .nonNull u _ => ∃ i, TypeRef.ofJson i = .ok u
  | .connectionJoin u => ConnectionJoinType.ofJson j = .ok u
  | _ => True

private theorem TypeRef.insideIsRead_of_ofJson {j : Json} {t : TypeRef}
    (h : TypeRef.ofJson j = .ok t) : t.InsideIsRead j := by
  have hinside : Yields TypeRef.ofJson fun u => ∃ i, TypeRef.ofJson i = .ok u :=
    fun i _ hi => ⟨i, hi⟩
  rw [ofJson_eq] at h
  obtain ⟨k, read, -, hread, h⟩ := byKind_eq_ok.1 h
  cases k with
  | listType =>
    obtain rfl := Option.some.inj hread
    refine Parts.Always.yields (P := InsideIsRead j) (by simp [parts, Parts.keys]) ?_ _ h
    intro u hu loc _
    exact hu.required hinside
  | nonNullType =>
    obtain rfl := Option.some.inj hread
    refine Parts.Always.yields (P := InsideIsRead j) (by simp [parts, Parts.keys]) ?_ _ h
    intro u hu loc _
    exact hu.required hinside
  | connectionJoinType =>
    obtain rfl := Option.some.inj hread
    obtain ⟨u, hu, rfl⟩ := map_eq_ok.1 h
    exact hu
  | namedType | connectionType | edgeType =>
    obtain rfl := Option.some.inj hread
    obtain ⟨u, -, rfl⟩ := map_eq_ok.1 h
    trivial
  | _ => cases hread

theorem TypeRef.yields_ofJson : Yields TypeRef.ofJson fun t => (Node.type t).JoinsConnect := by
  intro j t h
  have hread := insideIsRead_of_ofJson h
  induction t generalizing j with
  | list u loc ih =>
    obtain ⟨i, hi⟩ := hread
    exact Node.joinsConnect_list.2 (ih hi (insideIsRead_of_ofJson hi))
  | nonNull u loc ih =>
    obtain ⟨i, hi⟩ := hread
    exact Node.joinsConnect_nonNull.2 (ih hi (insideIsRead_of_ofJson hi))
  | connectionJoin u =>
    exact Node.joinsConnect_connectionJoin.2 (ConnectionJoinType.yields_ofJson hread)
  | named t => simp
  | connection t => simp
  | edge t => simp

theorem InputValueDefinition.yields_ofJson :
    Yields InputValueDefinition.ofJson fun d => (Node.type d.type).JoinsConnect := by
  refine Parts.Always.yields (by simp [parts, Parts.keys]) ?_ _
  intro text _ name _ t ht defaultValue _ directives _ loc _
  exact ht.required TypeRef.yields_ofJson

theorem FieldDefinition.yields_ofJson (owner : FieldOwner) :
    Yields (FieldDefinition.ofJson owner) fun d => (Node.field owner d).JoinsConnect := by
  refine Parts.Always.yields (by simp [parts, Parts.keys]) ?_ _
  intro text _ name _ as has t ht directives _ loc _
  exact Node.joinsConnect_field.2
    ⟨has.list InputValueDefinition.yields_ofJson, ht.required TypeRef.yields_ofJson⟩

theorem ObjectTypeDefinition.yields_ofJson :
    Yields ObjectTypeDefinition.ofJson fun d =>
      ∀ f ∈ d.fields, (Node.field .type f).JoinsConnect := by
  refine Parts.Always.yields (by simp [parts, Parts.keys]) ?_ _
  intro text _ name _ interfaces _ directives _ fs hfs loc _
  exact hfs.list (FieldDefinition.yields_ofJson .type)

theorem InterfaceTypeDefinition.yields_ofJson :
    Yields InterfaceTypeDefinition.ofJson fun d =>
      ∀ f ∈ d.fields, (Node.field .type f).JoinsConnect := by
  refine Parts.Always.yields (by simp [parts, Parts.keys]) ?_ _
  intro text _ name _ directives _ fs hfs loc _
  exact hfs.list (FieldDefinition.yields_ofJson .type)

theorem InputObjectTypeDefinition.yields_ofJson :
    Yields InputObjectTypeDefinition.ofJson fun d =>
      ∀ f ∈ d.fields, (Node.type f.type).JoinsConnect := by
  refine Parts.Always.yields (by simp [parts, Parts.keys]) ?_ _
  intro text _ name _ directives _ fs hfs loc _
  exact hfs.list InputValueDefinition.yields_ofJson

theorem TypeExtensionDefinition.yields_ofJson :
    Yields TypeExtensionDefinition.ofJson fun d =>
      ∀ f ∈ d.definition.fields, (Node.field .type f).JoinsConnect := by
  refine Parts.Always.yields (by simp [parts, Parts.keys]) ?_ _
  intro text _ o ho loc _
  exact ho.required ObjectTypeDefinition.yields_ofJson

theorem DirectiveDefinition.yields_ofJson :
    Yields DirectiveDefinition.ofJson fun d =>
      ∀ a ∈ d.arguments, (Node.type a.type).JoinsConnect := by
  refine Parts.Always.yields (by simp [parts, Parts.keys]) ?_ _
  intro text _ name _ as has locations _ loc _
  exact has.list InputValueDefinition.yields_ofJson

private theorem OperationResult.joinsConnect_of_ofMembers {owner : FieldOwner}
    {ms : List (String × Json)} {r : OperationResult}
    (h : OperationResult.ofMembers owner ms = .ok r) : r.JoinsConnect owner := by
  obtain ⟨isFields, -, h⟩ := bind_eq_ok.1 h
  rw [Json.mapError_eq_ok, Parts.readMembers_eq_ok] at h
  cases isFields with
  | true =>
    have hparts : (fieldsParts owner).Always (JoinsConnect owner) :=
      fun _ hfs => hfs.required (FieldDefinition.yields_ofJson owner).readList
    exact hparts.of_members h
  | false =>
    have hparts : typeParts.Always (JoinsConnect owner) :=
      fun _ ht => ht.required TypeRef.yields_ofJson
    exact hparts.of_members h

theorem OperationDefinition.yields_ofJson (kind : Kind) (owner : FieldOwner) :
    Yields (OperationDefinition.ofJson kind owner) fun d =>
      (∀ a ∈ d.arguments, (Node.type a.type).JoinsConnect) ∧ d.result.JoinsConnect owner := by
  intro j d h
  cases j with
  | obj ms =>
    obtain ⟨make, hmake, h⟩ := bind_eq_ok.1 h
    obtain ⟨r, hr, h⟩ := bind_eq_ok.1 h
    obtain rfl := Except.ok.inj h
    have hresult := OperationResult.joinsConnect_of_ofMembers hr
    have hparts : parts.Always fun make =>
        (∀ a ∈ (make r).arguments, (Node.type a.type).JoinsConnect) ∧
          (make r).result.JoinsConnect owner := by
      intro text _ name _ as has directives _ loc _
      exact ⟨has.list InputValueDefinition.yields_ofJson, hresult⟩
    exact hparts.of_members (Parts.readMembers_eq_ok.1 hmake)
  | _ => exact nomatch h

theorem FilterCondition.yields_ofJson :
    Yields FilterCondition.ofJson fun c => (Node.condition c).JoinsConnect := by
  refine Parts.Always.yields (by simp [parts, Parts.keys]) ?_ _
  intro key _ as has condition _ loc _
  exact Node.joinsConnect_condition.2 (has.list InputValueDefinition.yields_ofJson)

theorem FilterDefinition.yields_ofJson :
    Yields FilterDefinition.ofJson fun d => (Node.definition (.filter d)).JoinsConnect := by
  refine Parts.Always.yields (by simp [parts, Parts.keys]) ?_ _
  intro text _ t ht cs hcs loc _
  exact Node.joinsConnect_filter.2
    ⟨ht.required TypeRef.yields_ofJson, hcs.list FilterCondition.yields_ofJson⟩

theorem OrderDefinition.yields_ofJson :
    Yields OrderDefinition.ofJson fun d => (Node.definition (.order d)).JoinsConnect := by
  refine Parts.Always.yields (by simp [parts, Parts.keys]) ?_ _
  intro text _ t ht es _ loc _
  exact Node.joinsConnect_order.2 (ht.required TypeRef.yields_ofJson)

theorem Definition.yields_ofJson :
    Yields Definition.ofJson fun d => (Node.definition d).JoinsConnect := by
  refine Yields.byKind fun k read hread => ?_
  cases k with
  | scalarTypeDefinition | unionTypeDefinition | enumTypeDefinition =>
    obtain rfl := Option.some.inj hread
    exact .map_of_forall fun d => by simp
  | objectTypeDefinition =>
    obtain rfl := Option.some.inj hread
    exact ObjectTypeDefinition.yields_ofJson.map fun _ => Node.joinsConnect_object.2
  | interfaceTypeDefinition =>
    obtain rfl := Option.some.inj hread
    exact InterfaceTypeDefinition.yields_ofJson.map fun _ => Node.joinsConnect_interface.2
  | inputObjectTypeDefinition =>
    obtain rfl := Option.some.inj hread
    exact InputObjectTypeDefinition.yields_ofJson.map fun _ => Node.joinsConnect_inputObject.2
  | typeExtensionDefinition =>
    obtain rfl := Option.some.inj hread
    exact TypeExtensionDefinition.yields_ofJson.map fun _ => Node.joinsConnect_typeExtension.2
  | directiveDefinition =>
    obtain rfl := Option.some.inj hread
    exact DirectiveDefinition.yields_ofJson.map fun _ => Node.joinsConnect_directiveDefinition.2
  | mutationDefinition =>
    obtain rfl := Option.some.inj hread
    exact (OperationDefinition.yields_ofJson ..).map fun _ => Node.joinsConnect_mutation.2
  | queryDefinition =>
    obtain rfl := Option.some.inj hread
    exact (OperationDefinition.yields_ofJson ..).map fun _ => Node.joinsConnect_query.2
  | filterDefinition =>
    obtain rfl := Option.some.inj hread
    exact FilterDefinition.yields_ofJson.map fun _ h => h
  | orderDefinition =>
    obtain rfl := Option.some.inj hread
    exact OrderDefinition.yields_ofJson.map fun _ h => h
  | _ => cases hread

theorem Document.yields_ofJson :
    Yields Document.ofJson fun d => (Node.document d).JoinsConnect := by
  refine Parts.Always.yields (by simp [parts, Parts.keys]) ?_ _
  intro ds hds loc _
  exact Node.joinsConnect_document.2 (hds.list Definition.yields_ofJson)

/-- Every join in a node that was read is one of two or more connections. -/
theorem Node.yields_ofJson : Yields Node.ofJson JoinsConnect := by
  refine Yields.byKind fun k read hread => ?_
  cases k with
  | document =>
    obtain rfl := Option.some.inj hread
    exact Document.yields_ofJson.map fun _ h => h
  | inputValueDefinition =>
    obtain rfl := Option.some.inj hread
    exact InputValueDefinition.yields_ofJson.map fun _ => joinsConnect_inputValue.2
  | fieldDefinition | mutationFieldDefinition | queryFieldDefinition =>
    obtain rfl := Option.some.inj hread
    exact (FieldDefinition.yields_ofJson _).map fun _ h => h
  | filterCondition =>
    obtain rfl := Option.some.inj hread
    exact FilterCondition.yields_ofJson.map fun _ h => h
  | namedType | listType | nonNullType | connectionType | connectionJoinType | edgeType =>
    obtain rfl := Option.some.inj hread
    exact TypeRef.yields_ofJson.map fun _ h => h
  | name | objectField | argument | directive | enumValueDefinition | orderExpression | var
    | intValue | floatValue | stringValue | booleanValue | enumValue | listValue | objectValue =>
    obtain rfl := Option.some.inj hread
    exact .map_of_forall fun a => by simp
  | _ =>
    obtain rfl := Option.some.inj hread
    exact Definition.yields_ofJson.map fun _ h => h

end SchemaLang
