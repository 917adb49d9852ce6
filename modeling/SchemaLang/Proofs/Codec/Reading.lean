import SchemaLang.Ast.Decode

/-!
# Steps of reading JSON

What the readers that all others are made of answer, as equations that a proof rewrites with. The
readers of values and types that go through the members of an object themselves read a structure
like any other reader. An array that stands for a structure is read like the object that has its
items under the keys of the parts, so that what holds of objects carries over to arrays.
-/

namespace SchemaLang

namespace Json

variable {α β : Type} {ms : List (String × Json)} {key : String}

@[simp] theorem pure_eq (a : α) : (pure a : Read α) = .ok a := rfl

@[simp] theorem ok_bind (a : α) (f : α → Read β) : ((.ok a : Read α) >>= f) = f a := rfl

@[simp] theorem error_bind (e : DecodeError) (f : α → Read β) :
    ((.error e : Read α) >>= f) = .error e := rfl

@[simp] theorem map_ok (f : α → β) (a : α) : f <$> (.ok a : Read α) = .ok (f a) := rfl

@[simp] theorem map_error (f : α → β) (e : DecodeError) :
    f <$> (.error e : Read α) = .error e := rfl

theorem bind_eq_ok {x : Read α} {f : α → Read β} {b : β} :
    x >>= f = .ok b ↔ ∃ a, x = .ok a ∧ f a = .ok b := by
  cases x <;> simp

theorem map_eq_ok {x : Read α} {f : α → β} {b : β} :
    f <$> x = .ok b ↔ ∃ a, x = .ok a ∧ f a = b := by
  cases x <;> simp

@[simp] theorem mapError_ok {ε ε' : Type} (f : ε → ε') (a : α) :
    (Except.ok a : Except ε α).mapError f = .ok a := rfl

@[simp] theorem mapError_eq_ok {ε ε' : Type} {x : Except ε α} {f : ε → ε'} {a : α} :
    x.mapError f = .ok a ↔ x = .ok a := by
  cases x with
  | ok b => rw [mapError_ok, Except.ok.injEq, Except.ok.injEq]
  | error e => exact ⟨nofun, nofun⟩

@[simp] theorem readString_str (s : String) : readString (.str s) = .ok s := rfl

@[simp] theorem readBool_bool (b : Bool) : readBool (.bool b) = .ok b := rfl

@[simp] theorem readNat_int (n : Nat) : readNat (.int n) = .ok n := rfl

@[simp] theorem orNull_null (read : Json → Read α) : orNull read .null = .ok none := rfl

@[simp] theorem orNull_str (read : Json → Read α) (s : String) :
    orNull read (.str s) = some <$> read (.str s) := rfl

/-- A list that was written is read item by item. -/
theorem readList_list {read : Json → Read α} {write : α → Json} {as : List α}
    (h : ∀ a ∈ as, read (write a) = .ok a) : readList read (list write as) = .ok as := by
  change (as.map write).mapM read = .ok as
  induction as with
  | nil => rfl
  | cons a as ih =>
    obtain ⟨ha, has⟩ := List.forall_mem_cons.1 h
    rw [List.map_cons, List.mapM_cons, ha, ok_bind, ih has]
    rfl

/-- The first member with a key counts. -/
theorem lookup_cons {first : String} {j : Json} :
    ((first, j) :: ms).lookup key = if key = first then some j else ms.lookup key := by
  by_cases h : key = first
  · rw [if_pos h, h, List.lookup_cons_self]
  · have hkey : (key == first) = false := beq_false_of_ne h
    rw [if_neg h, List.lookup_cons, hkey]

@[simp] theorem kind?_cons (k : Kind) (ms : List (String × Json)) :
    kind? (.obj (("kind", .str k.text) :: ms)) = some k := by
  simp [kind?, member?, Kind.ofText?_text]

/-- What a place for several kinds holds is read by the reader of its kind. -/
theorem byKind_eq_ok {reader? : Kind → Option (Json → Read α)} {j : Json} {a : α} :
    byKind reader? j = .ok a ↔
      ∃ k read, j.kind? = some k ∧ reader? k = some read ∧ read j = .ok a := by
  rw [byKind]
  cases hkind : j.kind? with
  | none => simp
  | some k => cases hread : reader? k <;> simp [hread]

theorem byKind_of_ok {reader? : Kind → Option (Json → Read α)} {read : Json → Read α} {j : Json}
    {a : α} {k : Kind} (hkind : j.kind? = some k) (hread : reader? k = some read)
    (h : read j = .ok a) : byKind reader? j = .ok a :=
  byKind_eq_ok.2 ⟨k, read, hkind, hread, h⟩

/-- Two families of readers that agree on a value read it alike by its kind. -/
theorem byKind_congr {reader? reader?' : Kind → Option (Json → Read α)} {j : Json}
    (h : ∀ k, (reader? k).map (· j) = (reader?' k).map (· j)) :
    byKind reader? j = byKind reader?' j := by
  rw [byKind, byKind]
  cases j.kind? with
  | none => rfl
  | some k =>
    have hk := h k
    rw [Option.bind_some, Option.bind_some]
    cases hread : reader? k <;> cases hread' : reader?' k <;> simp_all

namespace Part

variable {p : Part α} {a : α}

theorem ofMembers_eq_ok : p.ofMembers ms = .ok a ↔
    (∃ j, ms.lookup p.key = some j ∧ p.read j = .ok a) ∨
      ms.lookup p.key = none ∧ p.absent = some a := by
  rw [ofMembers]
  cases hkey : ms.lookup p.key with
  | some j => simp
  | none => cases habsent : p.absent <;> simp

@[simp] theorem ofMembers_mk (key : String) (read : Json → Read α) (absent : Option α) :
    (Part.mk key read absent).ofMembers ms =
      match ms.lookup key with
      | some j => (read j).mapError (.unread key)
      | none =>
        match absent with
        | some a => .ok a
        | none => .error (.missing key) := rfl

/-- Only what the part's own member is read as matters. -/
theorem ofMembers_congr {read read' : Json → Read α} (absent : Option α)
    (h : ∀ j, ms.lookup key = some j → read j = read' j) :
    (Part.mk key read absent).ofMembers ms = (Part.mk key read' absent).ofMembers ms := by
  rw [ofMembers, ofMembers]
  cases hkey : ms.lookup key with
  | some j => simp [h j hkey]
  | none => rfl

end Part

namespace Parts

variable {ps : Parts (β → α)} {p : Part β}

@[simp] theorem both_ok (f : β → α) (b : β) : both (.ok f) (.ok b) = .ok (f b) := rfl

theorem both_eq_ok {x : Except Fault (β → α)} {y : Except Fault β} {a : α} :
    both x y = .ok a ↔ ∃ f b, x = .ok f ∧ y = .ok b ∧ f b = a := by
  cases x <;> cases y <;> simp [both]

@[simp] theorem read_obj (ps : Parts α) (structName : String) (ms : List (String × Json)) :
    ps.read structName (.obj ms) = ps.readMembers ms := rfl

theorem readMembers_eq_ok {ps : Parts α} {a : α} :
    ps.readMembers ms = .ok a ↔ ps.ofMembers ms = .ok a := mapError_eq_ok

attribute [simp] ofMembers

@[simp] theorem readMembers_and (ps : Parts (β → α)) (p : Part β) :
    (ps.and p).readMembers ms =
      (both (ps.ofMembers ms) (p.ofMembers ms)).mapError Fault.error := rfl

/-- The parts of an array are read one after the other, as long as there are items. -/
theorem ofItems_and {short : Nat → DecodeError} {items rest : List Json} {a : α} :
    (ps.and p).ofItems short items = .ok (a, rest) ↔
      (∃ f j b, ps.ofItems short items = .ok (f, j :: rest) ∧ p.read j = .ok b ∧ f b = a) ∨
        ∃ f b, ps.ofItems short items = .ok (f, []) ∧ p.absent = some b ∧ f b = a ∧ rest = [] := by
  rw [ofItems]
  cases ps.ofItems short items with
  | error e => simp
  | ok front =>
    obtain ⟨f, _ | ⟨j, left⟩⟩ := front
    · cases p.absent <;> simp [eq_comm]
    · cases hread : p.read j with
      | error e => simp [hread]
      | ok b => simp [hread, and_assoc, and_comm (a := f b = a)]

@[simp] theorem length_keys (ps : Parts α) : ps.keys.length = ps.size := by
  induction ps with
  | of a => rfl
  | and ps p ih => simp [keys, size, ih]

/-- Only the members under the keys of the parts matter. -/
theorem ofMembers_congr {ps : Parts α} {ms ms' : List (String × Json)}
    (h : ∀ key ∈ ps.keys, ms.lookup key = ms'.lookup key) : ps.ofMembers ms = ps.ofMembers ms' := by
  induction ps with
  | of a => rfl
  | and ps p ih =>
    have hp : ms.lookup p.key = ms'.lookup p.key := h p.key (by simp [keys])
    rw [ofMembers, ofMembers, ih fun key hkey => h key (by simp [keys, hkey]), Part.ofMembers, hp,
      Part.ofMembers]

/-- What items stand for under keys, one key more. -/
theorem zip_concat (ks : List String) (items : List Json) :
    (ks ++ [key]).zip items = ks.zip items ++ [key].zip (items.drop ks.length) := by
  induction ks generalizing items with
  | nil => simp
  | cons k ks ih => cases items <;> simp [ih]

private theorem lookup_zip_of_not_mem {ks : List String} (h : key ∉ ks) (items : List Json) :
    (ks.zip items).lookup key = none := by
  rw [List.lookup_eq_none_iff]
  intro m hm
  have hmem : m.1 ∈ ks := (List.of_mem_zip hm).1
  exact bne_iff_ne.2 fun heq => h (heq ▸ hmem)

/-- The items of an array are read like the members that have them under the keys of the parts. -/
theorem ofItems_eq_ok {ps : Parts α} {short : Nat → DecodeError} {items rest : List Json} {a : α}
    (hkeys : ps.keys.Nodup) : ps.ofItems short items = .ok (a, rest) ↔
      rest = items.drop ps.size ∧ ps.ofMembers (ps.keys.zip items) = .ok a := by
  induction ps generalizing rest with
  | of b => simp [ofItems, ofMembers, size, and_comm, eq_comm]
  | and ps p ih =>
    obtain ⟨hkeys, -, hkey⟩ := List.nodup_append.1 hkeys
    have hnot : p.key ∉ ps.keys := fun h => hkey _ h _ List.mem_cons_self rfl
    have hfront : ps.ofMembers ((ps.keys ++ [p.key]).zip items) =
        ps.ofMembers (ps.keys.zip items) := by
      refine ofMembers_congr fun key h => ?_
      have hne : key ∉ [p.key] := fun hmem => hnot (List.mem_singleton.1 hmem ▸ h)
      rw [zip_concat, List.lookup_append, lookup_zip_of_not_mem hne, Option.or_none]
    have hlast : ((ps.keys ++ [p.key]).zip items).lookup p.key = (items.drop ps.size).head? := by
      rw [zip_concat, List.lookup_append, lookup_zip_of_not_mem hnot, Option.none_or, length_keys]
      cases items.drop ps.size <;> simp
    rw [ofItems_and, keys, ofMembers, both_eq_ok, hfront]
    have hdrop : items.drop (size (ps.and p)) = (items.drop ps.size).tail := by simp [size]
    rw [hdrop]
    simp only [Part.ofMembers_eq_ok, hlast, ih hkeys]
    cases items.drop ps.size <;> grind

/-- An array is read if no item is left. -/
theorem readItems_eq_ok {ps : Parts α} {structName : String} {items : List Json} {a : α} :
    ps.readItems structName items = .ok a ↔
      ps.ofItems (fun i => .shortArray i structName ps.size) items = .ok (a, []) := by
  rw [readItems]
  cases ps.ofItems (fun i => .shortArray i structName ps.size) items with
  | error e => simp
  | ok front =>
    obtain ⟨b, _ | ⟨j, rest⟩⟩ := front
    · simp
    · simp

/-- An array stands for the object with its items under the keys of the parts, if no two parts have
one key and there are no more items than parts. -/
theorem read_arr_eq_ok {ps : Parts α} {structName : String} {items : List Json} {a : α}
    (hkeys : ps.keys.Nodup) : ps.read structName (.arr items) = .ok a ↔
      items.length ≤ ps.size ∧ ps.read structName (.obj (ps.keys.zip items)) = .ok a := by
  change ps.readItems structName items = .ok a ↔
    _ ∧ ps.readMembers (ps.keys.zip items) = .ok a
  rw [readItems_eq_ok, ofItems_eq_ok hkeys, readMembers_eq_ok, eq_comm, List.drop_eq_nil_iff]

example : NamedType.ofJson (.arr [.arr [.str "A"]]) = .ok ⟨⟨"A", none⟩, none⟩ := rfl

end Parts

end Json

open Json (Part Parts Read byKind byKind_congr readList lookup_cons)

/-- A search through the members for the first one with a key reads what has the key. -/
private theorem search_eq {f : List (String × Json) → Read α} {g : Json → Read α} {key : String}
    {ms : List (String × Json)} {j : Json} (h : ms.lookup key = some j)
    (hf : ∀ first i ms, f ((first, i) :: ms) = if first = key then g i else f ms) :
    f ms = g j := by
  induction ms with
  | nil => exact nomatch h
  | cons m ms ih =>
    rw [lookup_cons] at h
    rw [hf]
    by_cases hkey : m.1 = key
    · rw [if_pos hkey.symm] at h
      rw [if_pos hkey, Option.some.inj h]
    · rw [if_neg (Ne.symm hkey)] at h
      rw [if_neg hkey, ih h]

private theorem valuesOfJson_eq (js : List Json) : valuesOfJson js = js.mapM Value.ofJson := by
  induction js with
  | nil => rfl
  | cons j js ih => rw [valuesOfJson, ih, List.mapM_cons]

private theorem valuesIn_eq (j : Json) : valuesIn j = readList Value.ofJson j := by
  cases j with
  | arr items => exact valuesOfJson_eq items
  | _ => rfl

private theorem fieldsOfJson_eq (js : List Json) :
    fieldsOfJson js = js.mapM ObjectFieldOf.ofJson := by
  induction js with
  | nil => rfl
  | cons j js ih => rw [fieldsOfJson, ih, List.mapM_cons]

private theorem fieldsIn_eq (j : Json) : fieldsIn j = readList ObjectFieldOf.ofJson j := by
  cases j with
  | arr items => exact fieldsOfJson_eq items
  | _ => rfl

/-- A type is read by the reader of its kind, and so is the type inside. -/
theorem TypeRef.ofJson_eq (j : Json) : TypeRef.ofJson j = byKind (reader? TypeRef.ofJson) j := by
  cases j with
  | obj ms =>
    have htype := Part.ofMembers_congr none fun j (h : ms.lookup "type" = some j) =>
      search_eq (f := typeAt) (g := TypeRef.ofJson) h fun _ _ _ => by rw [typeAt]
    have hparts : ∀ (make : TypeRef → Option Loc → TypeRef) (structName : String),
        (parts make fun _ => typeAt ms).read structName (.obj ms) =
          (parts make TypeRef.ofJson).read structName (.obj ms) := by
      intro make structName
      simp only [parts, Parts.read, Parts.readMembers, Parts.ofMembers, Part.required, htype]
    rw [ofJson]
    refine byKind_congr fun k => ?_
    cases k with
    | listType => exact congrArg some (hparts ..)
    | nonNullType => exact congrArg some (hparts ..)
    | _ => rfl
  | _ => rfl

/-- A value is read by the reader of its kind, and so is what is inside a list or an object. -/
theorem Value.ofJson_eq (j : Json) : Value.ofJson j =
    byKind (reader? (readList Value.ofJson) (readList ObjectFieldOf.ofJson)) j := by
  cases j with
  | obj ms =>
    have hvalues := Part.ofMembers_congr (some [])
      fun j (h : ms.lookup "values" = some j) =>
        (search_eq (f := valuesAt) (g := valuesIn) h fun _ _ _ => by rw [valuesAt]).trans
          (valuesIn_eq j)
    have hfields := Part.ofMembers_congr (some [])
      fun j (h : ms.lookup "fields" = some j) =>
        (search_eq (f := fieldsAt) (g := fieldsIn) h fun _ _ _ => by rw [fieldsAt]).trans
          (fieldsIn_eq j)
    have hlist : (listParts fun _ => valuesAt ms).read "ListValue" (.obj ms) =
        (listParts (readList Value.ofJson)).read "ListValue" (.obj ms) := by
      simp only [listParts, Parts.read, Parts.readMembers, Parts.ofMembers, hvalues]
    have hobject : (ObjectValue.parts fun _ => fieldsAt ms).read "ObjectValue" (.obj ms) =
        ObjectValue.ofJson (.obj ms) := by
      simp only [ObjectValue.ofJson, ObjectValue.parts, Parts.read, Parts.readMembers,
        Parts.ofMembers, hfields]
    rw [ofJson]
    refine byKind_congr fun k => ?_
    cases k with
    | listValue => exact congrArg some hlist
    | objectValue => exact congrArg (some <| ObjectValue.toValue <$> ·) hobject
    | _ => rfl
  | _ => rfl

/-- A member of an object is read like any other structure. -/
theorem ObjectFieldOf.ofJson_eq (j : Json) :
    ObjectFieldOf.ofJson j = (parts Value.ofJson).read "ObjectField" j := by
  cases j with
  | obj ms =>
    have hvalue := Part.ofMembers_congr none fun j (h : ms.lookup "value" = some j) =>
      search_eq (f := valueAt) (g := Value.ofJson) h fun _ _ _ => by rw [valueAt]
    rw [ofJson]
    simp only [parts, Parts.read, Parts.readMembers, Parts.ofMembers, Part.required, hvalue]
  | arr items =>
    rw [ofJson]
    rcases items with _ | ⟨name, _ | ⟨value, rest⟩⟩
    · rfl
    · simp [parts, Parts.read, Parts.readItems, Parts.ofItems, Parts.size, Part.required]
    · simp [parts, Parts.read, Parts.readItems, Parts.ofItems, Parts.size, Part.required,
        secondValue]
  | _ => rfl

end SchemaLang
