import SchemaLang.Proofs.Arrows.Standing
import SchemaLang.Proofs.Covering

/-!
# Where the characters of arrows stand

A dash, a less-than sign or a greater-than sign is a token of a document only as a part of a type
with arrows, in one of the places that admit them. The equals sign has other uses: besides, it
stands in the definitions of arguments, in front of their defaults, and in unions.
-/

namespace SchemaLang

/-- The token is one of the characters that arrows are put together from. -/
def Token.isArrowCharacter : Token → Bool
  | .punctuator p => Hop.characters.contains p
  | _ => false

theorem Token.isDescription_of_isArrowCharacter {t : Token} (h : t.isArrowCharacter = true) :
    t.isDescription = false := by
  cases t with
  | description text => exact absurd h Bool.false_ne_true
  | _ => rfl

/-- A definition in which an equals sign stands apart from arrows: that of an argument or of a field
of an input object, or a union. -/
def Node.hasEqualsSign : Node → Bool
  | .inputValue _ => true
  | .definition (.union _) => true
  | _ => false

namespace Form

/-- A character of arrows stands in certain parts of the form and nowhere else. -/
def Confines (t : Token) (inside : Form → Prop) : Form → Prop
  | token u _ => u.isArrowCharacter = true → u ≠ t
  | described _ u _ => u.isArrowCharacter = true → u ≠ t
  | empty => True
  | seq a b => a.Confines t inside ∧ b.Confines t inside
  | located loc a => inside (located loc a) ∨ a.Confines t inside
  | bracketable a => a.Confines t inside

variable {t : Token} {inside : Form → Prop} {locate : Nat → Nat →
  Option Loc} {F : Form} {ls : List Lexeme} {l : Lexeme}

/-- The character stands in one of those parts wherever it is among the lexemes of a form. -/
theorem Confines.exists_part (h : F.Confines t inside) (covers : F.Covers locate ls) (hl : l ∈ ls)
    (token : l.token = t) (arrow : t.isArrowCharacter = true) :
    ∃ G, inside G ∧ ∃ before part behind, ls = before ++ (part ++ behind) ∧
    G.Covers locate part ∧ l ∈ part := by
  induction F generalizing ls with
  | token u _ =>
    obtain ⟨k, rfl, rfl⟩ := covers
    obtain rfl := List.mem_singleton.1 hl
    exact absurd token (h (token ▸ arrow))
  | described _ u _ =>
    obtain ⟨k, rfl, -, rfl⟩ := covers
    obtain rfl := List.mem_singleton.1 hl
    exact absurd token (h (token ▸ arrow))
  | empty =>
    obtain rfl := covers
    exact absurd hl List.not_mem_nil
  | seq a b iha ihb =>
    obtain ⟨xs, ys, rfl, ha, hb⟩ := covers
    rcases List.mem_append.1 hl with hl | hl
    · obtain ⟨G, hG, before, part, behind, rfl, hpart, mem⟩ := iha h.1 ha hl
      exact ⟨G, hG, before, part, behind ++ ys, by simp, hpart, mem⟩
    · obtain ⟨G, hG, before, part, behind, rfl, hpart, mem⟩ := ihb h.2 hb hl
      exact ⟨G, hG, xs ++ before, part, behind, by simp, hpart, mem⟩
  | located loc a ih =>
    rcases h with h | h
    · exact ⟨_, h, [], ls, [], by simp, covers, hl⟩
    · exact ih h covers.1 hl
  | bracketable a ih =>
    -- Brackets that need not be are no characters of arrows, so the lexeme is between them.
    rcases covers with covers | ⟨opening, xs, closing, rfl, hopening, ha, hclosing⟩
    · exact ih h covers hl
    · have bracket {k : Lexeme} {p : Punctuator} (hk : k.token = .punctuator p)
          (hp : Token.isArrowCharacter (.punctuator p) = false) : l ≠ k := by
        rintro rfl
        rw [← token, hk, hp] at arrow
        exact Bool.false_ne_true arrow
      have mem : l ∈ xs := by simpa [bracket hopening rfl, bracket hclosing rfl] using hl
      obtain ⟨G, hG, before, part, behind, rfl, hpart, mem⟩ := ih h ha mem
      exact ⟨G, hG, opening :: before, part, behind ++ [closing], by simp, hpart, mem⟩

@[simp] theorem confines_punctuator {p : Punctuator} :
    (punctuator p).Confines t inside ↔
      (Token.isArrowCharacter (.punctuator p) = true → .punctuator p ≠ t) := Iff.rfl

/-- A punctuator that is no character of arrows. -/
theorem Confines.punctuator {p : Punctuator} (hp : Token.isArrowCharacter (.punctuator p) = false) :
    (punctuator p).Confines t inside :=
  fun h => absurd (hp.symm.trans h) Bool.false_ne_true

@[simp] theorem confines_empty : empty.Confines t inside := trivial

@[simp] theorem confines_word (text : String) : (word text).Confines t inside := fun h => nomatch h

@[simp] theorem confines_heading (d : Option String) (text : String) :
    (heading d text).Confines t inside :=
  fun h => nomatch h

@[simp] theorem confines_all {as : List Form} :
    (all as).Confines t inside ↔ ∀ a ∈ as, a.Confines t inside := by
  induction as with
  | nil => simp [all]
  | cons a as ih => simp [all, Confines, ih]

/-- Forms between punctuators that are no characters of arrows. -/
theorem confines_block {p q : Punctuator} {as : List Form}
    (hp : Token.isArrowCharacter (.punctuator p) = false)
    (hq : Token.isArrowCharacter (.punctuator q) = false) (h : ∀ a ∈ as, a.Confines t inside) :
    (block p q as).Confines t inside := by
  simpa [block, hp, hq] using h

private theorem confines_optionalBlock {p q : Punctuator} {as : List Form}
    (hp : Token.isArrowCharacter (.punctuator p) = false)
    (hq : Token.isArrowCharacter (.punctuator q) = false) (h : ∀ a ∈ as, a.Confines t inside) :
    (optionalBlock p q as).Confines t inside := by
  cases as with
  | nil => trivial
  | cons a as => exact confines_block hp hq h

private theorem confines_separated {p : Punctuator} {as : List Form}
    (hp : Token.isArrowCharacter (.punctuator p) = false) (h : ∀ a ∈ as, a.Confines t inside) :
    (separated p as).Confines t inside := by
  cases as with
  | nil => trivial
  | cons a as =>
    obtain ⟨ha, has⟩ := List.forall_mem_cons.1 h
    refine ⟨ha, confines_all.2 fun c hc => ?_⟩
    obtain ⟨b, hb, rfl⟩ := List.mem_map.1 hc
    exact ⟨by simp [hp], has b hb⟩

end Form

variable {t : Token} {inside : Form → Prop} {depth : Nat}

@[simp] theorem Name.confines_form (n : Name) : n.form.Confines t inside := .inr fun h => nomatch h

@[simp] theorem Name.confines_describedForm (d : Option String) (n : Name) :
    (n.describedForm d).Confines t inside :=
  .inr fun h => nomatch h

@[simp] theorem NamedType.confines_form (u : NamedType) : u.form.Confines t inside :=
  .inr u.name.confines_form

mutual

theorem Value.confines_form : ∀ v : Value, v.form.Confines t inside
  | .var n _ => .inr ⟨.punctuator rfl, n.confines_form, trivial⟩
  | .int .. => .inr fun h => nomatch h
  | .float .. => .inr fun h => nomatch h
  | .string .. => .inr fun h => nomatch h
  | .boolean .. => .inr fun h => nomatch h
  | .enum .. => .inr fun h => nomatch h
  | .list vs _ => .inr (Form.confines_block rfl rfl (Value.confines_forms vs))
  | .object fs _ => .inr (Form.confines_block rfl rfl (Value.confines_fieldForms fs))

theorem Value.confines_forms : ∀ vs : List Value, ∀ a ∈ Value.forms vs, a.Confines t inside
  | [] => by simp [Value.forms]
  | v :: vs => by simpa [Value.forms] using ⟨Value.confines_form v, Value.confines_forms vs⟩

theorem Value.confines_fieldForms :
    ∀ fs : List ObjectField, ∀ a ∈ Value.fieldForms fs, a.Confines t inside
  | [] => by simp [Value.fieldForms]
  | ⟨n, v, loc⟩ :: fs => by
    refine List.forall_mem_cons.2 ⟨.inr ?_, Value.confines_fieldForms fs⟩
    exact ⟨n.confines_form, .punctuator rfl, Value.confines_form v, trivial⟩

end

private theorem Argument.confines_form (a : Argument) : a.form.Confines t inside :=
  .inr ⟨a.name.confines_form, .punctuator rfl, a.value.confines_form, trivial⟩

private theorem Directive.confines_form (d : Directive) : d.form.Confines t inside := by
  have arguments :
      (Form.optionalBlock .parenOpen .parenClose (d.arguments.map (·.form))).Confines t inside :=
    Form.confines_optionalBlock rfl rfl (by simp [Argument.confines_form])
  exact .inr ⟨.punctuator rfl, d.name.confines_form, arguments, trivial⟩

@[simp] theorem Directive.confines_forms (ds : List Directive) :
    (Directive.forms ds).Confines t inside := by
  simp [Directive.forms, Directive.confines_form]

@[simp] theorem EnumValueDefinition.confines_form (d : EnumValueDefinition) :
    d.form.Confines t inside :=
  .inr (by simp)

private theorem OrderExpression.confines_form (e : OrderExpression) : e.form.Confines t inside := by
  have objects : (objectsForm e.expression).Confines t inside := by
    unfold objectsForm
    split
    · exact Value.confines_form _
    · exact Form.confines_block rfl rfl (by simp [ObjectValue.form, Value.confines_form])
  exact .inr ⟨e.key.confines_form, .punctuator rfl, objects, trivial⟩

theorem TypeRef.IsPlain.confines {u : TypeRef} (h : u.IsPlain) : u.form.Confines t inside := by
  induction u with
  | named u => exact u.confines_form
  | list u loc ih => exact .inr ⟨.punctuator rfl, ih h, .punctuator rfl, trivial⟩
  | nonNull u loc ih => exact .inr ⟨ih h.of_nonNull, .punctuator rfl, trivial⟩
  | connection | connectionJoin | edge => exact h.elim

/-- A type that a place admits has arrows, which may be where arrows are, or none. -/
theorem ArrowPlace.confines {place : ArrowPlace} {u : TypeRef} (h : place.admits u)
    (arrows : u.HasArrows → inside u.form) : u.form.Confines t inside := by
  by_cases hu : u.HasArrows
  · -- Whether it is marked as required or not, a type with arrows is located, and so is one of
    -- those parts as a whole.
    have hinside := arrows hu
    rcases hu with hu | ⟨v, loc, rfl, hu⟩
    · cases u with
      | connection | connectionJoin | edge => exact .inl hinside
      | _ => exact hu.elim
    · exact .inl hinside
  · exact (isPlain_of_not_hasArrows h hu).confines

/-- The forms of the types with arrows in a node are among certain ones, and those of the
definitions with an equals sign if that is the character. -/
structure Node.ArrowsAmong (root : Node) (t : Token) (inside : Form → Prop) : Prop where
  arrows : ∀ n place u, root.Within n → n.typeAt? place = some u → u.HasArrows → inside u.form
  equals : t = .punctuator .equals → ∀ n, root.Within n → n.hasEqualsSign = true →
    ∀ F, n.IsWrittenAs F → inside F

namespace Node.ArrowsAmong

variable {root : Node}

theorem of_mem_children {n : Node} (h : root.ArrowsAmong t inside) (hn : n ∈ root.children) :
    n.ArrowsAmong t inside where
  arrows m place u hm := h.arrows m place u (.of_mem_children hn hm)
  equals ht m hm := h.equals ht m (.of_mem_children hn hm)

/-- The type in one of the places is one of those or a plain one. -/
theorem type (h : root.ArrowsAmong t inside) {place : ArrowPlace} {u : TypeRef}
    (hu : root.typeAt? place = some u) (admits : place.admits u) : u.form.Confines t inside :=
  ArrowPlace.confines admits (h.arrows root place u .refl hu)

end Node.ArrowsAmong

theorem InputValueDefinition.Conforms.confines {d : InputValueDefinition} (h : d.Conforms depth)
    (among : (Node.inputValue d).ArrowsAmong t inside) : d.form.Confines t inside := by
  -- The sign in front of the default is the only character of arrows, so another one is nowhere in
  -- the definition.
  by_cases ht : t = .punctuator .equals
  · exact .inl (among.equals ht _ .refl rfl _ rfl)
  · have defaults : (defaultForm d.defaultValue).Confines t inside := by
      cases d.defaultValue with
      | none => trivial
      | some v => exact ⟨fun _ => Ne.symm ht, v.confines_form, trivial⟩
    exact .inr (by simp [h.type.1.confines, defaults, Token.isArrowCharacter, Hop.characters])

/-- The arguments of a node. -/
theorem InputValueDefinition.confines_argumentForms {root : Node} {ds : List InputValueDefinition}
    (among : root.ArrowsAmong t inside) (h : ∀ d ∈ ds, d.Conforms depth)
    (parts : ∀ d ∈ ds, .inputValue d ∈ root.children) : (argumentForms ds).Confines t inside := by
  refine Form.confines_optionalBlock rfl rfl (List.forall_mem_map.2 fun d hd => ?_)
  exact (h d hd).confines (among.of_mem_children (parts d hd))

theorem FilterCondition.Conforms.confines {c : FilterCondition} (h : c.Conforms depth)
    (among : (Node.condition c).ArrowsAmong t inside) : c.form.Confines t inside := by
  have arguments := InputValueDefinition.confines_argumentForms among h.arguments
    fun a ha => by simp [Node.children, Node.slots, Slot.list, PartSort.inputValue, ha]
  exact .inr ⟨c.key.confines_form, .punctuator rfl, arguments, Value.confines_form _, trivial⟩

theorem FieldDefinition.Conforms.confines {form : TypeRef → Prop} {owner : FieldOwner}
    {f : FieldDefinition} (h : f.Conforms form depth)
    (among : (Node.field owner f).ArrowsAmong t inside) (type : f.type.form.Confines t inside) :
    f.form.Confines t inside := by
  have arguments := InputValueDefinition.confines_argumentForms among h.arguments
    fun a ha => by simp [Node.children, Node.slots, Slot.list, PartSort.inputValue, ha]
  exact .inr (by simp [type, arguments, Token.isArrowCharacter, Hop.characters])

/-- The fields of a node, in one of the places. -/
theorem FieldDefinition.confines_forms {root : Node} {owner : FieldOwner}
    {fs : List FieldDefinition} (among : root.ArrowsAmong t inside) (place : ArrowPlace)
    (h : ∀ f ∈ fs, f.Conforms place.admits depth) (parts : ∀ f ∈ fs, .field owner f ∈ root.children)
    (types : ∀ f ∈ fs, (Node.field owner f).typeAt? place = some f.type) :
    (Form.block .braceOpen .braceClose (fs.map (·.form))).Confines t inside := by
  refine Form.confines_block rfl rfl (List.forall_mem_map.2 fun f hf => ?_)
  have field := among.of_mem_children (parts f hf)
  exact (h f hf).confines field (field.type (types f hf) (h f hf).type.1)

theorem ObjectTypeDefinition.Conforms.confines {first : Form} {o : ObjectTypeDefinition}
    (h : o.Conforms depth) (among : (Node.definition (.object o)).ArrowsAmong t inside)
    (hfirst : first.Confines t inside) : (o.formFrom first).Confines t inside := by
  have parts : ∀ f ∈ o.fields, .field .type f ∈ (Node.definition (.object o)).children :=
      fun f hf => by
    simp [Node.children, Node.slots, Definition.slots, Slot.list, PartSort.field, hf]
  have fields := FieldDefinition.confines_forms among .field h.fields parts fun _ _ => rfl
  have interfaces : (interfaceForms o.interfaces).Confines t inside := by
    cases o.interfaces <;> simp [interfaceForms]
  exact .inr (by simp [hfirst, interfaces, fields])

/-- A mutation or a query confines the character if its fields do. -/
theorem OperationDefinition.Conforms.confines {fields : List FieldDefinition → Prop}
    {d : OperationDefinition} {root : Node} (h : d.Conforms fields depth)
    (among : root.ArrowsAmong t inside) (keyword : String)
    (parts : ∀ a ∈ d.arguments, .inputValue a ∈ root.children)
    (hfields : ∀ fs, d.result = .fields fs → fields fs →
      (Form.block .braceOpen .braceClose (fs.map (·.form))).Confines t inside) :
    (d.form keyword).Confines t inside := by
  have arguments := InputValueDefinition.confines_argumentForms among h.arguments parts
  have result : (d.result.form d.directives).Confines t inside := by
    have hresult := h.result
    cases hd : d.result with
    | type u =>
      rw [hd] at hresult
      exact ⟨.punctuator rfl, hresult.1.confines, Directive.confines_forms _, trivial⟩
    | fields fs =>
      rw [hd] at hresult
      exact ⟨Directive.confines_forms _, hfields fs hd hresult, trivial⟩
  exact .inr (by simp [arguments, result])

/-- The character stands in a definition in its types with arrows, or besides if it is
the equals sign. -/
theorem Definition.Conforms.confines {x : Definition} (h : x.Conforms depth)
    (among : (Node.definition x).ArrowsAmong t inside) : x.form.Confines t inside := by
  cases x with
  | scalar d => exact .inr (by simp)
  | object o => exact ObjectTypeDefinition.Conforms.confines h among (Form.confines_heading _ _)
  | interface d =>
    have parts : ∀ f ∈ d.fields, .field .type f ∈ (Node.definition (.interface d)).children :=
        fun f hf => by
      simp [Node.children, Node.slots, Definition.slots, Slot.list, PartSort.field, hf]
    have fields := FieldDefinition.confines_forms among .field h.fields parts fun _ _ => rfl
    exact .inr (by simp [fields])
  | union d =>
    by_cases ht : t = .punctuator .equals
    · exact .inl (among.equals ht _ .refl rfl _ (.inl rfl))
    · have types : (Form.separated .pipe (d.types.map (·.form))).Confines t inside :=
        Form.confines_separated rfl (by simp)
      exact .inr (by simp [types, Ne.symm ht])
  | enum d =>
    have values : (Form.block .braceOpen .braceClose (d.values.map (·.form))).Confines t inside :=
      Form.confines_block rfl rfl (by simp)
    exact .inr (by simp [values])
  | inputObject d =>
    have parts : ∀ f ∈ d.fields, .inputValue f ∈ (Node.definition (.inputObject d)).children :=
        fun f hf => by
      simp [Node.children, Node.slots, Definition.slots, Slot.list, PartSort.inputValue, hf]
    have fields : (Form.block .braceOpen .braceClose (d.fields.map (·.form))).Confines t inside :=
      Form.confines_block rfl rfl (List.forall_mem_map.2 fun f hf =>
        (h.fields f hf).confines (among.of_mem_children (parts f hf)))
    exact .inr (by simp [fields])
  | typeExtension e =>
    have part : .definition (.object e.definition) ∈
        (Node.definition (.typeExtension e)).children := by
      simp [Node.children, Node.slots, Definition.slots, Slot.required, PartSort.objectType]
    have object := ObjectTypeDefinition.Conforms.confines h.definition (among.of_mem_children part)
      (Form.confines_word "type")
    exact .inr (by simp [object])
  | directive d =>
    have locations : (Form.separated .pipe (d.locations.map (·.form))).Confines t inside :=
      Form.confines_separated rfl (by simp)
    have arguments := InputValueDefinition.confines_argumentForms among h.arguments
      fun a ha => by
        simp [Node.children, Node.slots, Definition.slots, Slot.list, PartSort.inputValue, ha]
    exact .inr (by simp [locations, arguments, Token.isArrowCharacter, Hop.characters])
  | mutation d =>
    have arguments :
        ∀ a ∈ d.arguments, .inputValue a ∈ (Node.definition (.mutation d)).children := by
      intro a ha
      simp [Node.children, Node.slots, Definition.slots, OperationDefinition.slots, Slot.list,
        PartSort.inputValue, ha]
    refine OperationDefinition.Conforms.confines h among "mutation" arguments ?_
    intro fs hfs hconform
    have parts : ∀ f ∈ fs, .field .mutation f ∈ (Node.definition (.mutation d)).children := by
      intro f hf
      simp [Node.children, Node.slots, Definition.slots, OperationDefinition.slots,
        OperationResult.slot, hfs, Slot.list, PartSort.field, hf]
    exact FieldDefinition.confines_forms among .mutationField hconform parts fun _ _ => rfl
  | query d =>
    have arguments : ∀ a ∈ d.arguments, .inputValue a ∈ (Node.definition (.query d)).children := by
      intro a ha
      simp [Node.children, Node.slots, Definition.slots, OperationDefinition.slots, Slot.list,
        PartSort.inputValue, ha]
    refine OperationDefinition.Conforms.confines h among "query" arguments fun fs hfs hconform => ?_
    refine Form.confines_block rfl rfl (List.forall_mem_map.2 fun f hf => ?_)
    have part : .field .query f ∈ (Node.definition (.query d)).children := by
      simp [Node.children, Node.slots, Definition.slots, OperationDefinition.slots,
        OperationResult.slot, hfs, Slot.list, PartSort.field, hf]
    have field := hconform.2 f hf
    exact field.confines (among.of_mem_children part) field.type.1.confines
  | filter d =>
    have type :=
      among.type (rfl : (Node.definition (.filter d)).typeAt? .target = some d.type) h.type.1
    have parts : ∀ c ∈ d.conditions, .condition c ∈ (Node.definition (.filter d)).children :=
        fun c hc => by
      simp [Node.children, Node.slots, Definition.slots, Slot.list, PartSort.condition, hc]
    have conditions :
        (Form.block .braceOpen .braceClose (d.conditions.map (·.form))).Confines t inside :=
      Form.confines_block rfl rfl (List.forall_mem_map.2 fun c hc =>
        (h.conditions c hc).confines (among.of_mem_children (parts c hc)))
    exact .inr (by simp [type, conditions])
  | order d =>
    have type :=
      among.type (rfl : (Node.definition (.order d)).typeAt? .target = some d.type) h.type.1
    have expressions :
        (Form.block .braceOpen .braceClose (d.expressions.map (·.form))).Confines t inside :=
      Form.confines_block rfl rfl (by simp [OrderExpression.confines_form])
    exact .inr (by simp [type, expressions])

/-- Where a character of arrows may stand in a document: in a type with arrows in one of the places
for it, or, if it is the equals sign, in one of the definitions that have such a sign. -/
def Document.HoldsArrowCharacter (d : Document) (t : Token) (n : Node) : Prop :=
  (∃ place u, d.HasTypeAt place u ∧ u.HasArrows ∧ n = .type u) ∨
    (t = .punctuator .equals ∧ (Node.document d).Within n ∧ n.hasEqualsSign = true)

/-- A character of arrows stands in a document there and nowhere else. -/
theorem Document.Conforms.confines {d : Document} (h : d.Conforms depth) (t : Token) :
    d.form.Confines t fun F => ∃ n, d.HoldsArrowCharacter t n ∧ n.IsWrittenAs F := by
  have among : (Node.document d).ArrowsAmong t fun F =>
      ∃ n, d.HoldsArrowCharacter t n ∧ n.IsWrittenAs F :=
    ⟨fun n place u hn hu arrows => ⟨.type u, .inl ⟨place, u, ⟨n, hn, hu⟩, arrows, rfl⟩, rfl⟩,
      fun ht n hn equals F written => ⟨n, .inr ⟨ht, hn, equals⟩, written⟩⟩
  refine Form.confines_all.2 fun F hF => ?_
  obtain ⟨x, hx, rfl⟩ := List.mem_map.1 hF
  have part : .definition x ∈ (Node.document d).children := by
    simp [Node.children, Node.slots, Slot.list, PartSort.definition, hx]
  exact (h.definitions x hx).confines (among.of_mem_children part)

end SchemaLang
