import SchemaLang.Proofs.Gathering

/-!
# Where descriptions stand

A description belongs to a definition, a field, an argument or a field of an input, a value of an
enum, or the key of a condition or an expression, and stands in front of the first token of it. The
object in an extension has none: what is said in front of its first word is said of nothing.
`Document.headings` lists where all these parts stand, and `Form.Covers.exists_heads` finds the
lexemes of a source that are their first ones: the descriptions in the form of a document are those
of these lexemes, and whatever stands in front of another lexeme is lost.
-/

namespace SchemaLang

def FieldDefinition.headings (d : FieldDefinition) : List (Option Loc) :=
  d.loc :: d.arguments.map (·.loc)

def OperationResult.headings : OperationResult → List (Option Loc)
  | .type _ => []
  | .fields ds => ds.flatMap (·.headings)

def OperationDefinition.headings (d : OperationDefinition) : List (Option Loc) :=
  d.loc :: d.arguments.map (·.loc) ++ d.result.headings

def FilterCondition.headings (c : FilterCondition) : List (Option Loc) :=
  c.loc :: c.arguments.map (·.loc)

def Definition.headings : Definition → List (Option Loc)
  | .scalar d => [d.loc]
  | .object d => d.loc :: d.fields.flatMap (·.headings)
  | .interface d => d.loc :: d.fields.flatMap (·.headings)
  | .union d => [d.loc]
  | .enum d => d.loc :: d.values.map (·.loc)
  | .inputObject d => d.loc :: d.fields.map (·.loc)
  -- The object itself is left out: it has no description.
  | .typeExtension d => d.loc :: d.definition.fields.flatMap (·.headings)
  | .directive d => d.loc :: d.arguments.map (·.loc)
  | .mutation d => d.headings
  | .query d => d.headings
  | .filter d => d.loc :: d.conditions.flatMap (·.headings)
  | .order d => d.loc :: d.expressions.map (·.loc)

/-- Where the parts of the document stand that can be described, in order. -/
def Document.headings (d : Document) : List (Option Loc) := d.definitions.flatMap (·.headings)

/-- A part of the document that can be described starts at byte `position`. -/
def Document.HasHeadingAt (d : Document) (position : Nat) : Prop :=
  ∃ l, some l ∈ d.headings ∧ l.start = position

namespace Form

/-- For each description in the form where the outermost node stands that starts with it, if there
is one. A node around the form that starts with it is the `owner`. -/
def headings : Form → (owner : Option (Option Loc)) → List (Option (Option Loc))
  | token .., _ => []
  | described .., owner => [owner]
  | empty, _ => []
  | seq a b, owner => a.headings owner ++ b.headings none
  | located loc a, owner => a.headings (owner.or (some loc))
  | bracketable a, _ => a.headings none

variable {owner : Option (Option Loc)}

@[simp] theorem headings_empty : empty.headings owner = [] := rfl

@[simp] theorem headings_punctuator {p : Punctuator} : (punctuator p).headings owner = [] := rfl

@[simp] theorem headings_word {text : String} : (word text).headings owner = [] := rfl

@[simp] theorem headings_heading {d : Option String} {text : String} :
    (heading d text).headings owner = [owner] := rfl

@[simp] theorem headings_seq {a b : Form} :
    (seq a b).headings owner = a.headings owner ++ b.headings none := rfl

@[simp] theorem headings_located {loc : Option Loc} {a : Form} :
    (located loc a).headings owner = a.headings (owner.or (some loc)) := rfl

@[simp] theorem headings_bracketable {a : Form} :
    (bracketable a).headings owner = a.headings none := rfl

@[simp] theorem headings_all_nil : (all []).headings owner = [] := rfl

@[simp] theorem headings_all_cons {a : Form} {as : List Form} :
    (all (a :: as)).headings owner = a.headings owner ++ (all as).headings none := rfl

@[simp] theorem headings_all {as : List Form} :
    (all as).headings none = as.flatMap (·.headings none) := by
  induction as with
  | nil => rfl
  | cons a as ih => rw [headings_all_cons, ih, List.flatMap_cons]

@[simp] theorem headings_block {p q : Punctuator} {as : List Form} :
    (block p q as).headings owner = as.flatMap (·.headings none) := by
  simp [block]

@[simp] theorem headings_optionalBlock {p q : Punctuator} {as : List Form} :
    (optionalBlock p q as).headings owner = as.flatMap (·.headings none) := by
  cases as with
  | nil => rfl
  | cons a as => exact headings_block

private theorem headings_separated {p : Punctuator} {as : List Form} :
    (separated p as).headings none = as.flatMap (·.headings none) := by
  cases as with
  | nil => rfl
  | cons a as => simp [separated, List.flatMap_map]

end Form

variable {owner : Option (Option Loc)}

@[simp] theorem Name.headings_form (n : Name) : n.form.headings owner = [] := rfl

@[simp] theorem Name.headings_describedForm (d : Option String) (n : Name) :
    (n.describedForm d).headings owner = [owner.or (some n.loc)] := rfl

@[simp] theorem NamedType.headings_form (t : NamedType) : t.form.headings owner = [] := rfl

mutual

theorem Value.headings_form :
    ∀ (v : Value) (owner : Option (Option Loc)), v.form.headings owner = []
  | .var .., _ => by simp [Value.form]
  | .int .., _ => rfl
  | .float .., _ => rfl
  | .string .., _ => rfl
  | .boolean .., _ => rfl
  | .enum .., _ => rfl
  | .list vs _, _ => by simpa [Value.form] using Value.headings_forms vs
  | .object fs _, _ => by simpa [Value.form] using Value.headings_fieldForms fs

theorem Value.headings_forms : ∀ vs : List Value, ∀ a ∈ Value.forms vs, a.headings none = []
  | [] => by simp [Value.forms]
  | v :: vs => by simpa [Value.forms] using ⟨Value.headings_form v none, Value.headings_forms vs⟩

theorem Value.headings_fieldForms :
    ∀ fs : List ObjectField, ∀ a ∈ Value.fieldForms fs, a.headings none = []
  | [] => by simp [Value.fieldForms]
  | ⟨n, v, _⟩ :: fs => by
    simpa [Value.fieldForms] using ⟨Value.headings_form v none, Value.headings_fieldForms fs⟩

end

attribute [simp] Value.headings_form

@[simp] theorem ObjectValue.headings_form (o : ObjectValue) : o.form.headings owner = [] :=
  o.toValue.headings_form owner

@[simp] theorem Argument.headings_form (a : Argument) :
    a.form.headings owner = [] := by simp [Argument.form]

@[simp] theorem Directive.headings_form (d : Directive) : d.form.headings owner = [] := by
  simp [Directive.form, List.flatMap_map]

@[simp] theorem Directive.headings_forms (ds : List Directive) :
    (Directive.forms ds).headings none = [] := by
  simp [Directive.forms]

@[simp] theorem headings_arrowForm (a : Direction) (b : Cardinality) (label : Option NamedType)
    (t : NamedType) : (arrowForm a b label t).headings owner = [] := by
  cases a <;> cases b <;> cases label <;> simp [arrowForm, arrowStartForm, arrowEndForm, labelForm]

@[simp] theorem ConnectionType.headings_form (t : ConnectionType) : t.form.headings owner = [] := by
  simp [ConnectionType.form]

@[simp] theorem EdgeType.headings_form (t : EdgeType) :
    t.form.headings owner = [] := by simp [EdgeType.form]

@[simp] theorem TypeRef.headings_form (t : TypeRef) : t.form.headings owner = [] := by
  induction t generalizing owner with
  | named t => exact t.headings_form
  | list t loc ih => simp [TypeRef.form, ih]
  | nonNull t loc ih => simp [TypeRef.form, ih]
  | connection t => exact t.headings_form
  | connectionJoin t =>
    cases t with | mk ts loc => cases ts <;> simp [TypeRef.form, List.flatMap_map]
  | edge t => exact t.headings_form

@[simp] theorem headings_defaultForm (v : Option Value) : (defaultForm v).headings none = [] := by
  cases v <;> simp [defaultForm]

@[simp] theorem headings_interfaceForms (ts : List NamedType) :
    (interfaceForms ts).headings none = [] := by
  cases ts <;> simp [interfaceForms, List.flatMap_map]

@[simp] theorem OrderExpression.headings_objectsForm (os : List ObjectValue) :
    (OrderExpression.objectsForm os).headings none = [] := by
  rcases os with _ | ⟨o, _ | ⟨p, os⟩⟩ <;> simp [OrderExpression.objectsForm, List.flatMap_map]

@[simp] theorem InputValueDefinition.headings_form (d : InputValueDefinition) :
    d.form.headings none = [some d.loc] := by
  simp [form]

@[simp] theorem InputValueDefinition.headings_argumentForms (ds : List InputValueDefinition) :
    (argumentForms ds).headings none = (ds.map (·.loc)).map some := by
  simp [argumentForms, List.flatMap_map, ← List.map_eq_flatMap, Function.comp_def]

@[simp] theorem FieldDefinition.headings_form (d : FieldDefinition) :
    d.form.headings none = d.headings.map some := by
  simp [form, headings]

@[simp] theorem EnumValueDefinition.headings_form (d : EnumValueDefinition) :
    d.form.headings owner = [owner.or (some d.loc)] := by
  simp [form]

@[simp] theorem OperationResult.headings_form (ds : List Directive) (r : OperationResult) :
    (r.form ds).headings none = r.headings.map some := by
  cases r <;> simp [form, headings, List.flatMap_map, List.map_flatMap]

@[simp] theorem OperationDefinition.headings_form (keyword : String) (d : OperationDefinition) :
    (d.form keyword).headings none = d.headings.map some := by
  simp [form, headings]

@[simp] theorem FilterCondition.headings_form (c : FilterCondition) :
    c.form.headings none = c.headings.map some := by
  simp [form, headings]

@[simp] theorem OrderExpression.headings_form (e : OrderExpression) :
    e.form.headings none = [some e.loc] := by
  simp [form]

/-- An object has the headings of its fields behind its first word. -/
theorem ObjectTypeDefinition.headings_formFrom (first : Form) (d : ObjectTypeDefinition)
    (owner : Option (Option Loc)) : (d.formFrom first).headings owner =
      first.headings (owner.or (some d.loc)) ++ (d.fields.flatMap (·.headings)).map some := by
  simp [formFrom, List.flatMap_map, List.map_flatMap]

/-- The descriptions in the form of a definition stand where the definition and its parts do. -/
theorem Definition.headings_form (d : Definition) : d.form.headings none = d.headings.map some := by
  cases d with
  | scalar d => simp [form, headings, ScalarTypeDefinition.form]
  | object d =>
    simp [form, headings, ObjectTypeDefinition.form, ObjectTypeDefinition.headings_formFrom]
  | interface d =>
    simp [form, headings, InterfaceTypeDefinition.form, List.flatMap_map, List.map_flatMap]
  | union d =>
    simp [form, headings, UnionTypeDefinition.form, Form.headings_separated, List.flatMap_map]
  | enum d =>
    simp [form, headings, EnumTypeDefinition.form, List.flatMap_map, ← List.map_eq_flatMap,
      Function.comp_def]
  | inputObject d =>
    simp [form, headings, InputObjectTypeDefinition.form, List.flatMap_map, ← List.map_eq_flatMap,
      Function.comp_def]
  | typeExtension d =>
    simp [form, headings, TypeExtensionDefinition.form, ObjectTypeDefinition.headings_formFrom]
  | directive d =>
    simp [form, headings, DirectiveDefinition.form, Form.headings_separated, List.flatMap_map]
  | mutation d => exact d.headings_form "mutation"
  | query d => exact d.headings_form "query"
  | filter d => simp [form, headings, FilterDefinition.form, List.flatMap_map, List.map_flatMap]
  | order d => simp [form, headings, OrderDefinition.form, List.flatMap_map, ← List.map_eq_flatMap,
    Function.comp_def]

/-- The descriptions in the form of a document stand where the parts of the document do that can
be described. -/
theorem Document.headings_form (d : Document) : d.form.headings none = d.headings.map some := by
  simp [form, headings, Definition.headings_form, List.flatMap_map, List.map_flatMap]

/-- The text of a description. -/
def Token.descriptionText? : Token → Option String
  | .description text => some text
  | _ => none

theorem Token.descriptionText?_eq_none {t : Token} (h : t.isDescription = false) :
    t.descriptionText? = none := by
  cases t with
  | description text => exact nomatch h
  | _ => rfl

/-- The lines of the description in front of a lexeme. -/
def Lexeme.descriptionLines (l : Lexeme) : List String := l.tokens.filterMap Token.descriptionText?

/-- Among the lexemes of a form are those that its descriptions belong to. Each is the first one of
a node that starts with a description. -/
theorem Form.Covers.exists_heads {locate : Nat → Nat → Option Loc} {F : Form} {ls : List Lexeme}
    (h : F.Covers locate ls) (owner : Option (Option Loc))
    (howner : ∀ loc ∈ owner, ∀ l ∈ ls.head?, ∃ stop, loc = locate l.span.start stop) :
    ∃ heads, heads.Sublist ls ∧
      F.tokens.filterMap Token.descriptionText? = heads.flatMap Lexeme.descriptionLines ∧
      List.Forall₂ (fun heading l => ∀ loc ∈ heading, ∃ stop, loc = locate l.span.start stop)
        (F.headings owner) heads := by
  have unowned {ms : List Lexeme} : ∀ loc ∈ (none : Option (Option Loc)), ∀ l ∈ ms.head?,
      ∃ stop, loc = locate l.span.start stop :=
      fun loc hloc => absurd hloc (Option.not_mem_none loc)
  induction F generalizing owner ls with
  | token t ht =>
    have plain := Token.descriptionText?_eq_none (Token.isDescription_of_isSignificant ht)
    exact ⟨[], List.nil_sublist _, by simp [tokens, plain], .nil⟩
  | described d t ht =>
    obtain ⟨l, rfl, rfl, rfl⟩ := h
    refine ⟨[l], List.Sublist.refl _, ?_, .cons (fun loc hloc => howner loc hloc l rfl) .nil⟩
    rw [List.flatMap_singleton]
    rfl
  | empty => exact ⟨[], List.nil_sublist _, rfl, .nil⟩
  | seq a b iha ihb =>
    obtain ⟨xs, ys, rfl, ha, hb⟩ := h
    have first : ∀ loc ∈ owner, ∀ l ∈ xs.head?, ∃ stop, loc = locate l.span.start stop := by
      intro loc hloc l hl
      refine howner loc hloc l ?_
      obtain ⟨rest, rfl⟩ := List.head?_eq_some_iff.1 hl
      rfl
    obtain ⟨heads, hsub, hlines, hheads⟩ := iha ha owner first
    obtain ⟨heads', hsub', hlines', hheads'⟩ := ihb hb none unowned
    refine ⟨heads ++ heads', hsub.append hsub', ?_, List.rel_append hheads hheads'⟩
    rw [tokens, List.filterMap_append, hlines, hlines', List.flatMap_append]
  | located loc a ih =>
    obtain ⟨ha, hloc⟩ := h
    -- A node around this one that starts with it owns the description, and else this one does.
    refine ih ha _ fun loc' hloc' l hl => ?_
    cases owner with
    | none =>
      obtain rfl := Option.some.inj hloc'
      exact ⟨_, hloc l hl⟩
    | some outer => exact howner loc' hloc' l hl
  | bracketable a ih =>
    rcases h with h | ⟨l, xs, r, rfl, -, ha, -⟩
    · exact ih h none unowned
    · obtain ⟨heads, hsub, hlines, hheads⟩ := ih ha none unowned
      exact ⟨heads, (hsub.trans (List.sublist_append_left xs [r])).cons l, hlines, hheads⟩

end SchemaLang
