import SchemaLang.Proofs.Locations.Extent
import SchemaLang.Proofs.Slices.Reparse
import SchemaLang.Proofs.Traversal.SourceOrder

/-!
# Which descriptions belong to which nodes

A description belongs to the node that starts with the token right behind it, if that is one that
can be described: its text is that of the lines between the token in front of the node that is no
description, or the start of the source, and the node. Every such node has exactly the description
that stands there, and the object in an extension, behind whose `extend` it starts, has none.
-/

namespace SchemaLang

private theorem Lexeme.eq_intercalate_of_joinLines {lines : List String} {text : String}
    (h : joinLines lines = some text) : text = "\n".intercalate lines := by
  cases lines with
  | nil => exact nomatch h
  | cons line lines => exact (Option.some.inj h).symm

namespace Source

variable {s : Source} {l : Lexeme}

/-- The lines right in front of a position: what the descriptions hold that stand behind the last
other token there. -/
def descriptionLinesBefore (s : Source) (position : Nat) : List String :=
  ((s.tokens.readings.takeWhile fun r => r.span.start < position).rtakeWhile fun r =>
    r.token.isDescription).filterMap
    fun r => r.token.descriptionText?

/-- The lines right in front of a position as one text, if there are any. -/
def descriptionBefore (s : Source) (position : Nat) : Option String :=
  if s.descriptionLinesBefore position = [] then none
  else some ("\n".intercalate (s.descriptionLinesBefore position))

private theorem joinLines_descriptionLinesBefore (s : Source) (position : Nat) :
    Lexeme.joinLines (s.descriptionLinesBefore position) = s.descriptionBefore position := by
  rw [descriptionBefore]
  cases s.descriptionLinesBefore position with
  | nil => rfl
  | cons line lines => rw [if_neg (List.cons_ne_nil _ _)]; rfl

/-- The tokens in front of one of them are those that start before it. -/
theorem takeWhile_start {earlier later : List Reading} {r : Reading}
    (h : s.tokens.readings = earlier ++ r :: later) :
    s.tokens.readings.takeWhile (fun x => x.span.start < r.span.start) = earlier := by
  have starts : (earlier ++ r :: later).Pairwise fun x y => x.span.start < y.span.start :=
    h ▸ pairwise_start_scan 0 s.chars
  have before : ∀ x ∈ earlier, decide (x.span.start < r.span.start) = true := fun x hx =>
    decide_eq_true ((List.pairwise_append.1 starts).2.2 x hx r List.mem_cons_self)
  rw [h, List.takeWhile_append_of_pos before, List.takeWhile_cons_of_neg (by simp), List.append_nil]

/-- The descriptions at the end of some tokens are those behind the last one that is none. -/
theorem rtakeWhile_isDescription {earlier run : List Reading}
    (plain : ∀ x ∈ earlier.getLast?, x.token.isDescription = false)
    (described : ∀ x ∈ run, x.token.isDescription = true) :
    (earlier ++ run).rtakeWhile (fun x => x.token.isDescription) = run := by
  have ends : earlier.reverse.takeWhile (fun x => x.token.isDescription) = [] := by
    cases earlier using List.reverseRecOn with
    | nil => rfl
    | append_singleton earlier x _ => simpa using plain
  rw [List.rtakeWhile, List.reverse_append,
    List.takeWhile_append_of_pos (by simpa using described), ends, List.append_nil,
    List.reverse_reverse]

/-- A lexeme has the description that stands right in front of it. -/
theorem description_of_mem_lexemes (h : l ∈ s.lexemes) :
    l.description = s.descriptionBefore l.span.start := by
  obtain ⟨front, behind, hlexemes⟩ := List.append_of_mem h
  obtain ⟨earlier, run, r, later, hreadings, -, plain, described, -, placed, description⟩ :=
    Lexeme.exists_run_of_gather hlexemes
  have span : r.span = l.span := congrArg Prod.snd placed
  rw [description, ← joinLines_descriptionLinesBefore, descriptionLinesBefore, ← span,
    takeWhile_start (by rw [hreadings, List.append_assoc]),
    rtakeWhile_isDescription plain described]

end Source

/-- The first token of the form is one in front of which this description belongs. -/
def Form.OpensWith (description : Option String) : Form → Prop
  | token .. => False
  | described d .. => d = description
  | empty => False
  | seq a _ => a.OpensWith description
  | located _ a => a.OpensWith description
  | bracketable _ => False

theorem Form.OpensWith.starts {F : Form} {description : Option String}
    (hF : F.OpensWith description) : F.Starts fun _ => True := by
  induction F with
  | token | empty | bracketable => exact hF.elim
  | described => trivial
  | seq a b iha _ => exact iha hF
  | located loc a ih => exact ih hF

/-- The first lexeme of a form that starts with a description has that description. -/
theorem Form.OpensWith.description_eq {F : Form} {description : Option String}
    (hF : F.OpensWith description) {locate : Nat → Nat → Option Loc} {ls : List Lexeme}
    (h : F.Covers locate ls) : ∀ l ∈ ls.head?, l.description = description := by
  induction F generalizing ls with
  | token | empty | bracketable => exact hF.elim
  | described d t _ =>
    obtain ⟨l, rfl, rfl, -⟩ := h
    rintro _ ⟨⟩
    exact hF
  | seq a b iha _ =>
    obtain ⟨xs, ys, rfl, ha, -⟩ := h
    have opens : a.OpensWith description := hF
    obtain ⟨x, xs, rfl⟩ := List.exists_cons_of_ne_nil (opens.starts.covers_ne_nil ha)
    exact fun l hl => iha opens ha l hl
  | located loc a ih => exact ih hF h.1

private theorem Definition.opensWith_form (d : Definition) : d.form.OpensWith d.description := by
  cases d <;> exact rfl

namespace Node

/-- The description of a node of a sort that can have one. -/
def description? : Node → Option String
  | .inputValue d => d.description
  | .field _ d => d.description
  | .enumValue d => d.description
  | .definition d => d.description
  | _ => none

/-- A node that can have a description and is no definition: a field, an argument or a field of an
input, a value of an enum, or the key of a condition or an expression. -/
def IsDescribablePart : Node → Prop
  | .inputValue _ => True
  | .field .. => True
  | .enumValue _ => True
  | _ => False

private theorem IsWrittenAs.opensWith {n : Node} {F : Form} (written : n.IsWrittenAs F)
    (h : n.IsDescribablePart) : F.OpensWith n.description? := by
  cases n with
  | inputValue | field | enumValue =>
    obtain rfl := written
    exact rfl
  | _ => exact h.elim

/-- Of the definitions and documents, only these are within a document: itself, its definitions, and
the objects in those of them that are extensions. -/
def IsDefinitionIn (d : Document) : Node → Prop
  | .document d' => d' = d
  | .definition x =>
    x ∈ d.definitions ∨ ∃ e, .typeExtension e ∈ d.definitions ∧ x = .object e.definition
  | _ => True

private theorem Within.isDefinitionIn {d : Document} {n : Node} (h : (document d).Within n) :
    n.IsDefinitionIn d := by
  refine h.induct rfl fun m hm => ?_
  cases m with
  | document d' =>
    obtain rfl : d' = d := hm
    simp +contextual [slots, PartSort.definition, IsDefinitionIn]
  | definition x =>
    cases x with
    | typeExtension e =>
      have mem : .typeExtension e ∈ d.definitions := by simpa [IsDefinitionIn] using hm
      simpa [slots, Definition.slots, PartSort.objectType, IsDefinitionIn] using .inr ⟨e, mem, rfl⟩
    | mutation x | query x =>
      obtain ⟨text, n, as, ds, result, loc⟩ := x
      cases result <;>
        simp [slots, Definition.slots, OperationDefinition.slots,
          OperationResult.slot, PartSort.name, PartSort.inputValue, PartSort.directive,
          PartSort.type, PartSort.field, IsDefinitionIn]
    | _ x =>
      simp [slots, Definition.slots, PartSort.name, PartSort.namedType,
        PartSort.directive, PartSort.field, PartSort.enumValue, PartSort.inputValue, PartSort.type,
        PartSort.condition, PartSort.ordering, IsDefinitionIn]
  | value v =>
    cases v <;> simp [slots, Value.slots, PartSort.name, PartSort.value,
      PartSort.objectField, IsDefinitionIn]
  | type t =>
    cases t <;>
      simp [slots, TypeRef.slots, PartSort.name, PartSort.type, PartSort.namedType,
        PartSort.connection, IsDefinitionIn]
  | _ x =>
    simp [slots, PartSort.name, PartSort.value, PartSort.argument,
      PartSort.directive, PartSort.type, PartSort.inputValue, PartSort.enumValue,
      PartSort.object, IsDefinitionIn]

end Node

/-- What has a location starts with a token of the grammar, and its description is what stands
right in front. -/
def Source.Describes (s : Source) (loc : Option Loc) (description : Option String) : Prop :=
  ∃ l r, loc = some l ∧ r ∈ s.tokens.readings ∧ r.token.isSignificant = true ∧
    r.span.start = l.start ∧ description = s.descriptionBefore l.start

/-- What has a location starts with a token of the grammar, and right in front of that token stand
one or more descriptions, the lines of `text`. -/
def Source.StandsBefore (s : Source) (text : String) (loc : Option Loc) : Prop :=
  ∃ l earlier run r later, loc = some l ∧ s.tokens.readings =
    earlier ++ (run ++ r :: later) ∧ run ≠ [] ∧ (∀ x ∈ run, x.token.isDescription = true) ∧
    r.token.isSignificant = true ∧ r.span.start = l.start ∧
    text = "\n".intercalate (run.filterMap fun x => x.token.descriptionText?)

/-- The descriptions in a document are those of the source that it was parsed from. -/
structure Document.DescriptionsAttach (d : Document) (s : Source) : Prop where
  /-- A definition has the description that stands in front of its first word. -/
  definitions : ∀ x ∈ d.definitions, s.Describes x.loc x.description
  /-- The object in an extension has none. -/
  extended : ∀ e, .typeExtension e ∈ d.definitions → e.definition.description = none
  /-- A field, an argument, a value of an enum or a key has the description that stands in
  front of its name. -/
  parts : ∀ n, (Node.document d).Within n → n.IsDescribablePart → s.Describes n.loc n.description?
  /-- No node has a description that does not stand right in front of it. -/
  attached : ∀ n, (Node.document d).Within n → ∀ text ∈ n.description?, s.StandsBefore text n.loc

variable {s : Source} {o : ParseOptions} {d : Document} {n : Node} {loc : Option Loc}
  {description : Option String}

/-- What has a location starts with a lexeme of the source and has the description of that
lexeme. -/
def Source.HasHead (s : Source) (loc : Option Loc) (description : Option String) : Prop :=
  ∃ l head, loc = some l ∧ head ∈ s.lexemes ∧ head.token.isSignificant = true ∧
    head.span.start = l.start ∧ head.description = description

private theorem Source.HasHead.describes (h : s.HasHead loc description) :
    s.Describes loc description := by
  obtain ⟨l, head, hl, mem, significant, start, rfl⟩ := h
  obtain ⟨r, hr, placed⟩ := exists_reading mem
  have token : r.token = head.token := congrArg Prod.fst placed
  have span : r.span = head.span := congrArg Prod.snd placed
  exact ⟨l, r, hl, hr, token ▸ significant, span ▸ start, start ▸ description_of_mem_lexemes mem⟩

private theorem Source.HasHead.standsBefore {text : String} (h : s.HasHead loc (some text)) :
    s.StandsBefore text loc := by
  obtain ⟨l, head, hl, mem, significant, start, hdescription⟩ := h
  obtain ⟨front, behind, hlexemes⟩ := List.append_of_mem mem
  obtain ⟨earlier, run, r, later, hreadings, -, -, described, -, placed, lines⟩ :=
    Lexeme.exists_run_of_gather hlexemes
  have token : r.token = head.token := congrArg Prod.fst placed
  have span : r.span = head.span := congrArg Prod.snd placed
  rw [hdescription] at lines
  have nonempty : run ≠ [] := by
    rintro rfl
    exact nomatch lines
  refine ⟨l, earlier, run, r, later, hl, hreadings, nonempty, described, token ▸ significant,
    span ▸ start, ?_⟩
  exact Lexeme.eq_intercalate_of_joinLines lines.symm

/-- What is read from a part of the form of a parsed document, and starts with its description
there, has that one. -/
theorem hasHead_of_hasPart (h : parseDocument s o = .ok d)
    (located : o.noLocation = false) {F : Form} (part : d.form.HasPart F)
    (written : n.IsWrittenAs F) (hn : ∀ d, n ≠ .document d) (opens : F.OpensWith n.description?) :
    s.HasHead n.loc n.description? := by
  obtain ⟨before, first, rest, behind, covers, hlexemes⟩ := exists_lexemes_of_hasPart h part
  obtain ⟨l, hl, start, -⟩ :=
    tells_locate s located first.span.start (Lexeme.lastStop 0 (first :: rest))
  exact ⟨l, first, (written.loc_eq hn covers).trans hl, by rw [hlexemes]; simp,
    covers.isSignificant first List.mem_cons_self, start.symm,
    opens.description_eq covers first rfl⟩

private theorem hasHead_of_mem_definitions (h : parseDocument s o = .ok d)
    (located : o.noLocation = false) {x : Definition} (hx : x ∈ d.definitions) :
    s.HasHead x.loc x.description :=
  hasHead_of_hasPart (n := .definition x) h located
    (Form.hasPart_all (List.mem_map_of_mem hx) x.hasPart_form)
    (.inl rfl) nofun x.opensWith_form

private theorem hasHead_of_isDescribablePart (h : parseDocument s o = .ok d)
    (located : o.noLocation = false) (hn : (Node.document d).Within n)
    (describable : n.IsDescribablePart) : s.HasHead n.loc n.description? := by
  have hne : n ≠ .document d := by
    rintro rfl
    exact describable
  obtain ⟨F, written, part⟩ := hn.hasNode (rfl : (Node.document d).IsWrittenAs d.form) hne
  exact hasHead_of_hasPart h located part written (hn.ne_document hne)
    (written.opensWith describable)

/-- The object in an extension has no description. -/
theorem description_extended (h : parseDocument s o = .ok d) {e : TypeExtensionDefinition}
    (he : .typeExtension e ∈ d.definitions) : e.definition.description = none :=
  TypeExtensionDefinition.Conforms.definition_description
    ((conforms_of_parseDocument h).definitions _ he)

/-- In a document that was parsed with locations, descriptions are attached to what they stand in
front of, for every limit to the nesting. -/
theorem descriptionsAttach_of_parseDocument (h : parseDocument s o = .ok d)
    (located : o.noLocation = false) : d.DescriptionsAttach s where
  definitions _ hx := (hasHead_of_mem_definitions h located hx).describes
  extended _ he := description_extended h he
  parts _ hn describable := (hasHead_of_isDescribablePart h located hn describable).describes
  attached n hn text htext := by
    obtain htext : n.description? = some text := htext
    cases n with
    | inputValue | field | enumValue =>
      exact (htext ▸ hasHead_of_isDescribablePart h located hn trivial).standsBefore
    | definition x =>
      rcases hn.isDefinitionIn with hx | ⟨e, he, rfl⟩
      · exact (htext ▸ hasHead_of_mem_definitions h located hx :
          s.HasHead _ (some text)).standsBefore
      · exact nomatch (description_extended h he).symm.trans htext
    | _ => exact nomatch htext

/-- An extension, a field and an argument with descriptions, and others that stand in front of
nothing they describe. -/
theorem descriptionsAttach_of_parseDocument_extension :
    let s : Source :=
      ⟨"## A\n##\nextend ## lost\ntype A \x7b ## f\n f(## x\n x: B ## lost\n): C ## lost\n\x7d",
        "extension.graphqls"⟩
    ∃ d, parseDocument s {} = .ok d ∧ d.DescriptionsAttach s := by
  intro s
  have parsed : (parseDocument s {}).isOk = true := by decide +kernel
  cases hd : parseDocument s {} with
  | error e =>
    rw [hd] at parsed
    exact nomatch parsed
  | ok d => exact ⟨d, rfl, descriptionsAttach_of_parseDocument hd rfl⟩

end SchemaLang
