import SchemaLang.Proofs.Formatting.Text

/-!
# Descriptions that are changed

A description may be set to any text whose lines are read to their ends: the canonical text then
parses to the document with the new descriptions, of which each line is trimmed, and to nothing
else. A line is not read to its end if a CR has more than white space behind it. The reading of a
description stops at the CR, and what is behind it is read as schema text.
-/

namespace SchemaLang

namespace Document

/-- Two documents that differ in descriptions only. -/
def SameUpToDescriptions (d d' : Document) : Prop :=
  d.mapDescriptions (fun _ => none) = d'.mapDescriptions fun _ => none

instance (d d' : Document) : Decidable (d.SameUpToDescriptions d') :=
  inferInstanceAs (Decidable (d.mapDescriptions (fun _ => none) = d'.mapDescriptions fun _ => none))

/-- The document with each line of its descriptions trimmed of white space. -/
def trimDescriptions (d : Document) :
    Document := d.mapDescriptions fun text => some (Text.trimLines text)

/-- Every line of a description is read to its end. -/
def HasUnbrokenLines (d : Document) : Prop := ∀ text ∈ d.descriptions, Text.HasUnbrokenLines text

instance (d : Document) : Decidable d.HasUnbrokenLines :=
  List.decidableBAll Text.HasUnbrokenLines d.descriptions

variable {d d' : Document} {depth : Nat}

/-- Lines that are read to their ends are read trimmed. -/
theorem HasUnbrokenLines.mapDescriptions_asRead (h : d.HasUnbrokenLines) :
    d.mapDescriptions Text.asRead = d.trimDescriptions :=
  d.mapDescriptions_congr fun text htext => if_pos (h text htext)

/-- Whatever a document that conforms is described with, it conforms once the lines are trimmed. -/
theorem conforms_trimDescriptions (h : d.Conforms depth) (hsame : d'.SameUpToDescriptions d)
    (hlines : d'.HasUnbrokenLines) : d'.trimDescriptions.Conforms depth := by
  have undescribed : (d.mapDescriptions fun _ => none).Conforms depth :=
    d.conforms_mapDescriptions (g := some) (by rwa [mapDescriptions_some]) fun _ _ _ htext =>
      nomatch htext
  rw [← hsame] at undescribed
  refine d'.conforms_mapDescriptions undescribed fun text htext => ?_
  rintro _ ⟨⟩
  exact Text.isDescription_trimLines (hlines text htext)

/-- The canonical text of a document has the tokens of the document with its
descriptions trimmed. -/
theorem lexes_render_trimDescriptions (h : d.trimDescriptions.Conforms depth)
    (hlines : d.HasUnbrokenLines) : Lexes d.render.toList d.trimDescriptions.form.tokens := by
  rw [← hlines.mapDescriptions_asRead] at h ⊢
  have spelled :=
    (Document.spells_asRead readsDescriptions_asRead h 0 [] [] Breaks.nil lexes_nil).lexes
  rwa [indentBy_zero, List.append_nil, List.append_nil] at spelled

end Document

/-- A parsed document with other descriptions is printed as a text that parses to it, up to
locations and to the white space around the lines of descriptions, if these lines are read
to their ends. -/
theorem parseDocument_print_redescribed {s : Source} {o : ParseOptions} {d d' : Document}
    (h : parseDocument s o = .ok d) (hsame : d'.SameUpToDescriptions d)
    (hlines : d'.HasUnbrokenLines) (name : String) : ∃ e,
    parseDocument ⟨(Node.document d').print, name⟩ o = .ok e ∧
    e.SameUpToLoc d'.trimDescriptions := by
  have conforms : d'.trimDescriptions.Conforms o.maxDepth :=
    Document.conforms_trimDescriptions (isSpelledBy_of_parseDocument h).1 hsame hlines
  rw [Node.print_eq_render, Node.render]
  exact parseDocument_of_lexes conforms
    (Document.lexes_render_trimDescriptions conforms hlines) name

/-- A type, its field and the argument of the field are described with two lines. The first looks
like the start of a comment, and the second has a CR and blanks behind it. -/
theorem parseDocument_print_redescribed_type :
    let described (text : Option String) : Document :=
      ⟨[.object ⟨text, ⟨"T", none⟩, [], [],
        [⟨text, ⟨"a", none⟩, [⟨text, ⟨"b", none⟩, .named ⟨⟨"Int", none⟩, none⟩, none, [], none⟩],
          .named ⟨⟨"X", none⟩, none⟩, [], none⟩], none⟩], none⟩
    let d' := described (some "\t# b: Int \x7d\nscalar X\r \t")
    parseDocument ⟨"type T \x7b a(b: Int): X \x7d", "GraphQL"⟩ { noLocation := true } =
      .ok (described none) ∧ d'.SameUpToDescriptions (described none) ∧ d'.HasUnbrokenLines ∧
      ∃ e, parseDocument ⟨(Node.document d').print, "T.graphqls"⟩ { noLocation := true } = .ok e ∧
        e.SameUpToLoc d'.trimDescriptions := by
  intro described d'
  have parsed : parseDocument ⟨"type T \x7b a(b: Int): X \x7d", "GraphQL"⟩ { noLocation := true } =
      .ok (described none) := by
    decide +kernel
  have same : d'.SameUpToDescriptions (described none) := by
    decide +kernel
  have unbroken : d'.HasUnbrokenLines := by
    decide +kernel
  exact ⟨parsed, same, unbroken, parseDocument_print_redescribed parsed same unbroken "T.graphqls"⟩

/-- A description that starts with a CR becomes a definition of its own in front of the one that
it describes. -/
theorem not_sameUpToLoc_redescribed :
    let scalar (text : Option String) (name : String) : Definition :=
      .scalar ⟨text, ⟨name, none⟩, [], none⟩
    let d : Document := ⟨[scalar none "A"], none⟩
    let d' : Document := ⟨[scalar (some "\rscalar B") "A"], none⟩
    let e : Document := ⟨[scalar (some "") "B", scalar none "A"], none⟩
    parseDocument ⟨"scalar A", "GraphQL"⟩ { noLocation := true } = .ok d ∧
      d'.SameUpToDescriptions d ∧
      parseDocument ⟨(Node.document d').print, "GraphQL"⟩ { noLocation := true } = .ok e ∧
      ¬ e.SameUpToLoc d'.trimDescriptions := by
  intro scalar d d' e
  have parsed : parseDocument ⟨"scalar A", "GraphQL"⟩ { noLocation := true } = .ok d := by
    decide +kernel
  have same : d'.SameUpToDescriptions d := by
    decide +kernel
  have reparsed : parseDocument ⟨(Node.document d').print, "GraphQL"⟩ { noLocation := true } =
      .ok e := by
    rw [Node.print_eq_render]
    decide +kernel
  refine ⟨parsed, same, reparsed, fun h => ?_⟩
  have lengths : 2 = 1 := h.length_definitions
  exact absurd lengths (by decide)

end SchemaLang
