import SchemaLang.Printer.Render
import SchemaLang.Proofs.Contract

/-!
# Where canonical texts end

The canonical text of a definition that conforms is there, and ends in no white space: with a
brace, a parenthesis or the last part of a name or a type. So the white space behind it can
be told from it.
-/

namespace SchemaLang

/-- The text is there, and no white space is at its end. -/
def EndsTight (text : String) : Prop :=
  ∃ front c, text.toList = front ++ [c] ∧ Text.isBlank c = false

variable {a b text separator : String}

theorem EndsTight.ne_empty (h : EndsTight text) : text ≠ "" := by
  rintro rfl
  obtain ⟨front, c, hc, -⟩ := h
  simp at hc

theorem EndsTight.append (a : String) (h : EndsTight b) : EndsTight (a ++ b) := by
  obtain ⟨front, c, hb, hc⟩ := h
  exact ⟨a.toList ++ front, c, by rw [String.toList_append, hb, List.append_assoc], hc⟩

/-- Only the white space behind the text is dropped. -/
theorem EndsTight.trimEnd (h : EndsTight text) {blanks : List Char}
    (hblanks : ∀ c ∈ blanks, Text.isBlank c) :
    Text.trimEnd (text.toList ++ blanks) = text.toList := by
  obtain ⟨front, c, htext, hc⟩ := h
  rw [Text.trimEnd_append_of_isBlank hblanks, htext, Text.trimEnd, List.reverse_append,
    List.reverse_singleton, List.singleton_append, List.dropWhile_cons_of_neg (by simp [hc]),
    List.reverse_cons, List.reverse_reverse]

theorem EndsTight.described (description : Option String) (h : EndsTight text) :
    EndsTight (Layout.described description text) := by
  cases description with
  | none => exact h
  | some d => exact h.append _

theorem EndsTight.intercalate (items : List String) (h : EndsTight text) :
    EndsTight (separator.intercalate (items ++ [text])) := by
  induction items with
  | nil => simpa using h
  | cons item items ih =>
    cases items with
    | nil =>
      rw [List.singleton_append, String.intercalate_cons_cons, String.intercalate_singleton]
      exact h.append _
    | cons next items =>
      rw [List.cons_append, List.cons_append, String.intercalate_cons_cons]
      exact ih.append _

/-- Parts end as the last one does. -/
theorem EndsTight.join (items : List String) (h : EndsTight text) :
    EndsTight (Layout.join separator (items ++ [text])) := by
  rw [Layout.join, List.filter_append, List.filter_cons_of_pos (by simpa using h.ne_empty),
    List.filter_nil]
  exact h.intercalate _

private theorem endsTight_block (entries : List String) : EndsTight (Layout.block entries) := by
  have brace : EndsTight "\n\x7d" := ⟨['\n'], '\x7d', rfl, rfl⟩
  rw [Layout.block]
  split
  · exact ⟨['\x7b'], '\x7d', rfl, rfl⟩
  · exact brace.append _

private theorem isBlank_of_isNameChar {c : Char} (h : isNameChar c) : Text.isBlank c = false := by
  have hrange : c = '_' ∨ 48 ≤ c.toNat ∧ c.toNat ≤ 122 := by
    unfold isNameChar Char.isAlphanum Char.isAlpha Char.isUpper Char.isLower at h
    simp only [Bool.or_eq_true, Bool.and_eq_true, beq_iff_eq, decide_eq_true_eq, ge_iff_le,
      UInt32.le_iff_toNat_le, Char.isDigit_iff_toNat] at h
    rcases h with h | (⟨hlow, hhigh⟩ | ⟨hlow, hhigh⟩) | ⟨hlow, hhigh⟩
    · exact .inl h
    · exact .inr ⟨Nat.le_trans (by decide) hlow, Nat.le_trans hhigh (by decide)⟩
    · exact .inr ⟨Nat.le_trans (by decide) hlow, Nat.le_trans hhigh (by decide)⟩
    · exact .inr ⟨Nat.le_trans (by decide) hlow, Nat.le_trans hhigh (by decide)⟩
  rcases hrange with rfl | hrange
  · rfl
  · simp only [Text.isBlank, Bool.or_eq_false_iff, Bool.and_eq_false_iff, decide_eq_false_iff_not,
      beq_eq_false_iff_ne]
    omega

private theorem endsTight_name (h : IsName text) : EndsTight text := by
  have hchar := isNameChar_of_isName h
  obtain ⟨c, cs, htext, -, -⟩ := h
  rw [htext] at hchar
  obtain ⟨front, last, hlast⟩ :=
    List.eq_nil_or_concat' (c :: cs) |>.resolve_left (List.cons_ne_nil c cs)
  have hmem : last ∈ c :: cs := by rw [hlast]; simp
  exact ⟨front, last, htext.trans hlast, isBlank_of_isNameChar (hchar last hmem)⟩

private theorem TypeRef.endsTight_of_isPlain {t : TypeRef} (h : t.IsPlain) :
    EndsTight t.render := by
  have bracket : EndsTight "]" := ⟨[], ']', rfl, rfl⟩
  have bang : EndsTight "!" := ⟨[], '!', rfl, rfl⟩
  cases t with
  | named t => exact endsTight_name h
  | list t loc => exact bracket.append _
  | nonNull t loc => exact bang.append _
  | _ => exact h.elim

theorem Directive.endsTight {depth : Nat} {d : Directive} (h : d.Conforms depth) :
    EndsTight d.render := by
  have paren : EndsTight ")" := ⟨[], ')', rfl, rfl⟩
  have name : EndsTight ("@" ++ d.name.render) := (endsTight_name h.1).append _
  change EndsTight ("@" ++ d.name.render ++
    Layout.wrap "(" (Layout.join ", " (d.arguments.map (·.render))) ")")
  rw [Layout.wrap]
  split
  · rwa [String.append_empty]
  · exact (paren.append _).append _

/-- Directives in a row, if there are any. -/
theorem Directive.endsTight_join {depth : Nat} {ds : List Directive}
    (h : ∀ d ∈ ds, d.Conforms depth) :
    Layout.join " " (ds.map (·.render)) = "" ∨ EndsTight (Layout.join " " (ds.map (·.render))) := by
  rcases List.eq_nil_or_concat' ds with rfl | ⟨front, d, rfl⟩
  · exact .inl rfl
  · rw [List.map_append]
    exact .inr ((Directive.endsTight (h d (by simp))).join _)

/-- Directives behind something that ends tight. -/
theorem EndsTight.directed {depth : Nat} {ds : List Directive} (h : EndsTight text)
    (hds : ∀ d ∈ ds, d.Conforms depth) :
    EndsTight (text ++ Layout.wrap " " (Layout.join " " (ds.map (·.render))) "") := by
  rcases Directive.endsTight_join hds with hempty | htight
  · rw [hempty, Layout.wrap, if_pos rfl, String.append_empty]
    exact h
  · rw [Layout.wrap, if_neg htight.ne_empty, String.append_empty]
    exact (htight.append _).append _

variable {depth : Nat}

theorem ScalarTypeDefinition.endsTight {d : ScalarTypeDefinition} (h : d.Conforms depth) :
    EndsTight d.render := by
  refine EndsTight.described d.description ?_
  change EndsTight
    (Layout.join " " (["scalar", d.name.render] ++ [Layout.join " " (d.directives.map (·.render))]))
  rcases Directive.endsTight_join h.directives with hempty | htight
  · have named : Layout.join " " (["scalar", d.name.render] ++ [""]) =
        Layout.join " " (["scalar"] ++ [d.name.render]) := by
      simp [Layout.join, List.filter_cons]
    rw [hempty, named]
    exact (endsTight_name h.name).join _
  · exact htight.join _

private theorem ObjectTypeDefinition.endsTight_bare (d : ObjectTypeDefinition) :
    EndsTight d.renderBare :=
  (endsTight_block _).join ["type", d.name.render, _, _]

/-- A definition of entries in braces. -/
theorem endsTight_entries (description : Option String) (word name : String)
    (directives entries : List String) :
    EndsTight (Layout.described description (Layout.entriesOf word name directives entries)) :=
  EndsTight.described description ((endsTight_block entries).join [word, name, _])

/-- A block of entries for a target. -/
theorem endsTight_target (description : Option String) (word target : String)
    (entries : List String) :
    EndsTight (Layout.described description (Layout.targeted word target entries)) :=
  EndsTight.described description ((endsTight_block entries).join [word, target])

theorem UnionTypeDefinition.endsTight {d : UnionTypeDefinition} (h : d.Conforms depth) :
    EndsTight d.render := by
  refine EndsTight.described d.description ?_
  obtain ⟨front, t, htypes⟩ := (List.eq_nil_or_concat' d.types).resolve_left h.types_ne_nil
  have types : EndsTight (Layout.join " | " (d.types.map (·.render))) := by
    rw [htypes, List.map_append]
    exact EndsTight.join _ (endsTight_name (h.types t (by simp [htypes])))
  exact (types.append "= ").join ["union", d.name.render, _]

theorem DirectiveDefinition.endsTight {d : DirectiveDefinition} (h : d.Conforms depth) :
    EndsTight d.render := by
  refine EndsTight.described d.description ?_
  obtain ⟨front, n, hlocations⟩ :=
    (List.eq_nil_or_concat' d.locations).resolve_left h.locations_ne_nil
  have locations : EndsTight (Layout.join " | " (d.locations.map (·.render))) := by
    rw [hlocations, List.map_append]
    exact EndsTight.join _ (endsTight_name (h.locations n (by simp [hlocations])))
  exact locations.append _

theorem OperationDefinition.endsTight {P : List FieldDefinition → Prop} {word : String}
    {d : OperationDefinition} (h : d.Conforms P depth) : EndsTight (d.render word) := by
  obtain ⟨text, n, as, ds, r, loc⟩ := d
  refine EndsTight.described text ?_
  cases r with
  | type t =>
    have type : t.Conforms TypeRef.IsPlain depth := h.result
    exact EndsTight.directed ((TypeRef.endsTight_of_isPlain type.1).append _) h.directives
  | fields fs => exact (endsTight_block _).append _

/-- The canonical text of a definition ends in no white space. -/
theorem Definition.endsTight {d : Definition} (h : d.Conforms depth) : EndsTight d.render := by
  cases d with
  | scalar d => exact ScalarTypeDefinition.endsTight h
  | object d => exact EndsTight.described d.description d.endsTight_bare
  | interface d => exact endsTight_entries _ _ _ _ _
  | union d => exact UnionTypeDefinition.endsTight h
  | enum d => exact endsTight_entries _ _ _ _ _
  | inputObject d => exact endsTight_entries _ _ _ _ _
  | typeExtension d =>
    exact EndsTight.described d.description (d.definition.endsTight_bare.append _)
  | directive d => exact DirectiveDefinition.endsTight h
  | mutation d => exact OperationDefinition.endsTight h
  | query d => exact OperationDefinition.endsTight h
  | filter d => exact endsTight_target _ _ _ _
  | order d => exact endsTight_target _ _ _ _

end SchemaLang
