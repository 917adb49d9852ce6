import SchemaLang.Proofs.Soundness.TypeRef
import SchemaLang.Proofs.Soundness.Value
import SchemaLang.Proofs.Viability.Basic

/-!
# Misfits in values and types

Where a value or a type breaks off at a misfit it could have gone on. The fault of nesting too deep
is no misfit, so that only the parsers that must go a level down need a level that is left.
-/

namespace SchemaLang.Parser

variable {levels : Nat} {constant : Bool} {G : List Lexeme → Prop}

private theorem isNumber_zero : IsNumber "0" false :=
  ⟨[], ['0'], [], [], rfl, .inl rfl, .inl rfl, .inl rfl, .inl rfl, by decide⟩

private theorem isBegun_value (constant : Bool) (levels : Nat) :
    IsBegun (LexemesOf Value.form (Value.Conforms constant levels)) :=
  isBegun_of_token (t := .int "0") isNumber_zero fun l hl =>
    ⟨[], fun _ hl => absurd hl List.not_mem_nil, .int "0" none, ⟨isNumber_zero, Nat.zero_le _⟩,
      Form.writes_located (F := .token (.int "0") rfl) ⟨l, rfl, hl⟩⟩

private theorem resumes_variableValue :
    Resumes variableValue (LexemesOf Value.form (Value.Conforms false levels)) := by
  refine .start fun _ => .bind (yields_expect .dollar) (resumes_expect .dollar) fun _ ls₁ _ f₁ => ?_
  refine .bind yields_name resumes_name fun n ls₂ pn f₂ =>
    .located (.pure ⟨.var n none, ⟨⟨rfl, pn⟩, Nat.zero_le _⟩, ?_⟩)
  exact Form.writes_located (Form.writes_all_cons f₁ (Form.writes_all_cons f₂ Form.writes_all_nil))

private theorem resumes_atom (constant : Bool) (levels : Nat) :
    Resumes (atom constant) (LexemesOf Value.form (Value.Conforms constant levels)) := by
  have begun := isBegun_value constant levels
  have taken {f : Option Loc → Value} {n : Nat} :
      Completes (advance >>= fun _ => located n >>= fun loc => pure (f loc))
        (LexemesOf Value.form (Value.Conforms constant levels)) :=
    (meetsNoMisfit_advance.bind fun _ => (meetsNoMisfit_located n).bind fun loc =>
      meetsNoMisfit_pure _).completes
  refine ⟨.start fun n => .token fun t => ?_, begun.isWritable⟩
  split
  · exact taken
  · exact taken
  · exact taken
  · exact .ite taken (.ite ((completes_unexpected begun).withHint _) taken)
  · cases constant with
    | true => exact (completes_unexpected begun).withHint _
    | false => exact resumes_variableValue.completes
  · exact completes_unexpected begun

section Nested

variable {item : Parser Value} (yi : Yields item Value.form (Value.Conforms constant levels))
  (hi : Resumes item (LexemesOf Value.form (Value.Conforms constant levels)))

include yi hi

private theorem resumes_listOf :
    Resumes (listOf item) (LexemesOf Value.form (Value.Conforms constant (levels + 1))) := by
  refine .start fun _ =>
    .bind (yields_block .bracketOpen .bracketClose yi) (resumes_block yi hi _ _)
    fun vs ls pvs fvs => ?_
  rw [← Value.forms_eq_map] at fvs
  exact .located (.pure ⟨.list vs none, Value.list_conforms.2 pvs, by
    rw [List.append_nil]
    exact Form.writes_located fvs⟩)

private theorem resumes_objectFieldOf :
    Resumes (objectFieldOf item)
      (LexemesOf ObjectFieldOf.form (ObjectFieldOf.Conforms constant levels)) := by
  refine .start fun _ => .bind yields_name resumes_name fun n ls₁ pn f₁ => ?_
  refine .bind (yields_expect .colon) (resumes_expect .colon) fun _ ls₂ _ f₂ =>
    .bind yi hi fun v ls₃ pv f₃ => ?_
  exact .located (.pure ⟨⟨n, v, none⟩, ⟨pn, pv⟩,
    Form.writes_located (Form.writes_all_cons f₁
      (Form.writes_all_cons f₂ (Form.writes_all_cons f₃ Form.writes_all_nil)))⟩)

private theorem resumes_objectOf : Resumes (objectOf item)
    (LexemesOf ObjectValue.form fun o => o.toValue.Conforms constant (levels + 1)) := by
  refine .start fun _ => .bind (yields_block .braceOpen .braceClose (yields_objectFieldOf yi))
    (resumes_block (yields_objectFieldOf yi) (resumes_objectFieldOf yi hi) _ _) ?_
  intro fs ls pfs ffs
  rw [← Value.fieldForms_eq_map] at ffs
  exact .located (.pure ⟨⟨fs, none⟩, Value.object_conforms.2 pfs, by
    rw [List.append_nil]
    exact Form.writes_located ffs⟩)

end Nested

theorem resumes_value (constant : Bool) (levels : Nat) :
    Resumes (value constant levels) (LexemesOf Value.form (Value.Conforms constant levels)) := by
  induction levels with
  | zero =>
    have atom := resumes_atom constant 0
    rw [value_zero_eq]
    refine ⟨.token fun t => ?_, atom.isWritable⟩
    exact .ite meetsNoMisfit_tooDeep.completes (.ite meetsNoMisfit_tooDeep.completes atom.completes)
  | succ levels ih =>
    have yi := yields_value constant levels
    rw [value_succ_eq]
    refine .token fun t => .ite (resumes_listOf yi ih) (.ite ?_ (resumes_atom constant _))
    exact (resumes_objectOf yi ih).map ObjectValue.toValue (fun _ => rfl) fun _ po => po

theorem resumes_objectValue (levels : Nat) :
    Resumes (objectValue (levels + 1))
      (LexemesOf ObjectValue.form (ObjectValue.Conforms (levels + 1))) :=
  resumes_objectOf (yields_value false levels) (resumes_value false levels)

private theorem resumes_argument (levels : Nat) :
    Resumes (argument levels) (LexemesOf Argument.form (Argument.Conforms levels)) := by
  refine .start fun _ => .bind yields_name resumes_name fun n ls₁ pn f₁ => ?_
  refine .bind (yields_expect .colon) (resumes_expect .colon) fun _ ls₂ _ f₂ => ?_
  refine .bind (yields_value false levels) (resumes_value false levels) fun v ls₃ pv f₃ => ?_
  exact .located (.pure ⟨⟨n, v, none⟩, ⟨pn, pv⟩,
    Form.writes_located (Form.writes_all_cons f₁
      (Form.writes_all_cons f₂ (Form.writes_all_cons f₃ Form.writes_all_nil)))⟩)

private theorem resumes_directive (levels : Nat) :
    Resumes (directive levels) (LexemesOf Directive.form (Directive.Conforms levels)) := by
  refine .start fun _ => .bind (yields_expect .atSign) (resumes_expect .atSign) fun _ ls₁ _ f₁ => ?_
  refine .bind yields_name resumes_name fun n ls₂ pn f₂ => ?_
  refine .bind (yields_optionalBlock _ _ (yields_argument levels))
    (resumes_optionalBlock (yields_argument levels) (resumes_argument levels) _ _)
      fun as ls₃ pas f₃ => ?_
  exact .located (.pure ⟨⟨n, as, none⟩, ⟨pn, pas⟩,
    Form.writes_located (Form.writes_all_cons f₁
      (Form.writes_all_cons f₂ (Form.writes_all_cons f₃ Form.writes_all_nil)))⟩)

theorem resumes_directives (levels : Nat) :
    Resumes (directives levels) (LexemesOf Directive.forms (∀ d ∈ ·, d.Conforms levels)) :=
  resumes_many (yields_directive levels) (resumes_directive levels) _

theorem resumes_namedType : Resumes namedType (LexemesOf NamedType.form NamedType.Conforms) := by
  refine .start fun _ => .bind yields_name resumes_name fun n ls pn fn =>
    .located (.pure ⟨⟨n, none⟩, pn, ?_⟩)
  rw [List.append_nil]
  exact Form.writes_located fn

private theorem resumes_named {base : TypeRef → Prop}
    (hbase : ∀ t : NamedType, t.Conforms → base (.named t)) :
    Resumes (return TypeRef.named (← namedType))
      (LexemesOf TypeRef.form (TypeRef.Conforms base levels)) :=
  resumes_namedType.map TypeRef.named (fun _ => rfl) fun t pt => ⟨hbase t pt, Nat.zero_le _⟩

/-- Behind a type that may be required nothing is wanted. -/
theorem resumes_orNonNull {p : Parser TypeRef} {base : TypeRef → Prop}
    (hp : Resumes p (LexemesOf TypeRef.form (TypeRef.Conforms base levels))) :
    Resumes (orNonNull p)
      (LexemesOf TypeRef.form (TypeRef.Conforms (TypeRef.IsOrNonNull base) levels)) := by
  refine .start fun n => ?_
  have resumes :=
    hp.mono (H := LexemesOf TypeRef.form (TypeRef.Conforms (TypeRef.IsOrNonNull base) levels))
    fun ls ⟨t, pt, ft⟩ => ⟨t, ⟨.inl pt.1, pt.2⟩, ft⟩
  exact resumes.before fun t => (meetsNoMisfit_skip .bang).bind fun _ =>
    .ite ((meetsNoMisfit_located n).bind fun _ => meetsNoMisfit_pure _) (meetsNoMisfit_pure t)

private theorem resumes_listTypeOf {element : Parser TypeRef}
    (ye : Yields element TypeRef.form (TypeRef.Conforms TypeRef.IsPlain levels))
    (he : Resumes element (LexemesOf TypeRef.form (TypeRef.Conforms TypeRef.IsPlain levels))) :
    Resumes (listTypeOf element)
      (LexemesOf TypeRef.form (TypeRef.Conforms TypeRef.IsPlainList (levels + 1))) := by
  refine .start fun _ => .bind (yields_expect .bracketOpen) (resumes_expect .bracketOpen)
    fun _ ls₁ _ f₁ => ?_
  refine .bind ye he fun t ls₂ pt f₂ => ?_
  refine .bind (yields_expect .bracketClose) (resumes_expect .bracketClose) fun _ ls₃ _ f₃ => ?_
  exact .located (.pure ⟨.list t none, ⟨pt.1, Nat.succ_le_succ pt.2⟩,
    Form.writes_located (Form.writes_all_cons f₁
      (Form.writes_all_cons f₂ (Form.writes_all_cons f₃ Form.writes_all_nil)))⟩)

/-- Where a bracket opens, a list type is read. If no level is left for it, that is no misfit. -/
theorem resumes_listType_or {r : Parser TypeRef}
    (hplain : ∀ n <
      levels, Resumes (plainType n) (LexemesOf TypeRef.form (TypeRef.Conforms TypeRef.IsPlain n)))
    (hG : ∀ ls, LexemesOf TypeRef.form (TypeRef.Conforms TypeRef.IsPlainList levels) ls → G ls)
    (hr : Resumes r G) :
    Resumes (peek .bracketOpen >>= fun b => if b then listType levels else r) G := by
  cases levels with
  | succ n =>
    have list := resumes_listTypeOf (yields_plainType n) (hplain n (Nat.lt_succ_self n))
    exact .peek .bracketOpen fun b => .ite (list.mono hG) hr
  | zero =>
    refine ⟨fun s c e hs hc he hmisfit => ?_, hr.isWritable⟩
    simp only [peek_bind, decide_eq_true_eq] at he
    split at he
    · rename_i ht
      rw [listType, listTypeOf, start_bind, expect_bind_of_token ht] at he
      exact goesOn_of_advance hs hc (by simp [ht]) meetsNoMisfit_tooDeep_bind.completes he hmisfit
    · exact hr.completes hs hc he hmisfit

theorem resumes_plainType (levels : Nat) :
    Resumes (plainType levels)
      (LexemesOf TypeRef.form (TypeRef.Conforms TypeRef.IsPlain levels)) := by
  induction levels using Nat.strong_induction_on with
  | _ levels ih =>
    have base :
        Resumes (peek .bracketOpen >>= fun b =>
            if b then listType levels else return .named (← namedType))
          (LexemesOf TypeRef.form (TypeRef.Conforms TypeRef.IsPlainBase levels)) := by
      refine resumes_listType_or ih (fun ls ⟨t, pt, ft⟩ =>
        ⟨t, ⟨(TypeRef.of_isPlainList pt.1).1, pt.2⟩, ft⟩) ?_
      exact resumes_named fun _ ht => ht
    rw [plainType_eq]
    refine (resumes_orNonNull base).mono fun ls ⟨t, pt, ft⟩ => ?_
    exact ⟨t, ⟨TypeRef.isPlain_iff_isOrNonNull.2 pt.1, pt.2⟩, ft⟩

private theorem resumes_arrowStart :
    Resumes arrowStart
      (LexemesOf (fun shape : Direction × Cardinality => arrowStartForm shape.1 shape.2)
      fun _ => True) := by
  have dash : IsBegun fun ls => (Form.all [.punctuator .dash]).Writes ls :=
    isBegun_of_token (t := .punctuator .dash) trivial fun l hl =>
      ⟨[], fun _ hl => absurd hl List.not_mem_nil,
        Form.writes_all_cons (F := .punctuator .dash) ⟨l, rfl, hl⟩ Form.writes_all_nil⟩
  have begun :
      IsBegun (LexemesOf (fun shape : Direction × Cardinality => arrowStartForm shape.1 shape.2)
          fun _ => True) :=
    dash.mono fun ls h => ⟨(.outgoing, .singular), trivial, h⟩
  refine .skip .dash (fun l hl => (meetsNoMisfit_pure _).completes) ?_
  refine .skip .equals (fun l hl => (meetsNoMisfit_pure _).completes) ?_
  refine .skip .less (fun l hl => ?_) ⟨completes_unexpected begun, begun.isWritable⟩
  have behind : IsBegun fun ls =>
      LexemesOf (fun shape : Direction × Cardinality => arrowStartForm shape.1 shape.2)
          (fun _ => True) (l :: ls) :=
    dash.mono fun ls h =>
      ⟨(.incoming, .singular), trivial,
        Form.writes_all_cons (F := .punctuator .less) ⟨l, rfl, hl⟩ h⟩
  refine Resumes.completes (.skip .dash (fun l hl => (meetsNoMisfit_pure _).completes) ?_)
  refine .skip .equals (fun l hl => (meetsNoMisfit_pure _).completes) ?_
  exact ⟨(completes_unexpected behind).withHint _, behind.isWritable⟩

private theorem resumes_edgeLabel :
    Resumes edgeLabel (LexemesOf labelForm (∀ l ∈ ·, NamedType.Conforms l)) := by
  refine .token fun t => .ite ?_ (.pure ⟨none, by simp, rfl⟩)
  exact resumes_namedType.map some (fun _ => rfl) fun l pl => by simpa using pl

private theorem resumes_arrowEnd (direction : Direction) (cardinality : Cardinality) :
    Resumes (arrowEnd direction cardinality)
      (LexemesOf (fun _ => arrowEndForm direction cardinality) fun _ : Unit => True) := by
  refine .bind ((yields_expect _).withHint _) ((resumes_expect _).withHint _) fun _ ls₁ _ f₁ => ?_
  cases direction with
  | outgoing =>
    refine ((resumes_expect .greater).withHint _).mono fun ls₂ ⟨_, _, f₂⟩ => ⟨(), trivial, ?_⟩
    rw [← List.append_nil ls₂]
    cases cardinality <;>
      exact Form.writes_all_cons f₁ (Form.writes_all_cons f₂ Form.writes_all_nil)
  | incoming =>
    refine .pure ⟨(), trivial, ?_⟩
    cases cardinality <;> exact Form.writes_all_cons f₁ Form.writes_all_nil

private theorem resumes_connectionType :
    Resumes connectionType (LexemesOf ConnectionType.form ConnectionType.Conforms) := by
  refine .start fun _ => .bind yields_arrowStart resumes_arrowStart fun shape ls₁ _ f₁ => ?_
  refine .bind yields_edgeLabel resumes_edgeLabel fun label ls₂ plabel f₂ => ?_
  refine .bind (yields_arrowEnd shape.1 shape.2) (resumes_arrowEnd shape.1 shape.2)
    fun _ ls₃ _ f₃ => ?_
  refine .bind yields_namedType resumes_namedType fun t ls₄ pt f₄ => ?_
  exact .located (.pure ⟨⟨t, label, shape.1, shape.2, none⟩, ⟨pt, plabel⟩,
    Form.writes_located (Form.writes_all_cons f₁ (Form.writes_all_cons f₂
      (Form.writes_all_cons f₃ (Form.writes_all_cons f₄ Form.writes_all_nil))))⟩)

private theorem resumes_edgeStart :
    Resumes edgeStart (LexemesOf (fun direction => arrowStartForm direction .plural)
      fun _ => True) := by
  have begun :
      IsBegun (LexemesOf (fun direction => arrowStartForm direction .plural) fun _ => True) :=
    isBegun_of_token (t := .punctuator .equals) trivial fun l hl =>
      ⟨[], fun _ hl => absurd hl List.not_mem_nil, .outgoing, trivial,
        Form.writes_all_cons (F := .punctuator .equals) ⟨l, rfl, hl⟩ Form.writes_all_nil⟩
  refine .skip .equals (fun l hl => (meetsNoMisfit_pure _).completes)
    (.skip .less (fun l hl => Resumes.completes ?_) ?_)
  · refine .bind ((yields_expect .equals).withHint _) ((resumes_expect .equals).withHint _)
      fun _ ls _ f => ?_
    exact .pure ⟨.incoming, trivial, Form.writes_all_cons (F := .punctuator .less) ⟨l, rfl, hl⟩
      (Form.writes_all_cons f Form.writes_all_nil)⟩
  · exact ⟨completes_unexpected begun, begun.isWritable⟩

private theorem resumes_edgeType :
    Resumes edgeType (LexemesOf EdgeType.form EdgeType.Conforms) := by
  refine .start fun _ => .bind yields_edgeStart resumes_edgeStart fun direction ls₁ _ f₁ => ?_
  refine .bind yields_edgeLabel resumes_edgeLabel fun label ls₂ plabel f₂ => ?_
  refine .bind (yields_arrowEnd direction .plural) (resumes_arrowEnd direction .plural)
    fun _ ls₃ _ f₃ => ?_
  refine .bind yields_namedType resumes_namedType fun t ls₄ pt f₄ => ?_
  exact .located (.pure ⟨⟨t, label, direction, none⟩, ⟨pt, plabel⟩,
    Form.writes_located (Form.writes_all_cons f₁ (Form.writes_all_cons f₂
      (Form.writes_all_cons f₃ (Form.writes_all_cons f₄ Form.writes_all_nil))))⟩)

theorem resumes_fieldType (levels : Nat) : Resumes (fieldType levels)
    (LexemesOf TypeRef.form
      (TypeRef.Conforms (TypeRef.IsOrNonNull TypeRef.IsFieldBase) levels)) := by
  refine resumes_orNonNull (.start fun _ => ?_)
  refine resumes_listType_or (fun n _ => resumes_plainType n)
    (fun ls ⟨t, pt, ft⟩ => ⟨t, ⟨(TypeRef.of_isPlainList pt.1).2.1, pt.2⟩, ft⟩) ?_
  refine resumes_many_of_starts yields_connectionType resumes_connectionType _
    (fun t ts ls pts fts => ?_)
    (resumes_named fun _ ht => ht)
  -- A connection on its own is no join.
  cases ts with
  | nil =>
    obtain ⟨xs, ys, rfl, ft, rfl⟩ := fts
    refine .pure ⟨.connection t, ⟨pts t List.mem_cons_self, Nat.zero_le _⟩, ?_⟩
    rw [List.append_nil, List.append_nil]
    exact ft
  | cons u us =>
    refine .located
      (.pure ⟨.connectionJoin ⟨t :: u :: us, none⟩,
        ⟨⟨Nat.le_add_left 2 _, pts⟩, Nat.zero_le _⟩, ?_⟩)
    rw [List.append_nil]
    exact Form.writes_located fts

theorem resumes_mutationFieldType (levels : Nat) : Resumes (mutationFieldType levels)
    (LexemesOf TypeRef.form
      (TypeRef.Conforms (TypeRef.IsOrNonNull TypeRef.IsMutationFieldBase) levels)) := by
  refine resumes_orNonNull ?_
  refine resumes_listType_or (fun n _ => resumes_plainType n)
    (fun ls ⟨t, pt, ft⟩ => ⟨t, ⟨(TypeRef.of_isPlainList pt.1).2.2.1, pt.2⟩, ft⟩) ?_
  refine .peek .equals fun _ => .peek .less fun _ => .ite ?_ (resumes_named fun _ ht => ht)
  exact resumes_edgeType.map TypeRef.edge (fun _ => rfl) fun t pt => ⟨pt, Nat.zero_le _⟩

theorem resumes_targetType (levels : Nat) : Resumes (targetType levels)
    (LexemesOf TypeRef.form (TypeRef.Conforms TypeRef.IsTarget levels)) := by
  have named : Resumes (return TypeRef.named (← namedType))
    (LexemesOf TypeRef.form (TypeRef.Conforms TypeRef.IsTarget levels)) :=
      resumes_named fun _ ht => ht
  have begun : IsBegun (LexemesOf TypeRef.form (TypeRef.Conforms TypeRef.IsTarget levels)) :=
    isBegun_name fun l hl =>
      ⟨[], fun _ hl => absurd hl List.not_mem_nil, .named ⟨⟨"a", none⟩, none⟩,
        ⟨isName_a, Nat.zero_le _⟩,
        Form.writes_located (Form.writes_located (F := .token (.name "a") rfl) ⟨l, rfl, hl⟩)⟩
  refine resumes_listType_or (fun n _ => resumes_plainType n)
    (fun ls ⟨t, pt, ft⟩ => ⟨t, ⟨(TypeRef.of_isPlainList pt.1).2.2.2, pt.2⟩, ft⟩) ?_
  refine .token fun t =>
    .ite ?_ (.token fun u => .ite named ⟨completes_unexpected begun, begun.isWritable⟩)
  exact resumes_connectionType.map TypeRef.connection (fun _ => rfl) fun t pt => ⟨pt, Nat.zero_le _⟩

end SchemaLang.Parser
