import SchemaLang.Proofs.Documents
import SchemaLang.Proofs.Locations.Tokens
import SchemaLang.Proofs.Traversal.Preorder
import SchemaLang.Variables

/-!
# The names of variables

The walk that collects variables keeps every node, and notes the variables in it in the order in
which they are entered. In the text of a value a dollar sign stands nowhere but in front of the name
of a variable. So for values that were read from sources the names are those behind the dollar
signs, from left to right.
-/

namespace SchemaLang

/-- The name of the variable that a node is. -/
def Node.varName? : Node → Option String
  | .value (.var n _) => some n.value
  | _ => none

/-- The names of the variables within a node, from left to right. -/
def Node.varNames (n : Node) : List String := n.preorder.filterMap varName?

/-- The names of the variables at any depth of an object, from left to right. -/
def ObjectValue.varNames (o : ObjectValue) : List String := (Node.value o.toValue).varNames

private theorem Node.varNames_eq (n : Node) :
    n.varNames = n.varName?.toList ++ n.children.flatMap varNames := by
  rw [varNames, preorder_eq, List.filterMap_cons]
  have inner : (n.children.flatMap preorder).filterMap varName? = n.children.flatMap varNames :=
    List.filterMap_flatMap
  cases n.varName? <;> simp [inner]

@[simp] theorem Node.varNames_name (n : Name) : (name n).varNames = [] := by
  rw [varNames_eq]
  rfl

private theorem Node.varNames_var (n : Name) (loc : Option Loc) :
    (value (.var n loc)).varNames = [n.value] := by
  have children : (value (.var n loc)).children = [name n] := rfl
  rw [varNames_eq, children]
  simp [varName?]

private theorem Node.varNames_objectField (f : ObjectField) :
    (objectField f).varNames = (value f.value).varNames := by
  have children : (objectField f).children = [name f.name, value f.value] := rfl
  rw [varNames_eq, children]
  simp [varName?]

namespace Variables

/-- The names after more of them were noted. -/
def noted (names more : List String) : List String := more.foldl note names

private theorem noted_append (names more others : List String) :
    noted names (more ++ others) = noted (noted names more) others := List.foldl_append

/-- Those are added that were not among the names, each where it is noted first. -/
theorem noted_eq (names more : List String) :
    noted names more = names ++ (more.filter (· ∉ names)).eraseDups := by
  induction more generalizing names with
  | nil => simp [noted]
  | cons name more ih =>
    change noted (note names name) more = _
    rw [ih]
    by_cases h : name ∈ names
    · simp [note, h]
    · have others : more.filter (· ∉ names ++ [name]) = (more.filter (· ∉ names)).filter fun b =>
          !b == name := by
        rw [List.filter_filter]
        refine List.filter_congr fun b _ => ?_
        by_cases hb : b = name <;> simp [hb]
      rw [note, if_neg h, List.filter_cons_of_pos (by simpa using h), List.eraseDups_cons, others,
        List.append_assoc]
      rfl

private theorem noted_nil (more : List String) :
    noted [] more = more.eraseDups := by simp [noted_eq]

/-- Some of the names, noted alone, are in the order that they have among all. -/
theorem eraseDups_filter (keep : String → Bool) (more : List String) :
    (more.filter keep).eraseDups = more.eraseDups.filter keep := by
  rw [← noted_nil, ← noted_nil]
  induction more using List.reverseRecOn with
  | nil => rfl
  | append_singleton more name ih =>
    rw [List.filter_append, noted_append, noted_append, ih]
    generalize noted [] more = names
    cases hk : keep name <;> by_cases h : name ∈ names <;> simp [noted, note, h, hk]

private theorem moved_noted (names : List String) (ns : List Node) :
    Walk.moved (fun n names => noted names n.varNames) names ns =
      noted names (ns.flatMap Node.varNames) := by
  induction ns generalizing names with
  | nil => rfl
  | cons n ns ih => exact (ih _).trans (noted_append names n.varNames _).symm

private theorem exists_var_of_varName? {n : Node} {name : String} (h : n.varName? = some name) :
    ∃ m loc, n = .value (.var m loc) ∧ name = m.value := by
  cases n with
  | value v =>
    cases v with
    | var m loc => exact ⟨m, loc, rfl, (Option.some.inj h).symm⟩
    | _ => cases h
  | _ => cases h

private theorem enter_of_varName?_eq_none {n : Node} (h : n.varName? = none) (context : Context)
    (names : List String) : collector.enter n context names = (.keep, names) := by
  have kind : n.kind ≠ .var := by
    intro hk
    cases n with
    | value v => cases v <;> simp_all [Node.kind, Value.kind, Node.varName?]
    | type t => cases t <;> cases hk
    | definition d => cases d <;> cases hk
    | field owner d => cases owner <;> cases hk
    | _ => cases hk
  simp [collector, VisitorTable.visitor, VisitorTable.call, VisitorTable.callback?,
    VisitorTable.on, kind]

private theorem leave_collector (n : Node) (context : Context) (names : List String) :
    collector.leave n context names = (.keep, names) := rfl

/-- The walk keeps a node and notes the variables within it. -/
theorem node_collector (n : Node) :
    ∀ {limit : Nat}, n.height ≤ limit →
    ∀ (context : Context) (names : List String),
    Walk.node collector schemaKeys limit context n ⟨names, false⟩ =
      (.ok (some n), ⟨noted names n.varNames, false⟩) := by
  induction n using Node.inductParts with
  | step n ih =>
    intro limit hlimit context names
    obtain ⟨limit, rfl⟩ :=
      Nat.exists_eq_add_one_of_ne_zero (Nat.ne_of_gt (Nat.lt_of_lt_of_le n.height_pos hlimit))
    cases hn : n.varName? with
    | some name =>
      obtain ⟨n, loc, rfl, rfl⟩ := exists_var_of_varName? hn
      rw [Walk.node_passed rfl, Node.varNames_var]
      rfl
    | none =>
      have keeps : ∀ c ∈ n.children,
        Walk.Keeps (Walk.node collector schemaKeys limit) (context.ancestors ++ [n.kind])
          (fun n names => noted names n.varNames) c := by
        intro c hc k place names
        have lower := Node.height_lt_of_mem_children hc
        exact ih c hc (Nat.le_of_lt_succ (Nat.lt_of_lt_of_le lower hlimit)) _ names
      rw [Node.varNames_eq, hn]
      exact Walk.node_of_keeps (enter_of_varName?_eq_none hn context names) keeps
        ((leave_collector n context _).trans (congrArg _ (moved_noted names n.children)))

private theorem noteAll_eq (names : List String) (os : List ObjectValue) :
    noteAll names os = .ok (noted names (os.flatMap ObjectValue.varNames)) := by
  induction os generalizing names with
  | nil => rfl
  | cons o os ih =>
    have walked : (Node.value o.toValue).visit collector names =
        (.ok (some (.value o.toValue)), noted names o.varNames) := by
      rw [Node.visit, Node.visitWith, node_collector _ (Nat.le_refl _)]
      rfl
    rw [noteAll, walked, List.flatMap_cons, noted_append]
    exact ih _

end Variables

/-- The names that stand behind dollar signs. -/
def namesAfterDollar : List Token → List String
  | .punctuator .dollar :: .name text :: ts => text :: namesAfterDollar ts
  | _ :: ts => namesAfterDollar ts
  | [] => []

/-- The names that stand behind dollar signs in a source. A description may stand
between the two. -/
def Source.namesAfterDollar (s : Source) : List String :=
  SchemaLang.namesAfterDollar (s.tokenSequence.filter fun t => !t.isDescription)

private theorem Form.significantTokens_all_cons (a : Form) (as : List Form) :
    (all (a :: as)).significantTokens = a.significantTokens ++ (all as).significantTokens :=
  significantTokens_seq a _

private theorem Form.significantTokens_block (before after : Punctuator) (as : List Form) :
    (block before after as).significantTokens =
      .punctuator before :: ((all as).significantTokens ++ [.punctuator after]) := by
  simp [significantTokens, block, Token.isDescription]

private theorem namesAfterDollar_cons {t : Token} (h : t ≠ .punctuator .dollar) (ts : List Token) :
    namesAfterDollar (t :: ts) = namesAfterDollar ts := by
  rw [namesAfterDollar]
  exact fun _ _ ht _ => h ht

mutual

/-- A value has dollar signs in front of the names of its variables, and no others. -/
theorem Value.namesAfterDollar_form (v : Value) (ts : List Token) :
    namesAfterDollar (v.form.significantTokens ++ ts) =
      (Node.value v).varNames ++ namesAfterDollar ts := by
  match v with
  | .var n loc =>
    rw [Node.varNames_var]
    rfl
  | .int .. | .float .. | .string .. | .boolean .. | .enum .. =>
    rw [Node.varNames_eq]
    rfl
  | .list vs loc =>
    change namesAfterDollar
      ((Form.block .bracketOpen .bracketClose (forms vs)).significantTokens ++ ts) = _
    have children : (Node.value (.list vs loc)).children = vs.map .value :=
      List.flatMap_singleton _ _
    rw [Form.significantTokens_block, List.cons_append, List.append_assoc,
      namesAfterDollar_cons (by decide), namesAfterDollar_forms, Node.varNames_eq, children]
    rfl
  | .object fs loc =>
    change namesAfterDollar
      ((Form.block .braceOpen .braceClose (fieldForms fs)).significantTokens ++ ts) = _
    have children : (Node.value (.object fs loc)).children = fs.map .objectField :=
      List.flatMap_singleton _ _
    rw [Form.significantTokens_block, List.cons_append, List.append_assoc,
      namesAfterDollar_cons (by decide), namesAfterDollar_fieldForms, Node.varNames_eq, children]
    rfl

theorem Value.namesAfterDollar_forms (vs : List Value) (ts : List Token) :
    namesAfterDollar ((Form.all (Value.forms vs)).significantTokens ++ ts) =
      (vs.map Node.value).flatMap Node.varNames ++ namesAfterDollar ts := by
  match vs with
  | [] => rfl
  | v :: vs =>
    rw [Value.forms, Form.significantTokens_all_cons, List.append_assoc, namesAfterDollar_form v,
      namesAfterDollar_forms vs, List.map_cons, List.flatMap_cons, List.append_assoc]

theorem Value.namesAfterDollar_fieldForms (fs : List ObjectField) (ts : List Token) :
    namesAfterDollar ((Form.all (Value.fieldForms fs)).significantTokens ++ ts) =
      (fs.map Node.objectField).flatMap Node.varNames ++ namesAfterDollar ts := by
  match fs with
  | [] => rfl
  | ⟨n, v, loc⟩ :: fs =>
    have field : (Form.located loc (.all [n.form, .punctuator .colon, v.form])).significantTokens =
        .name n.value :: .punctuator .colon :: v.form.significantTokens := by
      simp [Form.significantTokens, Name.form, Form.tokens, Token.isDescription]
    rw [Value.fieldForms, Form.significantTokens_all_cons, List.append_assoc, field,
      List.cons_append, List.cons_append, namesAfterDollar_cons (t := .name n.value) nofun,
      namesAfterDollar_cons (by decide), namesAfterDollar_form v, namesAfterDollar_fieldForms fs,
      List.map_cons, List.flatMap_cons, Node.varNames_objectField, List.append_assoc]

end

/-- The tokens of a value that is read, without descriptions, are those that it is written with. -/
theorem tokens_of_parseValue {s : Source} {o : ParseOptions} {v : Value}
    (h : parseValue s o = .ok v) : (s.tokenSequence.filter fun t => !t.isDescription) =
      v.form.significantTokens ++ [.endOfInput] := by
  obtain ⟨-, c, m, hc, -, spans, hend⟩ := parseValue_eq_ok_iff.1 h
  obtain ⟨ls, hls, -, covers⟩ := Form.covers_of_spans spans
  have last : m.lexemes = [m.current] :=
    congrArg (List.cons m.current) (ends_of_spans hc spans hend).2
  have tokens : (s.tokenSequence.filter fun t => !t.isDescription) = s.lexemes.map Lexeme.token :=
    (Lexeme.map_token_gather [] s.tokens.readings).symm
  rw [tokens, ← hc, hls, last, List.map_append, v.isRigid_form.map_token_of_covers covers]
  exact congrArg (fun t => v.form.significantTokens ++ [t]) hend

/-- What is read from a source has the variables whose names stand behind dollar signs in it. -/
theorem varNames_of_parseValue {s : Source} {o : ParseOptions} {v : Value}
    (h : parseValue s o = .ok v) : (Node.value v).varNames = s.namesAfterDollar := by
  rw [Source.namesAfterDollar, tokens_of_parseValue h, v.namesAfterDollar_form]
  exact (List.append_nil _).symm

namespace Variables

private theorem variableNames_eq (os : List ObjectValue) :
    variableNames os = .ok (os.flatMap ObjectValue.varNames).eraseDups := by
  rw [variableNames, noteAll_eq, noted_nil]

private theorem nodup_noted (more : List String) : (noted [] more).Nodup := by
  induction more using List.reverseRecOn with
  | nil => exact List.nodup_nil
  | append_singleton more name ih =>
    rw [noted_append]
    generalize noted [] more = names at ih
    change (note names name).Nodup
    by_cases h : name ∈ names
    · rwa [note, if_pos h]
    · rw [note, if_neg h]
      have apart : ∀ b ∈ names, b ≠ name := fun b hb e => h (e ▸ hb)
      exact List.nodup_append.2 ⟨ih, List.pairwise_singleton _ name, by simpa using apart⟩

private theorem nodup_of_variableNames {os : List ObjectValue} {names : List String}
    (h : variableNames os = .ok names) : names.Nodup := by
  rw [variableNames_eq, ← noted_nil] at h
  obtain rfl := Except.ok.inj h
  exact nodup_noted _

/-- The names of the variables in more objects are noted after those in the others. -/
theorem variableNames_append {os others : List ObjectValue} {names more : List String}
    (h : variableNames os = .ok names) (h' : variableNames others = .ok more) :
    variableNames (os ++ others) = .ok (names ++ more.filter (· ∉ names)) := by
  rw [variableNames_eq] at h h'
  obtain rfl := Except.ok.inj h
  obtain rfl := Except.ok.inj h'
  rw [variableNames_eq, List.flatMap_append, ← noted_nil, noted_append, noted_eq, noted_nil,
    eraseDups_filter]

private theorem flatMap_varNames_of_parseValue {os : List ObjectValue}
    {sources : List (Source × ParseOptions)}
    (h : os.Forall₂ (fun o source => parseValue source.1 source.2 = .ok o.toValue) sources) :
    os.flatMap ObjectValue.varNames = sources.flatMap fun source => source.1.namesAfterDollar := by
  induction h with
  | nil => rfl
  | cons first _ ih =>
    rw [List.flatMap_cons, List.flatMap_cons, ih, ← varNames_of_parseValue first]; rfl

end Variables

/-- Collecting the names of the variables in these objects never fails, and finds all of them. -/
structure NamesVariables (os : List ObjectValue) : Prop where
  /-- They are those of the variables at any depth, each once, where it occurs first. -/
  names : variableNames os = .ok (os.flatMap ObjectValue.varNames).eraseDups
  nodup : ∀ names, variableNames os = .ok names → names.Nodup
  /-- More objects add the names that the others do not have. -/
  append : ∀ others names more, variableNames os = .ok names → variableNames others = .ok more →
    variableNames (os ++ others) = .ok (names ++ more.filter (· ∉ names))
  /-- For objects that were read from sources they are those behind dollar signs. -/
  read : ∀ sources : List (Source × ParseOptions),
    os.Forall₂ (fun o source => parseValue source.1 source.2 = .ok o.toValue) sources →
      variableNames os = .ok (sources.flatMap fun source => source.1.namesAfterDollar).eraseDups

/-- The names of variables are collected exactly, for all objects. -/
theorem namesVariables (os : List ObjectValue) : NamesVariables os where
  names := Variables.variableNames_eq os
  nodup _ h := Variables.nodup_of_variableNames h
  append _ _ _ h h' := Variables.variableNames_append h h'
  read sources h := by rw [Variables.variableNames_eq, Variables.flatMap_varNames_of_parseValue h]

/-- Two objects that share a variable. -/
theorem namesVariables_two :
    let options : ParseOptions := ⟨true, true, 3⟩
    let named (name : String) : Value := .var ⟨name, none⟩ none
    let first : ObjectValue :=
      ⟨[⟨⟨"in", none⟩, .list [named "a", .int "1" none, named "b"] none, none⟩], none⟩
    let second : ObjectValue :=
      ⟨[⟨⟨"eq", none⟩, named "c", none⟩, ⟨⟨"ne", none⟩, named "a", none⟩], none⟩
    let sources := [(⟨"\x7bin: [$a, 1, $b]\x7d", ""⟩, options),
      (⟨"\x7beq: $ ## d\nc, ne: $a\x7d", ""⟩, options)]
    [first, second].Forall₂ (fun o source => parseValue source.1 source.2 = .ok o.toValue) sources ∧
      variableNames [first, second] = .ok ["a", "b", "c"] := by
  intro options named first second sources
  have parsed : [first, second].Forall₂ (fun o source => parseValue source.1 source.2 =
      .ok o.toValue) sources :=
    .cons (by decide +kernel) (.cons (by decide +kernel) .nil)
  have names : (sources.flatMap fun source => source.1.namesAfterDollar).eraseDups =
      ["a", "b", "c"] := by
    decide +kernel
  exact ⟨parsed, ((namesVariables _).read sources parsed).trans (congrArg _ names)⟩

end SchemaLang
