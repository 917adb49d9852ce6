import SchemaLang.Proofs.Printing.Lexes

/-!
# Texts that spell tokens

A text spells some tokens if it has them in front of anything that no name or number goes on with,
however far its lines are moved in. So the texts of parts can be put one after the other, joined,
and indented, and what the whole spells is read off from its parts. An empty text spells nothing,
which lets parts be left out.
-/

namespace SchemaLang

/-- The text with all lines but the first moved in by `k` levels of two spaces. -/
def indentBy (k : Nat) (cs : List Char) : List Char :=
  cs.flatMap fun c => if c = '\n' then '\n' :: List.replicate (2 * k) ' ' else [c]

theorem indentBy_zero (cs : List Char) : indentBy 0 cs = cs := by
  induction cs with
  | nil => rfl
  | cons c cs ih =>
    rw [indentBy, List.flatMap_cons, ← indentBy, ih]
    split <;> simp_all

theorem indentBy_append (k : Nat) (cs ds : List Char) :
    indentBy k (cs ++ ds) = indentBy k cs ++ indentBy k ds :=
  List.flatMap_append

theorem indentBy_of_not_mem {k : Nat} {cs : List Char} (h : '\n' ∉ cs) : indentBy k cs = cs := by
  induction cs with
  | nil => rfl
  | cons c cs ih =>
    obtain ⟨hc, hcs⟩ := not_or.1 (mt List.mem_cons.2 h)
    rw [indentBy, List.flatMap_cons, ← indentBy, ih hcs, if_neg (Ne.symm hc)]
    rfl

private theorem head?_indentBy (k : Nat) (cs : List Char) : (indentBy k cs).head? = cs.head? := by
  cases cs with
  | nil => rfl
  | cons c cs =>
    rw [indentBy, List.flatMap_cons]
    split
    · rename_i hc
      rw [hc]
      rfl
    · rfl

/-- Indenting a text moves it in by one level more. -/
theorem indentBy_indent (k : Nat) (text : String) :
    indentBy k (Layout.indent text).toList = indentBy (k + 1) text.toList := by
  rw [Layout.indent, String.toList_ofList, indentBy, List.flatMap_assoc]
  congr 1
  funext c
  rw [Layout.indentChar]
  split
  · simp [show 2 * (k + 1) = 2 * k + 1 + 1 from rfl, List.replicate_succ', List.flatMap_cons]
  · rename_i hc
    simp [hc]

/-- The text has the tokens, and no comments, in front of anything that no name or number
goes on with. -/
def Spells (text : String) (ts : List Token) : Prop :=
  ∀ k rest us {notes}, Breaks rest → LexesWith notes rest us →
    LexesWith notes (indentBy k text.toList ++ rest) (ts ++ us)

/-- The text has the tokens, and no comments, in front of anything. -/
def Closes (text : String) (ts : List Token) : Prop :=
  ∀ k rest us {notes}, LexesWith notes rest us →
    LexesWith notes (indentBy k text.toList ++ rest) (ts ++ us)

variable {a b text : String} {ts us : List Token}

theorem Closes.spells (h : Closes text ts) : Spells text ts :=
  fun k rest us _ _ hrest => h k rest us hrest

theorem spells_empty : Spells "" [] := fun _ _ _ _ _ hrest => hrest

/-- Nothing is spelled by an empty text. -/
theorem Spells.eq_nil (h : Spells "" ts) : ts = [] := by
  have hempty := (h 0 [] [] Breaks.nil lexes_nil 0).2.1
  rw [List.append_nil ts] at hempty
  exact List.append_cancel_right (hempty.symm.trans (lexes_nil 0).2.1)

theorem Spells.append (ha : Spells a ts) (hb : Spells b us) (hbreaks : Breaks b.toList) :
    Spells (a ++ b) (ts ++ us) := by
  intro k rest vs notes hrest hvs
  have hhead : Breaks (indentBy k b.toList) := by
    intro c hc
    rw [head?_indentBy] at hc
    exact hbreaks c hc
  rw [String.toList_append, indentBy_append, List.append_assoc, List.append_assoc]
  exact ha k _ _ (hhead.append hrest) (hb k rest vs hrest hvs)

theorem Closes.append (ha : Closes a ts) (hb : Spells b us) : Spells (a ++ b) (ts ++ us) := by
  intro k rest vs notes hrest hvs
  rw [String.toList_append, indentBy_append, List.append_assoc, List.append_assoc]
  exact ha k _ _ (hb k rest vs hrest hvs)

/-- Lines that are moved in spell what they spell. -/
theorem Spells.indent (h : Spells text ts) : Spells (Layout.indent text) ts := by
  intro k rest us notes hrest hus
  rw [indentBy_indent]
  exact h (k + 1) rest us hrest hus

theorem spells_name (h : IsName text) : Spells text [.name text] := by
  intro k rest us notes hrest hus
  have hone : '\n' ∉ text.toList := fun hmem => absurd (isNameChar_of_isName h _ hmem) (by decide)
  rw [indentBy_of_not_mem hone]
  exact LexesWith.name h hrest hus

theorem spells_number (isFloat : Bool) (h : IsNumber text isFloat) :
    Spells text [if isFloat then .float text else .int text] := by
  intro k rest us notes hrest hus
  have hone : '\n' ∉ text.toList :=
    fun hmem => absurd (isNumberChar_of_isNumber h _ hmem) (by decide)
  rw [indentBy_of_not_mem hone]
  exact LexesWith.number h hrest hus

/-- No escape takes more than one line. -/
theorem not_mem_escapeChar (c : Char) : '\n' ∉ Text.escapeChar c := by
  rcases StringLiteral.escapeChar_cases c
    with ⟨e, escape, -, -, feed⟩ | ⟨control, escape⟩ | ⟨itself, -, -, control⟩
  · simp [escape, feed.symm]
  · have digit : ∀ n < 16, Nat.digitChar n ≠ '\n' := by decide
    have below : c.toNat < 32 := control
    simp only [escape, Text.hexByte, List.mem_append, List.mem_cons, List.not_mem_nil,
      or_false, not_or]
    exact ⟨by decide, (digit _ (by omega)).symm, (digit _ (by omega)).symm⟩
  · rw [itself, List.mem_singleton]
    rintro rfl
    exact control (by decide)

theorem spells_quote (value : String) : Spells (Text.quote value) [.string value] := by
  intro k rest us notes _ hus
  have hone : '\n' ∉ (Text.quote value).toList := by
    simp only [Text.quote, String.toList_ofList, List.cons_append, List.mem_cons, List.mem_append,
      List.mem_flatMap, List.not_mem_nil, or_false, not_or, not_exists, not_and]
    exact ⟨by decide, fun c _ => not_mem_escapeChar c, by decide⟩
  rw [indentBy_of_not_mem hone]
  exact LexesWith.quote value hus

/-- Characters that are tokens by themselves, whatever stands behind them, or separate tokens. -/
def IsSymbol (c : Char) : Prop := Ignored.isSeparator c ∨ c ≠ '-' ∧ (Punctuator.ofChar? c).isSome

instance (c : Char) : Decidable (IsSymbol c) :=
  inferInstanceAs (Decidable (Ignored.isSeparator c ∨ c ≠ '-' ∧ (Punctuator.ofChar? c).isSome))

/-- A text of such characters. -/
def AreSymbols (text : String) : Prop := ∀ c ∈ text.toList, IsSymbol c

instance (text : String) : Decidable (AreSymbols text) := List.decidableBAll IsSymbol text.toList

/-- The tokens of such characters. -/
def symbols (text : String) :
    List Token := (text.toList.filterMap Punctuator.ofChar?).map .punctuator

private theorem lexes_symbols {notes : List (List Char)} {k : Nat} {cs rest : List Char}
    (h : ∀ c ∈ cs, IsSymbol c) (hrest : LexesWith notes rest us) :
    LexesWith notes (indentBy k cs ++ rest)
      ((cs.filterMap Punctuator.ofChar?).map .punctuator ++ us) := by
  induction cs with
  | nil => exact hrest
  | cons c cs ih =>
    obtain ⟨hc, hcs⟩ := List.forall_mem_cons.1 h
    have hrest := ih hcs
    rw [indentBy, List.flatMap_cons, ← indentBy, List.append_assoc]
    rcases hc with hc | ⟨hdash, hsome⟩
    · have hnone : Punctuator.ofChar? c = none := by
        simp only [Ignored.isSeparator, Bool.or_eq_true, beq_iff_eq] at hc
        rcases hc with ((((rfl | rfl) | rfl) | rfl) | rfl) | rfl <;> decide
      rw [List.filterMap_cons_none hnone]
      refine hrest.separators ?_
      split
      · refine List.forall_mem_cons.2 ⟨rfl, fun x hx => ?_⟩
        rw [List.eq_of_mem_replicate hx]
        rfl
      · exact List.forall_mem_singleton.2 hc
    · obtain ⟨p, hp⟩ := Option.isSome_iff_exists.1 hsome
      obtain rfl := Punctuator.char_of_ofChar? hp
      have hfeed : p.char ≠ '\n' := by cases p <;> decide
      rw [List.filterMap_cons_some hp, if_neg hfeed]
      refine LexesWith.punctuator p (fun hpdash => ?_) hrest
      rw [hpdash] at hdash
      exact absurd rfl hdash

theorem closes_symbols (h : AreSymbols text) : Closes text (symbols text) :=
  fun _ _ _ _ hrest => lexes_symbols h hrest

/-- A dash must not be taken for the sign of a number. -/
theorem spells_dash (h : Spells text ts) (hhead : ∀ c ∈ text.toList.head?, c.isDigit = false) :
    Spells ("-" ++ text) (.punctuator .dash :: ts) := by
  intro k rest us notes hrest hus
  rw [String.toList_append, indentBy_append, List.append_assoc]
  refine LexesWith.punctuator .dash (fun _ c hc => ?_) (h k rest us hrest hus)
  cases hcs : indentBy k text.toList with
  | nil =>
    rw [hcs, List.nil_append] at hc
    exact hrest.not_isDigit c hc
  | cons d ds =>
    rw [hcs] at hc
    have hd := head?_indentBy k text.toList
    rw [hcs] at hd
    exact hhead c (hd ▸ hc)

end SchemaLang
