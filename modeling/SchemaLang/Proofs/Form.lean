import SchemaLang.Parser.Basic

/-!
# Forms

A form is the concrete syntax of a part of a document: its tokens in order, which of them carry a
description that belongs to the part, and which stretches of them the nodes in it were parsed from.
`Form.Spans` relates a form to two cursors of a parse, the one in front of it and the one behind it;
`Form.tokens` writes it down. Descriptions in front of other tokens do not matter, and one list may
stand with or without its brackets.
-/

namespace SchemaLang

/-- The grammar is about tokens other than descriptions and the end. -/
def Token.isSignificant : Token → Bool
  | .description _ => false
  | .endOfInput => false
  | _ => true

/-- The tokens of a part of a document. -/
inductive Form where
  | token (t : Token) (significant : t.isSignificant = true)
  /-- A token with exactly this description in front. -/
  | described (description : Option String) (t : Token) (significant : t.isSignificant = true)
  | empty
  | seq (a b : Form)
  /-- The tokens of a node with this location. -/
  | located (loc : Option Loc) (a : Form)
  /-- Something that may also stand in brackets, without meaning anything else. -/
  | bracketable (a : Form)

namespace Form

/-- A punctuator. -/
def punctuator (p : Punctuator) : Form := token (.punctuator p) rfl

/-- A name as a word of the grammar. -/
def word (text : String) : Form := token (.name text) rfl

/-- The word that a description belongs to what follows from. -/
def heading (description : Option String) (text : String) : Form :=
  described description (.name text) rfl

/-- One form after the other. -/
def all : List Form → Form
  | [] => empty
  | a :: as => seq a (all as)

/-- Forms between two punctuators. -/
def block (before after : Punctuator) (as : List Form) : Form :=
  all [punctuator before, all as, punctuator after]

/-- Forms between two punctuators, or nothing without them. -/
def optionalBlock (before after : Punctuator) : List Form → Form
  | [] => empty
  | as => block before after as

/-- Forms with a punctuator between each two. -/
def separated (p : Punctuator) : List Form → Form
  | [] => empty
  | a :: as => seq a (all (as.map (seq (punctuator p))))

end Form

/-- The tokens of a description, one for each of its lines. -/
def descriptionTokens : Option String → List Token
  | none => []
  | some text => (text.toList.splitOn '\n').map fun line => .description (String.ofList line)

/-- All tokens, descriptions included, without brackets that need not be. -/
def Form.tokens : Form → List Token
  | token t _ => [t]
  | described d t _ => descriptionTokens d ++ [t]
  | empty => []
  | seq a b => a.tokens ++ b.tokens
  | located _ a => a.tokens
  | bracketable a => a.tokens

/-- The lexemes from a cursor on. -/
def Cursor.lexemes (c : Cursor) : List Lexeme := c.current :: c.rest

/-- The first cursor looks at one lexeme and the second at the next one. -/
def Cursor.Moves (c c' : Cursor) : Prop := c.rest = c'.lexemes ∧ c'.lastStop = c.current.span.stop

theorem Cursor.Moves.suffix {c c' : Cursor} (h : c.Moves c') : c'.lexemes <:+ c.lexemes := by
  rw [show c.lexemes = c.current :: c.rest from rfl, h.1]
  exact List.suffix_cons _ _

/-- Between the cursors stand the tokens of the form, and its nodes have the locations that
`locate` gives. -/
def Form.Spans (locate : Nat → Nat → Option Loc) : Form → Cursor → Cursor → Prop
  | token t _, c, c' => c.current.token = t ∧ c.Moves c'
  | described d t _, c, c' => c.current.description = d ∧ c.current.token = t ∧ c.Moves c'
  | empty, c, c' => c' = c
  | seq a b, c, c' => ∃ m, a.Spans locate c m ∧ b.Spans locate m c'
  | located loc a, c, c' => a.Spans locate c c' ∧ loc = locate c.current.span.start c'.lastStop
  | bracketable a, c, c' => a.Spans locate c c' ∨
      ∃ m m', (c.current.token = .punctuator .bracketOpen ∧ c.Moves m) ∧ a.Spans locate m m' ∧
        m'.current.token = .punctuator .bracketClose ∧ m'.Moves c'

/-- The form has a first token, which satisfies `Q`. -/
def Form.Starts (Q : Token → Prop) : Form → Prop
  | token t _ => Q t
  | described _ t _ => Q t
  | empty => False
  | seq a _ => a.Starts Q
  | located _ a => a.Starts Q
  | bracketable _ => False

/-- Every node in the form has a token to start with. -/
def Form.IsAnchored : Form → Prop
  | token .. => True
  | described .. => True
  | empty => True
  | seq a b => a.IsAnchored ∧ b.IsAnchored
  | located _ a => a.Starts (fun _ => True) ∧ a.IsAnchored
  | bracketable a => a.IsAnchored

namespace Form

variable {locate : Nat → Nat → Option Loc} {c c' m : Cursor}

@[simp] theorem spans_all_nil : (all []).Spans locate c c' ↔ c' = c := Iff.rfl

@[simp] theorem spans_all_cons {a : Form} {as : List Form} :
    (all (a :: as)).Spans locate c c' ↔ ∃ m, a.Spans locate c m ∧ (all as).Spans locate m c' :=
  Iff.rfl

@[simp] theorem tokens_punctuator (p : Punctuator) : (punctuator p).tokens = [.punctuator p] := rfl

@[simp] theorem tokens_word (text : String) : (word text).tokens = [.name text] := rfl

@[simp] theorem tokens_heading (d : Option String) (text : String) :
    (heading d text).tokens = descriptionTokens d ++ [.name text] := rfl

@[simp] theorem tokens_located (loc : Option Loc) (a : Form) :
    (located loc a).tokens = a.tokens := rfl

@[simp] theorem tokens_all_nil : (all []).tokens = [] := rfl

@[simp] theorem tokens_all_cons (a : Form) (as : List Form) :
    (all (a :: as)).tokens = a.tokens ++ (all as).tokens := rfl

theorem spans_all_append {as bs : List Form} :
    (all (as ++ bs)).Spans locate c c' ↔
      ∃ m, (all as).Spans locate c m ∧ (all bs).Spans locate m c' := by
  induction as generalizing c with
  | nil => simp
  | cons a as ih =>
    simp only [List.cons_append, spans_all_cons, ih]
    constructor
    · rintro ⟨m, ha, n, has, hbs⟩
      exact ⟨n, ⟨m, ha, has⟩, hbs⟩
    · rintro ⟨n, ⟨m, ha, has⟩, hbs⟩
      exact ⟨m, ha, n, has, hbs⟩

/-- What a form spans is taken off the front of the lexemes. -/
theorem suffix_of_spans {F : Form} (h : F.Spans locate c c') : c'.lexemes <:+ c.lexemes := by
  induction F generalizing c c' with
  | token t _ => exact h.2.suffix
  | described d t _ => exact h.2.2.suffix
  | empty => obtain rfl := h; exact List.suffix_rfl
  | seq a b iha ihb =>
    obtain ⟨m, ha, hb⟩ := h
    exact (ihb hb).trans (iha ha)
  | located loc a ih => exact ih h.1
  | bracketable a ih =>
    rcases h with h | ⟨m, m', ⟨-, hm⟩, ha, -, hm'⟩
    · exact ih h
    · exact hm'.suffix.trans ((ih ha).trans hm.suffix)

/-- What has a first token stands where that token is, and takes it. -/
theorem Starts.of_spans {Q : Token → Prop} {F : Form} (hF : F.Starts Q) (h : F.Spans locate c c') :
    Q c.current.token ∧ c'.rest.length < c.rest.length := by
  induction F generalizing c c' with
  | token t _ =>
    obtain ⟨rfl, hm⟩ := h
    exact ⟨hF, by rw [hm.1]; exact Nat.lt_succ_self _⟩
  | described d t _ =>
    obtain ⟨-, rfl, hm⟩ := h
    exact ⟨hF, by rw [hm.1]; exact Nat.lt_succ_self _⟩
  | empty => exact hF.elim
  | seq a b iha _ =>
    obtain ⟨m, ha, hb⟩ := h
    obtain ⟨hq, hlt⟩ := iha hF ha
    have hle := (suffix_of_spans hb).length_le
    simp only [Cursor.lexemes, List.length_cons] at hle
    exact ⟨hq, by omega⟩
  | located loc a ih => exact ih hF h.1
  | bracketable a _ => exact hF.elim

theorem Starts.imp {Q R : Token → Prop} {F : Form} (hF : F.Starts Q) (h : ∀ t, Q t → R t) :
    F.Starts R := by
  induction F with
  | token t _ => exact h t hF
  | described d t _ => exact h t hF
  | empty => exact hF
  | seq a b iha _ => exact iha hF
  | located loc a ih => exact ih hF
  | bracketable a _ => exact hF

theorem Starts.tokens_ne_nil {Q : Token → Prop} {F : Form} (hF : F.Starts Q) : F.tokens ≠ [] := by
  induction F with
  | token t _ => exact List.cons_ne_nil _ _
  | described d t _ => exact List.append_ne_nil_of_right_ne_nil _ (List.cons_ne_nil _ _)
  | empty => exact hF.elim
  | seq a b iha _ => exact List.append_ne_nil_of_left_ne_nil (iha hF) _
  | located loc a ih => exact ih hF
  | bracketable a _ => exact hF.elim

/-- Forms that have a first token take at least as many tokens as there are forms. -/
theorem length_of_spans_all {Q : Token → Prop} {as : List Form} (has : ∀ a ∈ as, a.Starts Q)
    (h : (all as).Spans locate c c') : as.length + c'.rest.length ≤ c.rest.length := by
  induction as generalizing c with
  | nil => obtain rfl := h; simp
  | cons a as ih =>
    obtain ⟨m, ha, h⟩ := h
    have hlt := ((has a List.mem_cons_self).of_spans ha).2
    have hle := ih (fun b hb => has b (List.mem_cons_of_mem a hb)) h
    simp only [List.length_cons]
    omega

end Form

end SchemaLang
