import SchemaLang.Proofs.Form
import SchemaLang.Proofs.Printing.Spelling

/-!
# What layouts spell

Every layout spells the tokens of its parts, in order, with the punctuators and the words that it
puts between them. Whether arguments stand on one line or on lines of their own makes no difference,
and neither does a part that is left out.
-/

namespace SchemaLang

namespace Form

theorem tokens_all (as : List Form) : (all as).tokens = (as.map tokens).flatten := by
  induction as with
  | nil => rfl
  | cons a as ih =>
    change a.tokens ++ (all as).tokens = _
    rw [ih, List.map_cons, List.flatten_cons]

theorem tokens_block (before after : Punctuator) (as : List Form) :
    (block before after as).tokens = .punctuator before ::
    ((as.map tokens).flatten ++ [.punctuator after]) := by
  change .punctuator before :: ((all as).tokens ++ ([.punctuator after] ++ [])) = _
  rw [tokens_all, List.append_nil]

theorem tokens_separated (p : Punctuator) (as : List Form) :
    (separated p as).tokens = [.punctuator p].intercalate (as.map tokens) := by
  cases as with
  | nil => rfl
  | cons a as =>
    change a.tokens ++ (all (as.map (seq (punctuator p)))).tokens = _
    induction as generalizing a with
    | nil => simp [tokens_all]
    | cons b bs ih =>
      have hb := ih b
      rw [List.map_cons] at hb
      rw [List.map_cons, List.map_cons, List.map_cons, List.intercalate_cons_cons, ← hb,
        List.append_assoc]
      rfl

end Form

variable {a b text start stop separator : String} {ts us : List Token} {texts : List String}
  {tss : List (List Token)}

/-- The texts spell the tokens, one by one. -/
abbrev SpellAll (texts : List String) (tss : List (List Token)) : Prop :=
  List.Forall₂ Spells texts tss

theorem spellAll_map {α : Type} {xs : List α} {f : α → String} {g : α → List Token}
    (h : ∀ x ∈ xs, Spells (f x) (g x)) : SpellAll (xs.map f) (xs.map g) := by
  induction xs with
  | nil => exact .nil
  | cons x xs ih =>
    obtain ⟨hx, hxs⟩ := List.forall_mem_cons.1 h
    exact .cons hx (ih hxs)

theorem Spells.ne_empty (h : Spells text ts) (hts : ts ≠ []) : text ≠ "" := by
  rintro rfl
  exact hts h.eq_nil

theorem spells_after (start : String) (hstart : AreSymbols start) (h : Spells text ts) :
    Spells (start ++ text) (symbols start ++ ts) :=
  (closes_symbols hstart).append h

theorem spells_before (stop : String) (hstop : AreSymbols stop ∧ Breaks stop.toList)
    (h : Spells text ts) : Spells (text ++ stop) (ts ++ symbols stop) :=
  h.append (closes_symbols hstop.1).spells hstop.2

/-- A text between symbols, or nothing if there is no text. -/
theorem spells_wrap (start stop : String) (hstart : AreSymbols start)
    (hstop : AreSymbols stop ∧ Breaks stop.toList) (h : Spells text ts) :
    Spells (Layout.wrap start text stop) (if text =
      "" then [] else symbols start ++ ts ++ symbols stop) := by
  rw [Layout.wrap]
  split
  · exact spells_empty
  · exact spells_before _ hstop (spells_after _ hstart h)

/-- What separates parts: at least one character, at which names and numbers end. -/
structure IsSeparation (separator : String) : Prop where
  symbols : AreSymbols separator
  breaks : Breaks separator.toList
  ne_empty : separator ≠ ""

private theorem IsSeparation.breaks_append (h : IsSeparation separator) (text : String) :
    Breaks (separator ++ text).toList := by
  have hne : separator.toList ≠ [] := by simpa using h.ne_empty
  obtain ⟨c, cs, hcs⟩ := List.exists_cons_of_ne_nil hne
  have hbreaks := h.breaks
  rw [hcs] at hbreaks
  rw [String.toList_append, hcs]
  exact hbreaks

/-- Two parts with a separation between them. -/
theorem spells_between (hs : IsSeparation separator) (ha : Spells a ts) (hb : Spells b us) :
    Spells (a ++ separator ++ b) (ts ++ (symbols separator ++ us)) := by
  rw [String.append_assoc]
  exact ha.append (spells_after _ hs.symbols hb) (hs.breaks_append b)

private theorem spells_intercalate (hs : IsSeparation separator) (h : SpellAll texts tss) :
    Spells (separator.intercalate texts) ((symbols separator).intercalate tss) := by
  induction h with
  | nil => exact spells_empty
  | @cons text ts texts tss htext htexts ih =>
    cases htexts with
    | nil => simpa using htext
    | cons hu hus =>
      rw [String.intercalate_cons_cons, List.intercalate_cons_cons, String.append_assoc,
        List.append_assoc]
      exact htext.append (spells_after _ hs.symbols ih) (hs.breaks_append _)

private theorem intercalate_nil_left (tss : List (List Token)) :
    [].intercalate tss = tss.flatten := by
  induction tss with
  | nil => rfl
  | cons ts tss ih =>
    cases tss with
    | nil => simp
    | cons us uss =>
      rw [List.intercalate_cons_cons, ih, List.append_nil, List.flatten_cons (l := ts)]

theorem spells_join (hs : IsSeparation separator) (hnone : symbols separator = [])
    (h : SpellAll texts tss) : Spells (Layout.join separator texts) tss.flatten := by
  obtain ⟨uss, hfilter, hflatten⟩ : ∃ uss, SpellAll (texts.filter (· ≠ "")) uss ∧
      uss.flatten = tss.flatten := by
    induction h with
    | nil => exact ⟨[], .nil, rfl⟩
    | @cons text ts texts tss htext _ ih =>
      obtain ⟨uss, hfilter, hflatten⟩ := ih
      by_cases hempty : text = ""
      · subst hempty
        rw [List.filter_cons_of_neg (by simp), htext.eq_nil]
        exact ⟨uss, hfilter, by simpa using hflatten⟩
      · rw [List.filter_cons_of_pos (by simpa using hempty)]
        exact ⟨ts :: uss, .cons htext hfilter,
          by rw [List.flatten_cons, List.flatten_cons, hflatten]⟩
  have hspells := spells_intercalate hs hfilter
  rw [hnone, intercalate_nil_left, hflatten] at hspells
  exact hspells

/-- Texts of which none is empty, with symbols between them. -/
theorem spells_join_of_ne_nil (hs : IsSeparation separator) (h : SpellAll texts tss)
    (hne : ∀ ts ∈ tss, ts ≠ []) :
    Spells (Layout.join separator texts) ((symbols separator).intercalate tss) := by
  have htexts : ∀ text ∈ texts, text ≠ "" := by
    induction h with
    | nil => simp
    | cons htext _ ih =>
      obtain ⟨hts, htss⟩ := List.forall_mem_cons.1 hne
      exact List.forall_mem_cons.2 ⟨htext.ne_empty hts, ih htss⟩
  rw [Layout.join, List.filter_eq_self.2 (by simpa using htexts)]
  exact spells_intercalate hs h

private theorem isSeparation_space : IsSeparation " " := ⟨by decide, by decide, by decide⟩
private theorem isSeparation_comma : IsSeparation ", " := ⟨by decide, by decide, by decide⟩
private theorem isSeparation_feed : IsSeparation "\n" := ⟨by decide, by decide, by decide⟩
theorem isSeparation_feeds : IsSeparation "\n\n" := ⟨by decide, by decide, by decide⟩
private theorem isSeparation_pipe : IsSeparation " | " := ⟨by decide, by decide, by decide⟩

private theorem isSeparation_at : IsSeparation " @" := ⟨by decide, by decide, by decide⟩
private theorem isSeparation_colon : IsSeparation ": " := ⟨by decide, by decide, by decide⟩

/-- Parts with spaces between them. -/
theorem spells_spaced (h : SpellAll texts tss) : Spells (Layout.join " " texts) tss.flatten :=
  spells_join isSeparation_space rfl h

/-- Parts with commas between them. -/
theorem spells_listed (h : SpellAll texts tss) : Spells (Layout.join ", " texts) tss.flatten :=
  spells_join isSeparation_comma rfl h

/-- Parts on lines of their own. -/
theorem spells_lines (h : SpellAll texts tss) : Spells (Layout.join "\n" texts) tss.flatten :=
  spells_join isSeparation_feed rfl h

/-- A text with white space in front, or nothing. -/
theorem spells_spaceBefore (h : Spells text ts) : Spells (Layout.wrap " " text "") ts := by
  rw [Layout.wrap]
  split
  · rename_i hempty
    rw [hempty] at h
    rw [h.eq_nil]
    exact spells_empty
  · rw [String.append_empty]
    exact spells_after _ (by decide) h

private theorem breaks_spaceBefore (text : String) : Breaks (Layout.wrap " " text "").toList := by
  rw [Layout.wrap]
  split
  · decide
  · rw [String.append_empty]
    exact isSeparation_space.breaks_append text

private theorem spells_block (h : SpellAll texts tss) : Spells (Layout.block texts)
    (.punctuator .braceOpen :: (tss.flatten ++ [.punctuator .braceClose])) := by
  rw [Layout.block]
  split
  · rename_i hempty
    obtain rfl := List.isEmpty_iff.1 hempty
    cases h
    exact (closes_symbols (by decide)).spells
  · exact spells_before _ (by decide) (spells_after _ (by decide) (spells_lines h)).indent

/-- The parts between parentheses, or nothing if there are none. -/
def parenthesized : List (List Token) → List Token
  | [] => []
  | tss => .punctuator .parenOpen :: (tss.flatten ++ [.punctuator .parenClose])

theorem Form.tokens_parentheses (as : List Form) :
    (optionalBlock .parenOpen .parenClose as).tokens = parenthesized (as.map tokens) := by
  cases as with
  | nil => rfl
  | cons a as => exact tokens_block .parenOpen .parenClose (a :: as)

private theorem spells_parenthesized (h : SpellAll texts tss) (hne : ∀ ts ∈ tss, ts ≠ []) :
    Spells (Layout.wrap "(" (Layout.join ", " texts) ")") (parenthesized tss) := by
  have hwrap := spells_wrap "(" ")" (by decide) (by decide) (spells_listed h)
  cases h with
  | nil => exact spells_empty
  | @cons text ts texts tss htext htexts =>
    have hjoin : Layout.join ", " (text :: texts) ≠ "" := by
      refine (spells_listed (.cons htext htexts)).ne_empty ?_
      rw [List.flatten_cons]
      exact List.append_ne_nil_of_left_ne_nil (hne ts List.mem_cons_self) _
    rw [if_neg hjoin] at hwrap
    exact hwrap

private theorem spells_argumentList (h : SpellAll texts tss) (hne : ∀ ts ∈ tss, ts ≠ []) :
    Spells (Layout.argumentList texts) (parenthesized tss) := by
  rw [Layout.argumentList]
  split
  · rename_i hany
    cases h with
    | nil => exact absurd hany (by simp)
    | cons htext htexts =>
      exact spells_before _ (by decide)
        (spells_after _ (by decide) (spells_lines (.cons htext htexts))).indent
  · exact spells_parenthesized h hne

private theorem breaks_argumentList (texts : List String) :
    Breaks (Layout.argumentList texts).toList := by
  rw [Layout.argumentList]
  split
  · rw [String.toList_append, Layout.indent, String.toList_ofList, String.toList_append]
    exact Breaks.cons (by decide)
  · rw [Layout.wrap]
    split
    · decide
    · rw [String.append_assoc, String.toList_append]
      exact Breaks.cons (by decide)

private theorem Breaks.append_toList (ha : Breaks a.toList) (hb : Breaks b.toList) :
    Breaks (a ++ b).toList := by
  rw [String.toList_append]
  exact ha.append hb

private theorem lexes_descriptionLines {notes : List (List Char)} {k : Nat}
    {lines : List (List Char)} {rest : List Char}
    (h : ∀ line ∈ lines, Text.IsUnbroken line ∧ '\n' ∉ line) (hrest : LexesWith notes rest us) :
    LexesWith notes (indentBy k (lines.flatMap Layout.descriptionLine) ++ rest)
      (lines.map (fun line => Token.description (String.ofList (Text.trim line))) ++ us) := by
  induction lines with
  | nil => exact hrest
  | cons line lines ih =>
    obtain ⟨⟨hline, hfeed⟩, hlines⟩ := List.forall_mem_cons.1 h
    have hspaces : ∀ c ∈ List.replicate (2 * k) ' ', Ignored.isSeparator c := by
      intro c hc
      rw [List.eq_of_mem_replicate hc]
      rfl
    have hreturn : ∀ c ∈ Text.fromReturn line, Ignored.isSeparator c := by
      intro c hc
      rcases hline c hc with rfl | rfl | rfl <;> decide
    have hmoved : indentBy k (Layout.descriptionLine line) =
        Layout.descriptionLine line ++ List.replicate (2 * k) ' ' := by
      have hone : '\n' ∉ ['#', '#'] ++ (if line.isEmpty then [] else ' ' :: line) := by
        split
        · decide
        · simpa using hfeed
      rw [Layout.descriptionLine, indentBy_append, indentBy_of_not_mem hone, List.append_assoc]
      simp [indentBy]
    rw [List.flatMap_cons, indentBy_append, hmoved, List.append_assoc,
      List.append_assoc, List.map_cons, ← hline.trim_beforeReturn]
    exact LexesWith.description hfeed hreturn ((ih hlines).separators hspaces)

/-- A description whose lines are read to their ends is read with its lines trimmed. -/
theorem spells_described {d : Option String} (hd : ∀ value ∈ d, Text.HasUnbrokenLines value)
    (h : Spells text ts) :
    Spells (Layout.described d text) (descriptionTokens (d.map Text.trimLines) ++ ts) := by
  cases d with
  | none => exact h
  | some value =>
    have hlines : ∀ line ∈ value.toList.splitOn '\n', Text.IsUnbroken line ∧ '\n' ∉ line :=
      fun line hline => ⟨hd value rfl line hline, Text.not_mem_of_mem_splitOn hline⟩
    have htokens : descriptionTokens (some (Text.trimLines value)) = (value.toList.splitOn '\n').map
        fun line => Token.description (String.ofList (Text.trim line)) := by
      rw [descriptionTokens, Text.splitOn_trimLines, List.map_map]
      rfl
    intro k rest us notes hrest hus
    rw [Option.map_some, htokens, Layout.described, String.toList_append, String.toList_ofList,
      indentBy_append, List.append_assoc, List.append_assoc]
    exact lexes_descriptionLines hlines (h k rest us hrest hus)

variable {name type label : String} {ns ls : List Token}
  {arguments directives entries : List String}
  {ass dss ess : List (List Token)}

theorem spells_member (ha : Spells a ts) (hb : Spells b us) :
    Spells (Layout.member a b) [ts, [.punctuator .colon], us].flatten := by
  have h := spells_between isSeparation_colon ha hb
  rw [← List.append_nil us] at h
  exact h

theorem spells_directive (hn : Spells name ns) (ha : SpellAll arguments ass)
    (hne : ∀ ts ∈ ass, ts ≠ []) :
    Spells (Layout.directive name arguments) [[.punctuator .atSign], ns,
      parenthesized ass].flatten := by
  have hbreaks : Breaks (Layout.wrap "(" (Layout.join ", " arguments) ")").toList := by
    rw [Layout.wrap]
    split
    · decide
    · rw [String.append_assoc, String.toList_append]
      exact Breaks.cons (by decide)
  rw [Layout.directive, String.append_assoc]
  have h := spells_after "@" (by decide) (hn.append (spells_parenthesized ha hne) hbreaks)
  rw [← List.append_nil (parenthesized ass)] at h
  exact h

/-- The tokens in front of the label of an arrow and behind it. -/
def arrowTokens : Direction → Cardinality → List Token × List Token
  | .outgoing, .singular => ([.punctuator .dash], [.punctuator .dash, .punctuator .greater])
  | .outgoing, .plural => ([.punctuator .equals], [.punctuator .equals, .punctuator .greater])
  | .incoming, .singular => ([.punctuator .less, .punctuator .dash], [.punctuator .dash])
  | .incoming, .plural => ([.punctuator .less, .punctuator .equals], [.punctuator .equals])

private theorem spells_arrowStart (direction : Direction) (cardinality : Cardinality)
    (h : Spells text ts) (hhead : ∀ c ∈ text.toList.head?, c.isDigit = false) :
    Spells ((Layout.arrow direction cardinality).1 ++ text)
      ((arrowTokens direction cardinality).1 ++ ts) := by
  match direction, cardinality with
  | .outgoing, .singular => exact spells_dash h hhead
  | .outgoing, .plural => exact spells_after "=" (by decide) h
  | .incoming, .singular =>
    have hless := spells_after "<" (by decide) (spells_dash h hhead)
    rw [← String.append_assoc] at hless
    exact hless
  | .incoming, .plural => exact spells_after "<=" (by decide) h

private theorem spells_arrowEnd (direction : Direction) (cardinality : Cardinality)
    (h : Spells text ts) (hhead : ∀ c ∈ text.toList.head?, c.isDigit = false) :
    Spells ((Layout.arrow direction cardinality).2 ++ text)
      ((arrowTokens direction cardinality).2 ++ ts) := by
  match direction, cardinality with
  | .outgoing, .singular =>
    have hgreater := spells_after ">" (by decide) h
    have hdash := spells_dash hgreater (by
      intro c hc
      obtain rfl : '>' = c := by simpa using hc
      rfl)
    rw [← String.append_assoc] at hdash
    exact hdash
  | .outgoing, .plural => exact spells_after "=>" (by decide) h
  | .incoming, .singular => exact spells_dash h hhead
  | .incoming, .plural => exact spells_after "=" (by decide) h

/-- Both ends of an arrow are characters at which a label ends. -/
theorem head_of_arrowEnd (direction : Direction) (cardinality : Cardinality) (text : String) :
    ∃ c cs, ((Layout.arrow direction cardinality).2 ++ text).toList = c :: cs ∧
    (c = '-' ∨ c = '=') := by
  rw [String.toList_append]
  match direction, cardinality with
  | .outgoing, .singular => exact ⟨'-', _, rfl, .inl rfl⟩
  | .outgoing, .plural => exact ⟨'=', _, rfl, .inr rfl⟩
  | .incoming, .singular => exact ⟨'-', _, rfl, .inl rfl⟩
  | .incoming, .plural => exact ⟨'=', _, rfl, .inr rfl⟩

/-- An arrow around a label that starts with no digit, so that no dash becomes the
sign of a number. -/
theorem spells_hop (direction : Direction) (cardinality : Cardinality) (hl : Spells label ls)
    (hlabel : ∀ c ∈ label.toList.head?, c.isDigit = false) (ht : Spells type ts) :
    Spells (Layout.hop direction cardinality label type)
      [(arrowTokens direction cardinality).1, ls, (arrowTokens direction cardinality).2,
       ts].flatten := by
  have htype : Spells (" " ++ type) ts := spells_after _ (by decide) ht
  have hend := spells_arrowEnd direction cardinality htype (by
    intro c hc
    obtain rfl : ' ' = c := by simpa using hc
    rfl)
  obtain ⟨c, cs, hcs, hc⟩ := head_of_arrowEnd direction cardinality (" " ++ type)
  have hbreaks : Breaks ((Layout.arrow direction cardinality).2 ++ (" " ++ type)).toList := by
    rw [hcs]
    rcases hc with rfl | rfl
    · exact Breaks.cons (by decide)
    · exact Breaks.cons (by decide)
  have hstart := spells_arrowStart direction cardinality (hl.append hend hbreaks) (by
    intro d hd
    rw [String.toList_append, List.head?_append] at hd
    cases hhead : label.toList.head? with
    | some e =>
      rw [hhead] at hd
      exact hlabel d (hhead ▸ hd)
    | none =>
      rw [hhead, Option.none_or] at hd
      exact hbreaks.not_isDigit d hd)
  have htext : Layout.hop direction cardinality label type =
      (Layout.arrow direction cardinality).1 ++
      (label ++ ((Layout.arrow direction cardinality).2 ++ (" " ++ type))) := by
    simp only [Layout.hop, String.append_assoc]
  rw [htext]
  rw [← List.append_nil ts] at hstart
  exact hstart

/-- A name, its arguments and what stands behind them. -/
theorem spells_applied (hn : Spells name ns) (ha : SpellAll arguments ass)
    (hne : ∀ ts ∈ ass, ts ≠ []) (hrest : Spells text ts) (hbreaks : Breaks text.toList) :
    Spells (name ++ Layout.argumentList arguments ++ text) (ns ++ (parenthesized ass ++ ts)) := by
  rw [String.append_assoc]
  exact hn.append ((spells_argumentList ha hne).append hrest hbreaks)
    ((breaks_argumentList arguments).append_toList hbreaks)

/-- A type with directives behind it. -/
theorem spells_directed (ht : Spells type ts) (hd : SpellAll directives dss) :
    Spells (": " ++ (type ++ Layout.wrap " " (Layout.join " " directives) ""))
      ([.punctuator .colon] ++ (ts ++ dss.flatten)) :=
  spells_after _ (by decide)
    (ht.append (spells_spaceBefore (spells_spaced hd)) (breaks_spaceBefore _))

theorem spells_field (hn : Spells name ns) (ha : SpellAll arguments ass) (hne : ∀ ts ∈ ass, ts ≠ [])
    (ht : Spells type ts) (hd : SpellAll directives dss) :
    Spells (Layout.field name arguments type directives)
      [ns, parenthesized ass, [.punctuator .colon], ts, dss.flatten].flatten := by
  have h := spells_applied hn ha hne (spells_directed ht hd) (isSeparation_colon.breaks_append _)
  rw [Layout.field, String.append_assoc, String.append_assoc]
  rw [← List.append_nil dss.flatten] at h
  exact h

/-- The value behind an equals sign, or nothing. -/
def defaulted : List Token → List Token
  | [] => []
  | ts => .punctuator .equals :: ts

theorem spells_inputValue (hn : Spells name ns) (ht : Spells type ts) (hv : Spells text us)
    (hnone : us = [] → text = "") (hd : SpellAll directives dss) :
    Spells (Layout.inputValue name type text directives)
      [[ns, [.punctuator .colon], ts].flatten, defaulted us, dss.flatten].flatten := by
  have hdefault : Spells (Layout.wrap "= " text "") (defaulted us) := by
    have hwrap := spells_wrap "= " "" (by decide) (by decide) hv
    cases us with
    | nil =>
      rw [if_pos (hnone rfl)] at hwrap
      exact hwrap
    | cons u us =>
      rw [if_neg (hv.ne_empty (List.cons_ne_nil u us))] at hwrap
      rw [← List.append_nil (defaulted _)]
      exact hwrap
  exact spells_spaced (.cons (spells_member hn ht) (.cons hdefault (.cons (spells_spaced hd) .nil)))

theorem spells_enumValue (hn : Spells name ns) (hd : SpellAll directives dss) :
    Spells (Layout.enumValue name directives) [ns, dss.flatten].flatten :=
  spells_spaced (.cons hn (.cons (spells_spaced hd) .nil))

/-- A text of one word. -/
theorem spells_keyword (word : String) (h : IsName word) (hb : Spells b us)
    (hbreaks : Breaks b.toList) : Spells (word ++ b) ([.name word] ++ us) :=
  (spells_name h).append hb hbreaks

theorem spells_extension (h : Spells text ts) :
    Spells (Layout.extension text) [[.name "extend"], ts].flatten := by
  have h := spells_keyword "extend" (by decide) (spells_after " " (by decide) h)
    (isSeparation_space.breaks_append _)
  rw [← String.append_assoc, ← List.append_nil ts] at h
  exact h

/-- Texts of which none is empty, with pipes between them. -/
theorem spells_piped (h : SpellAll texts tss) (hne : ∀ ts ∈ tss, ts ≠ []) :
    Spells (Layout.join " | " texts) ([.punctuator .pipe].intercalate tss) :=
  spells_join_of_ne_nil isSeparation_pipe h hne

theorem spells_directiveDefinition (hn : Spells name ns) (ha : SpellAll arguments ass)
    (hne : ∀ ts ∈ ass, ts ≠ []) (hl : SpellAll texts tss) (hlne : ∀ ts ∈ tss, ts ≠ []) :
    Spells (Layout.directiveDefinition name arguments texts)
      [[.name "directive"], [.punctuator .atSign], ns, parenthesized ass, [.name "on"],
       [.punctuator .pipe].intercalate tss].flatten := by
  have hon := spells_keyword "on" (by decide)
    (spells_after " " (by decide) (spells_piped hl hlne)) (isSeparation_space.breaks_append _)
  have happlied := spells_applied hn ha hne (spells_after " " (by decide) hon)
    (isSeparation_space.breaks_append _)
  have h := spells_keyword "directive" (by decide) (spells_after _ isSeparation_at.symbols happlied)
    (isSeparation_at.breaks_append _)
  have htext : Layout.directiveDefinition name arguments texts = "directive" ++ (" @" ++
      (name ++ Layout.argumentList arguments ++
      (" " ++ ("on" ++ (" " ++ Layout.join " | " texts))))) := by
    have hat : "directive @" = "directive" ++ " @" := by decide
    have hon : " on " = " " ++ ("on" ++ " ") := by decide
    change "directive @" ++ name ++ Layout.argumentList arguments ++ " on " ++
      Layout.join " | " texts = _
    simp only [hat, hon, String.append_assoc]
  rw [← htext, ← List.append_nil ([Token.punctuator .pipe].intercalate tss)] at h
  exact h

theorem spells_union (hn : Spells name ns) (hd : SpellAll directives dss) (ht : SpellAll texts tss)
    (hne : ∀ ts ∈ tss, ts ≠ []) : Spells (Layout.union name directives texts)
      [[.name "union"], ns, dss.flatten, [.punctuator .equals] ++
       [.punctuator .pipe].intercalate tss].flatten :=
  spells_spaced (.cons (spells_name (by decide)) (.cons hn (.cons (spells_spaced hd)
    (.cons (spells_after "= " (by decide) (spells_piped ht hne)) .nil))))

theorem spells_scalar (hn : Spells name ns) (hd : SpellAll directives dss) :
    Spells (Layout.scalar name directives) [[.name "scalar"], ns, dss.flatten].flatten :=
  spells_spaced (.cons (spells_name (by decide)) (.cons hn (.cons (spells_spaced hd) .nil)))

/-- The braces around entries. -/
def braced (tss : List (List Token)) : List Token :=
  .punctuator .braceOpen :: (tss.flatten ++ [.punctuator .braceClose])

theorem spells_entriesOf {word : String} (hword : IsName word) (hn : Spells name ns)
    (hd : SpellAll directives dss) (he : SpellAll entries ess) :
    Spells (Layout.entriesOf word name directives entries) [[.name word], ns, dss.flatten,
      braced ess].flatten :=
  spells_spaced
    (.cons (spells_name hword) (.cons hn (.cons (spells_spaced hd) (.cons (spells_block he) .nil))))

/-- The interfaces behind the word for them, or nothing. -/
def implemented : List (List Token) → List Token
  | [] => []
  | tss => .name "implements" :: tss.flatten

theorem spells_objectType (hn : Spells name ns) (ht : SpellAll texts tss)
    (hne : ∀ ts ∈ tss, ts ≠ []) (hd : SpellAll directives dss) (he : SpellAll entries ess) :
    Spells (Layout.objectType name texts directives entries)
      [[.name "type"], ns, implemented tss, dss.flatten, braced ess].flatten := by
  have himplements : Spells (Layout.wrap "implements " (Layout.join ", " texts) "")
      (implemented tss) := by
    cases ht with
    | nil => exact spells_empty
    | @cons text ts texts tss htext htexts =>
      have hlisted := spells_listed (.cons htext htexts)
      have hjoin : Layout.join ", " (text :: texts) ≠ "" := by
        refine hlisted.ne_empty ?_
        rw [List.flatten_cons]
        exact List.append_ne_nil_of_left_ne_nil (hne ts List.mem_cons_self) _
      have h := spells_keyword "implements" (by decide) (spells_after " " (by decide) hlisted)
        (isSeparation_space.breaks_append _)
      rw [Layout.wrap, if_neg hjoin, String.append_empty]
      rw [← String.append_assoc] at h
      exact h
  exact spells_spaced
    (.cons (spells_name (by decide))
      (.cons hn (.cons himplements (.cons (spells_spaced hd) (.cons (spells_block he) .nil)))))

/-- A mutation or a query up to its result, and then its result. -/
theorem spells_operation {word : String} (hword : IsName word) (hn : Spells name ns)
    (ha : SpellAll arguments ass) (hne : ∀ ts ∈ ass, ts ≠ []) (hrest : Spells text ts)
    (hbreaks : Breaks text.toList) :
    Spells (Layout.operationHead word name arguments ++ text) [[.name word], ns, parenthesized ass,
      ts].flatten := by
  have h :=
    spells_keyword _ hword (spells_after " " (by decide) (spells_applied hn ha hne hrest hbreaks))
    (isSeparation_space.breaks_append _)
  have htext : Layout.operationHead word name arguments ++ text =
      word ++ (" " ++ (name ++ Layout.argumentList arguments ++ text)) := by
    simp only [Layout.operationHead, String.append_assoc]
  rw [← htext, ← List.append_nil ts] at h
  exact h

theorem spells_operationOfType {word : String} (hword : IsName word) (hn : Spells name ns)
    (ha : SpellAll arguments ass) (hne : ∀ ts ∈ ass, ts ≠ []) (ht : Spells type ts)
    (hd : SpellAll directives dss) :
    Spells (Layout.operationOfType word name arguments directives type)
      [[.name word], ns, parenthesized ass,
       [.punctuator .colon] ++ (ts ++ dss.flatten)].flatten := by
  have h :=
    spells_operation hword hn ha hne (spells_directed ht hd) (isSeparation_colon.breaks_append _)
  rw [Layout.operationOfType, String.append_assoc, String.append_assoc]
  exact h

theorem spells_operationOfFields {word : String} (hword : IsName word) (hn : Spells name ns)
    (ha : SpellAll arguments ass) (hne : ∀ ts ∈ ass, ts ≠ []) (hd : SpellAll directives dss)
    (he : SpellAll entries ess) :
    Spells (Layout.operationOfFields word name arguments directives entries)
      [[.name word], ns, parenthesized ass, dss.flatten ++ braced ess].flatten := by
  have hfields := (spells_spaceBefore (spells_spaced hd)).append
    (spells_after " " (by decide) (spells_block he)) (isSeparation_space.breaks_append _)
  have h := spells_operation hword hn ha hne hfields
    ((breaks_spaceBefore _).append_toList (isSeparation_space.breaks_append _))
  rw [Layout.operationOfFields, String.append_assoc, String.append_assoc]
  exact h

theorem spells_targeted {word : String} (hword : IsName word) (ht : Spells text ts)
    (he : SpellAll entries ess) :
    Spells (Layout.targeted (word ++ " on") text entries) [[.name word], [.name "on"], ts,
      braced ess].flatten := by
  have hspace : Spells (" " ++ "on") [.name "on"] :=
    spells_after _ (by decide) (spells_name (by decide))
  have hon : Spells (word ++ " on") [.name word, .name "on"] :=
    spells_keyword _ hword hspace (by decide)
  have h : Spells (Layout.targeted (word ++ " on") text entries)
      [[.name word, .name "on"], ts, braced ess].flatten :=
    spells_spaced (.cons hon (.cons ht (.cons (spells_block he) .nil)))
  exact h

theorem spells_condition (hk : Spells a ns) (ha : SpellAll arguments ass)
    (hne : ∀ ts ∈ ass, ts ≠ []) (ho : Spells text ts) :
    Spells (Layout.condition a arguments text) [ns, [.punctuator .colon], parenthesized ass,
      ts].flatten := by
  have hbehind : Spells (Layout.wrap "" (Layout.argumentList arguments) " " ++ text)
      (parenthesized ass ++ ts) := by
    have hlist := spells_argumentList ha hne
    rw [Layout.wrap]
    split
    · rename_i hempty
      rw [hempty] at hlist
      rw [hlist.eq_nil]
      exact ho
    · rw [String.empty_append]
      exact spells_between isSeparation_space hlist ho
  have h := spells_between isSeparation_colon hk hbehind
  rw [← List.append_nil ts, String.append_assoc, ← String.append_assoc, ← String.append_assoc] at h
  exact h

/-- The objects of an order in brackets, unless there is just one. -/
def listedObjects : List (List Token) → List Token
  | [ts] => ts
  | tss => .punctuator .bracketOpen :: (tss.flatten ++ [.punctuator .bracketClose])

theorem spells_listOf (h : SpellAll texts tss) : Spells (Layout.listOf texts)
    (.punctuator .bracketOpen :: (tss.flatten ++ [.punctuator .bracketClose])) :=
  spells_before _ (by decide) (spells_after "[" (by decide) (spells_listed h))

theorem spells_objectOf (h : SpellAll texts tss) : Spells (Layout.objectOf texts) (braced tss) :=
  spells_before _ (by decide) (spells_after "\x7b" (by decide) (spells_listed h))

private theorem join_singleton (separator text : String) : Layout.join separator [text] = text := by
  by_cases hempty : text = ""
  · rw [Layout.join, List.filter_cons_of_neg (by simpa using hempty), List.filter_nil,
      String.intercalate_nil, hempty]
  · rw [Layout.join, List.filter_cons_of_pos (by simpa using hempty), List.filter_nil,
      String.intercalate_singleton]

theorem spells_ordering (hk : Spells a ns) (ho : SpellAll texts tss) (hne : texts ≠ []) :
    Spells (Layout.ordering a texts) [ns, [.punctuator .colon], listedObjects tss].flatten := by
  have hobjects : Spells (if texts.length > 1 then Layout.listOf texts else Layout.join "" texts)
      (listedObjects tss) := by
    have hlist := spells_listOf ho
    cases ho with
    | nil => exact absurd rfl hne
    | cons ht hts =>
      cases hts with
      | nil =>
        rw [if_neg (by simp), join_singleton]
        exact ht
      | cons hu hus =>
        rw [if_pos (by simp)]
        exact hlist
  have h := spells_between isSeparation_colon hk hobjects
  rw [← List.append_nil (listedObjects tss)] at h
  exact h

theorem spells_document (h : SpellAll texts tss) : Spells (Layout.document texts) tss.flatten := by
  have h := spells_before "\n" (by decide) (spells_join isSeparation_feeds rfl h)
  rw [← List.append_nil tss.flatten]
  exact h

end SchemaLang
