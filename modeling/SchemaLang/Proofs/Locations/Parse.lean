import SchemaLang.Proofs.Simulation.Definition

/-!
# Parses with other locations

Whether locations are wanted, and what they hold, has no part in how a source is parsed. Changing
the locations that a parse gives changes those of its answer, and neither whether there is one nor
the fault if there is none.
-/

namespace SchemaLang

/-- The same setting with other locations. -/
def Setting.relocate (s : Setting) (f : Loc → Option Loc) : Setting :=
  { s with locate := fun start stop => (s.locate start stop).bind f }

/-- A parse keeps in step with itself when it gives other locations. -/
def Simulation.relocation (s : Setting) (f : Loc → Option Loc) : Simulation where
  source := s
  target := s.relocate f
  related := Eq
  starts := Eq
  faults := Eq
  relocate := f
  maxDepth := rfl
  token h := by rw [h]
  description h := by rw [h]
  remaining h := by rw [h]
  start h := by rw [h]
  located h hn := by rw [h, hn]; rfl
  fail h _ _ := by rw [h]
  withHint h _ := by rw [h]
  advance := by
    rintro c _ rfl
    unfold Parser.advance
    cases hrest : c.rest with
    | cons next rest => exact ⟨rfl, rfl⟩
    | nil =>
      cases hfault : s.fault with
      | none =>
        simp only [Setting.relocate, hfault]
        exact ⟨rfl, rfl⟩
      | some e =>
        simp only [Setting.relocate, hfault]
        exact rfl

/-- Outcomes that agree exactly are the same up to `g`. -/
theorem eq_map_of_agrees {α β : Type} {g : α → β} {r : Except SyntaxError (α × Cursor)}
    {r' : Except SyntaxError (β × Cursor)} (h : Agrees Eq Eq g r r') :
    r'.map Prod.fst = (r.map Prod.fst).map g := by
  cases r with
  | error e =>
    cases r' with
    | error e' =>
      obtain rfl : e = e' := h
      rfl
    | ok b => exact h.elim
  | ok a =>
    cases r' with
    | error e' => exact h.elim
    | ok b => exact congrArg Except.ok h.1

/-- Running a parser with other locations. -/
theorem Parser.run_relocate {α : Type} {p : Parser α} {g : (Loc → Option Loc) → α → α}
    (hp : ∀ m : Simulation, Simulates m (g m.relocate) p p) {f : Loc → Option Loc} {s s' : Source}
    {o o' : ParseOptions} (hs : s'.body = s.body) (hdepth : o'.maxDepth = o.maxDepth)
    (hl : ∀ start stop, o'.locate s' start stop = (o.locate s start stop).bind f) :
    p.run s' o' = (p.run s o).map (g f) := by
  obtain ⟨body, name⟩ := s
  obtain ⟨body', name'⟩ := s'
  obtain rfl : body' = body := hs
  have locate : o'.locate ⟨body', name'⟩ = fun start stop =>
      (o.locate ⟨body', name⟩ start stop).bind f :=
    funext fun start => funext fun stop => hl start stop
  have tokens : Source.tokens ⟨body', name'⟩ = Source.tokens ⟨body', name⟩ := rfl
  have length : Source.byteLength ⟨body', name'⟩ = Source.byteLength ⟨body', name⟩ := rfl
  simp only [run, tokens, length]
  cases Lexeme.gather [] (Source.tokens ⟨body', name⟩).readings with
  | nil => rfl
  | cons current rest =>
    rw [locate, hdepth]
    exact eq_map_of_agrees (hp (.relocation _ f) rfl)

variable {s s' : Source} {o o' : ParseOptions} {f : Loc → Option Loc}

theorem parseDocument_relocate (hs : s'.body = s.body) (hdepth : o'.maxDepth = o.maxDepth)
    (hl : ∀ start stop, o'.locate s' start stop = (o.locate s start stop).bind f) :
    parseDocument s' o' = (parseDocument s o).map (·.mapLoc f) :=
  Parser.run_relocate (fun _ => Parser.simulates_document) hs hdepth hl

theorem parseValue_relocate (hs : s'.body = s.body) (hdepth : o'.maxDepth = o.maxDepth)
    (hl : ∀ start stop, o'.locate s' start stop = (o.locate s start stop).bind f) :
    parseValue s' o' = (parseValue s o).map (·.mapLoc f) :=
  Parser.run_relocate (fun _ => Parser.simulates_wholeValue) hs hdepth hl

/-- A parse without locations answers what any other parse of the text does, with its
locations taken off. -/
theorem parseDocument_withoutLoc (hs : s'.body = s.body) (hdepth : o'.maxDepth = o.maxDepth)
    (ho : o'.noLocation = true) :
    parseDocument s' o' = (parseDocument s o).map (·.mapLoc fun _ => none) := by
  refine parseDocument_relocate hs hdepth fun start stop => ?_
  rw [ParseOptions.locate, if_pos ho]
  exact (Option.bind_fun_none _).symm

end SchemaLang
