/-!
# Outcomes

What a run of a command comes to: whether it succeeded, and what it prints to either stream. Nothing
printed ends with a line break of its own.
-/

namespace SchemaLang

/-- What a run comes to. -/
structure Outcome where
  success : Bool
  stdout : Option String
  stderr : Option String
deriving DecidableEq, Repr

namespace Outcome

/-- A run that did all it was asked to. -/
def succeed (stdout : String) : Outcome := ⟨true, some stdout, none⟩

/-- A run that did nothing. -/
def fail (stderr : String) : Outcome := ⟨false, none, some stderr⟩

/-- A run that did part of what it was asked to. -/
def failPartly (stdout stderr : String) : Outcome :=
  ⟨false, if stdout = "" then none else some stdout, some stderr⟩

/-- What stands before good news. -/
def goodMark : String := "✅"

/-- What stands before bad news. -/
def badMark : String := "❌"

/-- A number of things, as in `1 file` and `2 files`. -/
def count (n : Nat) (noun : String) : String :=
  if n = 1 then s!"{n} {noun}" else s!"{n} {noun}s"

/-- A run that found nothing at some of its paths. -/
def unscannable (missing : List String) : Outcome :=
  fail (badMark ++ " Failed to scan the input paths:" ++
    String.join (missing.map fun p => s!"\n  {p}"))

end Outcome

end SchemaLang
