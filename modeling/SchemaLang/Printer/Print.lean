import SchemaLang.Ast.Decode
import SchemaLang.Printer.Assemble
import SchemaLang.Traversal.Walk

/-!
# Printing

A node is printed by one walk. Each node that is left takes the texts of its parts from the top of a
stack and puts its own there; a mark made on entering the node says where its parts begin.
-/

namespace SchemaLang

/-- The texts of nodes whose parent is still open, the latest last, and for each open node, the
innermost first, how many texts there were when it was entered. -/
structure Printing where
  stack : Array String
  marks : List Nat

namespace Printing

/-- Before anything is printed. -/
def start : Printing := ⟨#[], []⟩

/-- A node is entered. -/
def enter (p : Printing) : Printing := { p with marks := p.stack.size :: p.marks }

/-- The texts above the innermost mark. -/
def texts (p : Printing) : List String := (p.stack.extract (p.marks.headD 0)).toList

/-- A node is left, and laid out below a node of kind `parent`. -/
def leave (p : Printing) (parent : Option Kind) (n : Node) : Printing :=
  let text := (n.assemble parent p.texts).1
  ⟨(p.stack.shrink (p.marks.headD 0)).push text, p.marks.tail⟩

/-- What is printed in the end. -/
def result (p : Printing) : String := p.stack.back?.getD ""

/-- Prints whatever it is walked through. -/
def visitor : Visitor Printing where
  enter _ _ p := (.keep, p.enter)
  leave n context p := (.keep, p.leave context.parent n)

end Printing

/-- The canonical text of a node, printed in one walk. -/
def Node.print (n : Node) : String := (n.visit Printing.visitor .start).2.result

/-- Why a JSON value cannot be printed. -/
inductive PrintError where
  /-- It names no known kind. -/
  | notANode (found : Json)
  /-- It names a kind, but is no node of that kind. -/
  | unreadable (e : DecodeError)
deriving Repr

/-- The message for a person. -/
def PrintError.message : PrintError → String
  | .notANode found => (DecodeError.notANode found).message
  | .unreadable e => e.message

/-- Prints the node that a JSON value stands for. -/
def Json.print (j : Json) : Except PrintError String :=
  if j.kind?.isNone then .error (.notANode j)
  else match Node.ofJson j with
    | .ok n => .ok n.print
    | .error e => .error (.unreadable e)

end SchemaLang
