import SchemaLang.Text.Blank

/-!
# Log levels

How much the program tells about what it does can be set in the environment. White space around the
setting and the case of its ASCII letters do not matter.
-/

namespace SchemaLang

/-- How much is told, most first. -/
inductive LogLevel where
  | trace
  | debug
  | info
deriving DecidableEq, Repr

namespace LogLevel

/-- The names of a level. The first one is its own. -/
def names : LogLevel → List String
  | .trace => ["trace"]
  | .debug => ["debug", "verbose"]
  | .info => ["info"]

/-- The level that a setting means. -/
def ofText? (setting : String) : Option LogLevel :=
  let name := String.ofList ((Text.trim setting.toList).map Char.toLower)
  [trace, debug, info].find? fun level => name ∈ level.names

end LogLevel

end SchemaLang
