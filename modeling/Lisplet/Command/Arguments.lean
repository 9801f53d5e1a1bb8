/-!
Arguments of the command line.

Options may stand before and after the name of the command. After `--` everything is an operand, so that a source may
start with a dash.
-/
namespace Lisplet

/-- What a command works on. -/
inductive Operation where
  /-- Evaluate a source given on the command line. -/
  | eval (source : String)
  /-- Evaluate the source in a file. -/
  | run (path : String)
  /-- Print the source in a file, or its tree. -/
  | parse (path : String) (raw : Bool)
  deriving DecidableEq, Repr

/-- A command line that was understood. -/
structure Arguments where
  settingsPath : Option String
  lenient : Bool
  operation : Operation
  deriving DecidableEq, Repr

namespace Arguments

/-- What has been read of a command line so far; operands are kept last first. -/
structure Progress where
  settingsPath : Option String := none
  lenient : Bool := false
  raw : Bool := false
  operands : List String := []

/-- Reads the arguments one after the other. -/
def readAll (progress : Progress) : List String → Option Progress
  | [] => some progress
  | ["--config"] | ["-c"] => none
  | "--config" :: path :: rest | "-c" :: path :: rest => readAll { progress with settingsPath := some path } rest
  | "--lenient" :: rest => readAll { progress with lenient := true } rest
  | "--raw" :: rest => readAll { progress with raw := true } rest
  | "--" :: rest => some { progress with operands := rest.reverse ++ progress.operands }
  | operand :: rest =>
    if operand.toList.head? = some '-' ∧ operand ≠ "-" then none
    else readAll { progress with operands := operand :: progress.operands } rest

/-- The operation that the operands name. -/
def operation? (raw : Bool) : List String → Option Operation
  | ["eval", source] => if raw then none else some (.eval source)
  | ["run", path] => if raw then none else some (.run path)
  | ["parse", path] => some (.parse path raw)
  | _ => none

/-- Reads a command line. -/
def read? (args : List String) : Option Arguments := do
  let progress ← readAll {} args
  let operation ← operation? progress.raw progress.operands.reverse
  return ⟨progress.settingsPath, progress.lenient, operation⟩

end Arguments

end Lisplet
