import Lisplet.Command
import Lisplet.Command.Arguments

/-!
The command line program.

It reads the files that the arguments name, lets the request be carried out, and does what the report asks for.
-/
namespace Lisplet

/-- Why a file could not be read. -/
def readFailure (error : IO.Error) : String :=
  match error with
  | .noFileOrDirectory .. => "No such file or directory (os error 2)"
  | error => error.toString

/-- The text of a file. -/
def readText (path : String) : IO (Except String String) := do
  try
    return .ok (← IO.FS.readFile path)
  catch error =>
    return .error (readFailure error)

/-- All that is left of the standard input. -/
partial def readRest (stream : IO.FS.Stream) (text : String) : IO String := do
  let line ← stream.getLine
  if line.isEmpty then return text else readRest stream (text ++ line)

/-- The source in a file; `-` is the standard input. -/
def readSource (path : String) : IO SourceText := do
  if path = "-" then
    return .text (← readRest (← IO.getStdin) "")
  else
    match ← readText path with
    | .ok text => return .text text
    | .error reason => return .unreadable path reason

/-- Does one thing that a report asks for. -/
def perform : Action → IO Unit
  | .printLine line => IO.println line
  | .pause milliseconds => do
    (← IO.getStdout).flush
    IO.sleep milliseconds.toUInt32

/-- Does what a report asks for, and gives the exit code. -/
def conclude (report : Report) : IO UInt32 := do
  for action in report.actions do
    perform action
  match report.failure with
  | some failure => do
    IO.eprintln ("Error: " ++ failure.message)
    return 1
  | none => return 0

/-- The text of the settings, if a file is named for it. -/
def readSettings : Option String → IO (Except Failure (Option String))
  | none => return .ok none
  | some path => do
    match ← readText path with
    | .ok text => return .ok (some text)
    | .error reason => return .error (.source path reason)

/-- Carries out a command line. -/
def execute (args : Arguments) : IO UInt32 := do
  match ← readSettings args.settingsPath with
  | .error failure => conclude ⟨[], some failure⟩
  | .ok settings =>
    let (command, source) ←
      match args.operation with
      | .eval source => pure (Command.evaluate, SourceText.text source)
      | .run path => pure (Command.evaluate, ← readSource path)
      | .parse path raw => pure (Command.parse raw, ← readSource path)
    conclude (Request.carryOut ⟨command, settings, args.lenient, source⟩)

end Lisplet

/-- The entry point. -/
def main (args : List String) : IO UInt32 :=
  match Lisplet.Arguments.read? args with
  | some args => Lisplet.execute args
  | none => do
    IO.eprintln "usage: lisplet [--config FILE] [--lenient] eval SOURCE | run FILE | parse [--raw] FILE"
    return 2
