import Lisplet.Interpreter
import Lisplet.Tree.Json

/-!
The commands of the command line, without input and output.

A request holds the texts that were read for it. Carrying it out gives what is to be done outside, in order, and the
failure if there is one.
-/
namespace Lisplet

/-- What is to be done with a source. -/
inductive Command where
  /-- Evaluate it and print its value. -/
  | evaluate
  /-- Print it, or its tree. -/
  | parse (raw : Bool)
  deriving DecidableEq, Repr

/-- A source, or why there is none. -/
inductive SourceText where
  | text (text : String)
  | unreadable (path reason : String)
  deriving DecidableEq, Repr

/-- A command with what it needs: the text of the settings if there is one, and whether malformed sources are to be
    accepted whatever the settings say. -/
structure Request where
  command : Command
  settings : Option String
  lenient : Bool
  source : SourceText

/-- Something to be done outside. -/
inductive Action where
  | printLine (line : String)
  | pause (milliseconds : Nat)
  deriving DecidableEq, Repr

/-- Why a request was not carried out to its end. -/
inductive Failure where
  | settings (text : String)
  | source (path reason : String)
  | script (error : Error)
  | depth

/-- The wording of a failure. -/
def Failure.message : Failure → String
  | settings text => (Cause.settings text).message
  | source path reason => "reading " ++ path ++ "\n\nCaused by:\n    " ++ reason
  | script error => error.message
  | depth => "evaluation is too deep"

/-- What carrying out a request comes to. -/
structure Report where
  actions : List Action
  failure : Option Failure

namespace Command

/-- The functions that scripts of the command line can call. -/
def functions : List (Callable Value) :=
  [.procedure (.host ⟨"println", none, "println"⟩), .procedure (.host ⟨"sleep", some 1, "sleep"⟩)]

/-- The host of the command line: `println` accepts anything and `sleep` an integer. -/
def host : Host where
  call f args _ :=
    if f.entry = "sleep" then
      match (firstArgument args).asInt with
      | .ok _ => .ok .nil
      | .error cause => .error (.ofCause cause)
    else .ok .nil
  invoke := Host.bare.invoke
  fields := Host.bare.fields

/-- The line that `println` prints. -/
def printedLine (args : List Value) : String :=
  joinTexts " " (args.map Value.display)

/-- How long `sleep` pauses. -/
def pauseLength (args : List Value) : Nat :=
  match (firstArgument args).asInt with
  | .ok n => n.toInt.toNat
  | .error _ => 0

/-- What an event asks for outside. -/
def actionOf? : Event → Option Action
  | .called f args (.ok _) =>
    if f.entry = "println" then some (.printLine (printedLine args)) else some (.pause (pauseLength args))
  | _ => none

/-- What the events ask for, in the order they happened. -/
def actionsOf (events : List Event) : List Action :=
  events.reverse.filterMap actionOf?

/-- Evaluates a source and prints its value. -/
def evaluateSource (settings : Settings) (source : String) : Report :=
  let (library, s) := Library.registerAll .empty .empty functions
  let (interpreter, s) := Interpreter.create host settings library s
  match interpreter.evalSource source s with
  | .ok v s => ⟨actionsOf s.events ++ [.printLine v.print], none⟩
  | .error (.failed error) s => ⟨actionsOf s.events, some (.script error)⟩
  | .error .exhausted s => ⟨actionsOf s.events, some .depth⟩

/-- Prints a source, or its tree. -/
def parseSource (raw : Bool) (source : String) : Report :=
  let line :=
    if raw then (Scan.ofSource source.toList).root.toJson
    else (Document.read 0 source : Document Value).root.print
  ⟨[.printLine line], none⟩

end Command

namespace Request

/-- The settings that a request asks for. -/
def effectiveSettings (request : Request) : Except Failure Settings :=
  match request.settings with
  | none => .ok ⟨!request.lenient⟩
  | some text =>
    match Settings.ofJson text with
    | .ok settings => .ok ⟨settings.strictSyntax && !request.lenient⟩
    | .error (.settings reason) => .error (.settings reason)
    | .error cause => .error (.settings cause.message)

/-- Carries out a request. The settings are looked at before the source. -/
def carryOut (request : Request) : Report :=
  match request.effectiveSettings with
  | .error failure => ⟨[], some failure⟩
  | .ok settings =>
    match request.source with
    | .unreadable path reason => ⟨[], some (.source path reason)⟩
    | .text source =>
      match request.command with
      | .evaluate => Command.evaluateSource settings source
      | .parse raw => Command.parseSource raw source

end Request

end Lisplet
