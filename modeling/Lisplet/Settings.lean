import Lisplet.Cause
import Lisplet.Json

/-!
Settings of an interpreter.

Settings are written as a JSON object. A field that is left out has its default, unknown fields are ignored, and a
known field must not be given twice. An array that lists the fields in order is accepted too.
-/
namespace Lisplet

/-- How an interpreter treats its sources. -/
structure Settings where
  /-- Whether a malformed source is refused before any of it is evaluated. -/
  strictSyntax : Bool := true
  deriving DecidableEq, Repr

namespace Settings

open Json

/-- Reads the value of a field after its name; `known` is what was read before for the known field. -/
def field? (name : String) (known : Option Bool) (tokens : List Token) : Option (Option Bool × List Token) :=
  if name = "strict_syntax" then
    match known, tokens with
    | none, .bool b :: rest => some (some b, rest)
    | _, _ => none
  else (skipValue? tokens).map fun rest => (known, rest)

/-- Reads `name: value` pairs up to the end of the text, at most `limit` of them. -/
def fields? : (limit : Nat) → (known : Option Bool) → List Token → Option (Option Bool)
  | 0, _, _ => none
  | limit + 1, known, tokens =>
    match tokens with
    | .string (some name) :: .colon :: rest =>
      match field? name known rest with
      | some (known, [.closeBrace]) => some known
      | some (known, .comma :: rest) => fields? limit known rest
      | _ => none
    | _ => none

/-- Settings from the tokens of a text. -/
def ofTokens? (tokens : List Token) : Option Settings :=
  match tokens with
  | [.openBrace, .closeBrace] | [.openBracket, .closeBracket] => some {}
  | [.openBracket, .bool b, .closeBracket] => some ⟨b⟩
  | .openBrace :: rest => (fields? rest.length none rest).map fun known => ⟨known.getD true⟩
  | _ => none

/-- Reads settings. -/
def ofJson (text : String) : Except Cause Settings :=
  match (tokens? text).bind ofTokens? with
  | some settings => .ok settings
  | none => .error (.settings "invalid settings")

/-- Writes settings. -/
def toJson (settings : Settings) : String :=
  "\x7b\n  \"strict_syntax\": " ++ (if settings.strictSyntax then "true" else "false") ++ "\n\x7d"

end Settings

end Lisplet
