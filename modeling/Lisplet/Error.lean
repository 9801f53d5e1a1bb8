import Lisplet.Value.Printer

/-!
Failures and where they happened.

A failure has a cause. It is attributed to at most one form, the first one that is named, and then gathers the source
texts of the forms it passes on its way out.
-/
namespace Lisplet

/-- The form a failure is attributed to, and the source texts it has passed since, innermost first. -/
structure Place where
  form : Code
  trail : List String

/-- A failure. -/
structure Error where
  cause : Cause
  place : Option Place := none

namespace Error

/-- A failure that is not attributed to any form. -/
def ofCause (cause : Cause) : Error :=
  ⟨cause, none⟩

/-- Attributes the failure to `form`, unless it is attributed already. -/
def attributeTo (form : Code) (error : Error) : Error :=
  match error.place with
  | some _ => error
  | none => ⟨error.cause, some ⟨form, []⟩⟩

/-- The failure on its way out of `form`: attributed, and with the source text of `form` added to its trail. -/
def through (form : Code) (error : Error) : Error :=
  let passed := form.text?.getD "???"
  match error.place with
  | some place => ⟨error.cause, some ⟨place.form, place.trail ++ [passed]⟩⟩
  | none => ⟨error.cause, some ⟨form, [passed]⟩⟩

/-- The source texts the failure has passed. -/
def trail (error : Error) : List String :=
  match error.place with
  | some place => place.trail
  | none => []

/-- The wording of a failure: its cause, and a line for each source text it has passed. -/
def message (error : Error) : String :=
  error.cause.message ++ joinTexts "" (error.trail.map fun text => ".\n    at: " ++ text)

end Error

end Lisplet
