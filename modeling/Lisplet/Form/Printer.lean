import Lisplet.Form.Basic

/-!
Printing forms.

Brackets and reader marks are written around the parts, which are separated by one blank; a form without parts is
written as its source text. Malformed text is shown inside a marker.
-/
namespace Lisplet

/-- The texts separated by `separator`. -/
def joinTexts (separator : String) : List String → String
  | [] => ""
  | [text] => text
  | text :: rest => text ++ separator ++ joinTexts separator rest

namespace FormKind

/-- What is written before and after the parts of a form of this kind; `none` if it is written as its source text. -/
def frame? : FormKind → Option (String × String)
  | list => some ("(", ")")
  | vector => some ("[", "]")
  | map => some ("\x7b", "\x7d")
  | set => some ("#\x7b", "\x7d")
  | lambda => some ("#(", ")")
  | quote => some ("'", "")
  | backtick => some ("\x60", "")
  | unquote => some ("~", "")
  | unquoteSplicing => some ("~@", "")
  | deref => some ("@", "")
  | varQuote => some ("#'", "")
  | tag => some ("^", "")
  | document => some ("", "")
  | symbol | paramName | keyword | number | negNumber | hexLiteral | string | syntaxError | var => none

end FormKind

/-- The text of a var. -/
def Var.print (var : Var) : String :=
  "#'" ++ var.name.toString

namespace Form

variable {α : Type}

/-- The text of a form that is written without its parts. -/
def printAlone (kind : FormKind) (binding : Option Var) (text : String) : String :=
  match kind with
  | .var =>
    match binding with
    | some var => var.print
    | none => "#'?"
  | .syntaxError => "#_(?? " ++ kind.name ++ " " ++ text ++ " ???)"
  | _ => text

mutual

/-- The text of a form. -/
def print : Form α → String
  | ⟨_, kind, children, binding, metadata⟩ =>
    match kind.frame? with
    | some (before, after) => before ++ joinTexts " " (printAll children) ++ after
    | none => printAlone kind binding (metadata.text.getD "")

/-- The texts of forms. -/
def printAll : List (Form α) → List String
  | [] => []
  | form :: rest => form.print :: printAll rest

end

/-- The text of a form with its kind, for diagnosis. -/
def debug (form : Form α) : String :=
  "Node(" ++ form.kind.name ++ " " ++ form.print ++ ")"

end Form

end Lisplet
