import Lisplet.Eval.Apply

/-!
Special forms.

A special form receives the calling form and decides itself what to evaluate, and when. Its arguments are the parts
of the calling form: all but the head of a list, and all parts of the form that stands for such a list.
-/
namespace Lisplet

/-- A list that evaluates `body` in sequence, made of `form` with the number `number`. It has the metadata of `form`. -/
def Form.implicitDo (form : Code) (number : Nat) (body : List Code) : Code :=
  ⟨.derived form.id number 0, .list, .symbol (.derived form.id number 1) "do" :: body, none, form.metadata⟩

namespace Eval

variable (host : Host) (go : Task → Eval Value)

/-- Stops because the arguments of a special form do not fit. -/
def badArguments (special : Special) (reason : String) : Eval Value :=
  fail (.badArguments special.name reason)

/-- Stops because of the kind of `form`. -/
def unexpected {α : Type} (expected : String) (form : Code) : Eval α :=
  failAt form (.unexpected expected form.kind.name)

/-- `(if condition then else)`. A branch that is left out is `nil`. -/
def evalIf (form : Code) (scope : Scope) : Eval Value :=
  match form.arguments with
  | [] => badArguments .conditional "missing condition"
  | condition :: branches => do
    let v ← go (.evaluate condition scope)
    match branches[if v.isTruthy then 0 else 1]? with
    | some branch => go (.evaluate branch scope)
    | none => pure .nil

/-- `(do a b ...)`: all values in order, of which the last is kept. -/
def evalDo (form : Code) (scope : Scope) : Eval Value := do
  let values ← evaluateAll go scope form.arguments
  return values.getLast?.getD .nil

/-- The tag, if there is one, and the symbol of a name that `def` binds. -/
def definedName (name : Code) : Eval (Option Code × Code) :=
  match name.kind with
  | .symbol => pure (none, name)
  | .tag =>
    match name.first?, name.second? with
    | some tag, some target => if target.kind = .symbol then pure (some tag, target) else unexpected "symbol" name
    | _, _ => unexpected "symbol" name
  | _ => unexpected "symbol" name

/-- What a docstring says. Only a string literal is one. -/
def docMetadata (doc : Option Code) (scope : Scope) : Eval (Metadata Value) :=
  match doc with
  | some doc =>
    if doc.kind = .string then do
      let text ← go (.evaluate doc scope)
      return Metadata.empty.insert ":doc" text
    else pure .empty
  | none => pure .empty

/-- What a tag says. -/
def tagMetadata (tag : Option Code) (scope : Scope) : Eval (Metadata Value) :=
  match tag with
  | some tag => do
    let v ← go (.evaluate tag scope)
    ofExceptAt tag v.asMetadata
  | none => pure .empty

/-- The value of a form, or `nil` if there is none. -/
def evaluateOrNil (form : Option Code) (scope : Scope) : Eval Value :=
  match form with
  | some form => go (.evaluate form scope)
  | none => pure .nil

/-- Binds a name, after docstring, tag and value have been evaluated in this order. -/
def evalDefine (name : Code) (doc value : Option Code) (scope : Scope) : Eval Value := do
  let (tag, symbol) ← definedName name
  let said ← docMetadata go doc scope
  let tagged ← tagMetadata go tag scope
  let v ← evaluateOrNil go value scope
  let var ← modifyGet fun s => s.define scope symbol.text v (said.merge tagged)
  return .var var

/-- `(def name doc? value?)`. -/
def evalDef (form : Code) (scope : Scope) : Eval Value :=
  match form.arguments with
  | [] => badArguments .define "missing name"
  | [name] => evalDefine go name none none scope
  | [name, value] => evalDefine go name none (some value) scope
  | [name, doc, value] => evalDefine go name (some doc) (some value) scope
  | _ => badArguments .define "expected (def name doc? value?)"

/-- `(. target member args...)`. A member written with a leading `-` is read, any other is called. -/
def evalMember (form : Code) (scope : Scope) : Eval Value :=
  match form.arguments with
  | target :: member :: args => do
    let name ← ofExceptAt member member.symbolName
    let receiver ← go (.evaluate target scope)
    match name.toList with
    | '-' :: property =>
      match receiver.member? host.fields (String.ofList property) with
      | some found => ofMember found
      | none => pure .nil
    | _ =>
      match receiver.member? host.fields name with
      | some found => do
        let method ← ofMember found
        let values ← evaluateAll go scope args
        applyToValues host go form method scope values
      | none => fail (.missingMember name receiver.typeName)
  | _ => badArguments .member "expected (. target member args...)"

/-- The names of a parameter vector. -/
def paramNames : List Code → Eval (List String)
  | [] => pure []
  | param :: rest => do
    let name ← ofExceptAt param param.symbolName
    let names ← paramNames rest
    return name :: names

/-- Makes a closure of a parameter vector and a body. -/
def evalClosure (form : Code) (name : Option String) (rest : List Code) (scope : Scope) : Eval Value :=
  match rest with
  | [] => badArguments .function "missing parameters vector"
  | params :: body =>
    if params.kind = .vector then do
      let names ← paramNames params.children
      match body with
      | [] => badArguments .function "missing body"
      | [single] => newFunction (.procedure (.closure name names single scope))
      | many => do
        let number ← newNumber
        newFunction (.procedure (.closure name names (form.implicitDo number many) scope))
    else unexpected "parameters vector" params

/-- `(fn name? [params...] body...)`. -/
def evalFn (form : Code) (scope : Scope) : Eval Value :=
  match form.arguments with
  | [] => evalClosure form none [] scope
  | first :: rest =>
    if first.kind = .symbol then evalClosure form (some first.text) rest scope
    else evalClosure form none (first :: rest) scope

/-- Binds the names of a bindings vector one after the other, each to a value found in the scope so far. -/
def bindAll (scope : Scope) : List Code → Eval Unit
  | name :: value :: rest => do
    let text ← ofExceptAt name name.symbolName
    let v ← go (.evaluate value scope)
    let _ ← define scope text v
    bindAll scope rest
  | _ => pure ()

/-- The value of a body: of its only form, or of its forms in sequence. -/
def evalBody (form : Code) (body : List Code) (scope : Scope) : Eval Value :=
  match body with
  | [] => pure .nil
  | [single] => go (.evaluate single scope)
  | many => do
    let number ← newNumber
    go (.evaluate (form.implicitDo number many) scope)

/-- `(let [name value ...] body...)`. -/
def evalLet (form : Code) (scope : Scope) : Eval Value :=
  match form.arguments with
  | [] => badArguments .letIn "missing bindings vector"
  | bindings :: body =>
    if bindings.kind = .vector then
      if bindings.children.length % 2 = 0 then do
        let inner ← newChild scope
        bindAll go inner bindings.children
        evalBody go form body inner
      else failAt bindings (.badArguments Special.letIn.name "bindings need an even number of forms")
    else unexpected "bindings vector" bindings

/-- `(core/apply f args)`. -/
def evalApply (form : Code) (scope : Scope) : Eval Value := do
  let values ← evaluateAll go scope form.arguments
  match values with
  | [f, args] => do
    let args ← ofExcept args.toSeq
    applyToValues host go form f scope args
  | _ => badArguments .apply "expected a function and an argument vector"

/-- The var of a symbol, for a special form that takes one. -/
def evalVar (special : Special) (form : Code) (scope : Scope) : Eval Value :=
  match form.arguments with
  | [] => badArguments special "missing name"
  | symbol :: _ => do
    let name ← ofExcept symbol.symbolName
    lookupVar scope name

/-- `(core/quote form)`. -/
def evalQuote (form : Code) : Eval Value :=
  match form.arguments with
  | [] => pure .nil
  | quoted :: _ => pure (.form quoted)

/-- A keyword form, or `(core/keyword name)`. -/
def evalKeyword (form : Code) (scope : Scope) : Eval Value :=
  if form.kind = .keyword then pure (.ofKeyword form.text)
  else do
    let values ← evaluateAll go scope form.arguments
    match values with
    | [.string name] => pure (.ofKeyword name)
    | [.keyword name] => pure (.keyword name)
    | _ => badArguments .keyword "expected a name string"

/-- Unquoting has no meaning here. -/
def evalUnquote (form : Code) : Eval Value :=
  fail (.runtime (form.text?.getD "unquote" ++ " is only valid inside a syntax quote"))

/-- The entries of alternating keys and values; the last of equal keys wins. -/
def mapEntries (entries : Entries Key Value) : List Value → Except Cause (Entries Key Value)
  | key :: value :: rest =>
    match key.asKey with
    | .ok key => mapEntries (entries.insert key value) rest
    | .error cause => .error cause
  | _ => .ok entries

/-- A map form, or `(internal/map key value ...)`. -/
def evalMap (form : Code) (scope : Scope) : Eval Value :=
  if form.arguments.length % 2 = 0 then do
    let values ← evaluateAll go scope form.arguments
    let entries ← ofExcept (mapEntries [] values)
    return .map entries
  else badArguments .map "a map literal needs an even number of forms"

/-- Carries out a special form. -/
def invoke (special : Special) (form : Code) (scope : Scope) : Eval Value :=
  match special with
  | .conditional => evalIf go form scope
  | .sequence => evalDo go form scope
  | .define => evalDef go form scope
  | .member => evalMember host go form scope
  | .function => evalFn form scope
  | .letIn => evalLet go form scope
  | .apply => evalApply host go form scope
  | .var => evalVar .var form scope
  | .quote => evalQuote form
  | .keyword => evalKeyword go form scope
  | .unquote | .unquoteSplicing => evalUnquote form
  | .map => evalMap go form scope
  | .macroVar => evalVar .macroVar form scope

end Eval

end Lisplet
