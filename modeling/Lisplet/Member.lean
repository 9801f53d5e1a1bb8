import Lisplet.Text.Casing
import Lisplet.Text.Search
import Lisplet.Value.Equality
import Lisplet.Value.Printer

/-!
Members of values.

Data comes first: the entries of a map and the fields of a host object, under the name itself and then under the
keyword of that name. After it come the properties and the methods of the value's type.
-/
namespace Lisplet

/-- What is found under a name: a value, or a function that is made by finding it. -/
inductive Member where
  | value (v : Value)
  | procedure (p : Procedure Value)

/-- The fields of the host's objects. -/
abbrev Fields := HostObject → String → Option Member

namespace Value

/-- The data that `target` holds under `name`. -/
def dataMember? (fields : Fields) (target : Value) (name : String) : Option Member :=
  match target with
  | map entries => (Entries.get? entries (.string name)).map .value
  | object o => fields o name
  | _ => none

/-- The data that `target` holds under the keyword `name`. -/
def keywordMember? (fields : Fields) (target : Value) (name : String) : Option Member :=
  match target with
  | map entries => (Entries.get? entries (.keyword (keywordName name))).map .value
  | object o => fields o (":" ++ keywordName name)
  | _ => none

/-- The length of a string or a vector, and the size of a set or a map. -/
def property? (target : Value) (name : String) : Option Member :=
  match target with
  | string text => if name = "length" then some (.value (ofLength text.length)) else none
  | vector items => if name = "length" then some (.value (ofLength items.length)) else none
  | set items => if name = "size" then some (.value (ofLength items.length)) else none
  | map entries => if name = "size" then some (.value (ofLength entries.length)) else none
  | _ => none

/-- The methods of `target`. -/
def methods (target : Value) : List (Method Value) :=
  .toString target.display ::
    match target with
    | string text =>
      [StringMethod.toUpperCase, .toLowerCase, .trim, .includes, .startsWith, .endsWith, .split, .substring].map
        fun method => .ofString method text
    | vector items => [VectorMethod.includes, .indexOf, .join].map fun method => .ofVector method items
    | set items => [.hasItem items]
    | map entries => [.hasKey entries]
    | _ => []

/-- The method `name` of `target`. -/
def method? (target : Value) (name : String) : Option Member :=
  (target.methods.find? (·.name == name)).map fun method => .procedure (.method method)

/-- The member `name` of `target`. -/
def member? (fields : Fields) (target : Value) (name : String) : Option Member :=
  target.dataMember? fields name <|> target.keywordMember? fields name <|> target.property? name <|>
    target.method? name

/-- What `target` holds under `key`: an entry of a map, an item of a vector, or a field of a host object. -/
def entry? (fields : Fields) (target key : Value) : Option Member :=
  match target, key with
  | map entries, key =>
    match key.asKey with
    | .ok key => (Entries.get? entries key).map .value
    | .error _ => none
  | vector items, int n => if 0 ≤ n.toInt then items[n.toInt.toNat]?.map .value else none
  | object o, string name => fields o name
  | object o, keyword name => fields o (":" ++ name)
  | _, _ => none

end Value

/-- The first argument, or `nil`. -/
def firstArgument (args : List Value) : Value :=
  args.head?.getD .nil

namespace StringMethod

/-- The first argument, which must be a string. -/
def stringArgument (method : StringMethod) (args : List Value) : Except Cause String :=
  match args with
  | .string text :: _ => .ok text
  | _ => .error (.badArguments method.name "argument 1 must be a string")

/-- The characters between two positions; the second is the end of the text if it is left out. -/
def cut (text : String) (args : List Value) : Except Cause Value := do
  let start ← (firstArgument args).asInt
  let stop ←
    match args[1]? with
    | none | some .nil => pure (text.length : Int)
    | some v => v.asInt.map Int64.toInt
  return .string (String.ofList (Search.between start.toInt stop text.toList))

/-- Calls a method of a string. -/
def run (method : StringMethod) (text : String) (args : List Value) : Except Cause Value :=
  match method with
  | toUpperCase => .ok (.string (Casing.upper text))
  | toLowerCase => .ok (.string (Casing.lower text))
  | trim => .ok (.string (String.ofList (Search.trim text.toList)))
  | includes => (method.stringArgument args).map fun part => .bool (Search.includes part.toList text.toList)
  | startsWith => (method.stringArgument args).map fun part => .bool (Search.startsWith part.toList text.toList)
  | endsWith => (method.stringArgument args).map fun part => .bool (Search.endsWith part.toList text.toList)
  | split =>
    (method.stringArgument args).map fun separator =>
      .vector ((Search.split separator.toList text.toList).map fun part => .string (String.ofList part))
  | substring => cut text args

end StringMethod

namespace VectorMethod

/-- What is written between the items: the first argument, or a comma. -/
def separator (args : List Value) : String :=
  match args with
  | [] => ","
  | v :: _ => v.display

/-- Calls a method of a vector. -/
def run (method : VectorMethod) (items args : List Value) : Value :=
  match method with
  | includes => .bool (Value.contains items (firstArgument args))
  | indexOf =>
    match Value.position? items (firstArgument args) with
    | some i => .ofLength i
    | none => .int (-1)
  | join => .string (joinTexts (separator args) (items.map Value.display))

end VectorMethod

/-- Whether entries have one under a value. -/
def hasKey (entries : List (Key × Value)) (v : Value) : Bool :=
  match v.asKey with
  | .ok key => Entries.contains entries key
  | .error _ => false

/-- Calls a method. -/
def Method.run (method : Method Value) (args : List Value) : Except Cause Value :=
  match method with
  | toString text => .ok (.string text)
  | ofString method text => method.run text args
  | ofVector method items => .ok (method.run items args)
  | hasItem items => .ok (.bool (Value.contains items (firstArgument args)))
  | .hasKey entries => .ok (.bool (Lisplet.hasKey entries (firstArgument args)))

end Lisplet
