import Lisplet.Text.Blank

/-!
Searching and cutting texts.

All positions count characters.
-/
namespace Lisplet.Search

/-- What follows `needle` in `text`, if `text` starts with it. -/
def dropLeading? : (needle text : List Char) → Option (List Char)
  | [], text => some text
  | _ :: _, [] => none
  | n :: needle, c :: text => if n = c then dropLeading? needle text else none

/-- Whether `text` starts with `needle`. -/
def startsWith (needle text : List Char) : Bool :=
  (dropLeading? needle text).isSome

/-- Whether `text` ends with `needle`. -/
def endsWith (needle text : List Char) : Bool :=
  startsWith needle.reverse text.reverse

/-- Whether `needle` occurs in `text`. -/
def includes (needle : List Char) : List Char → Bool
  | [] => needle.isEmpty
  | c :: text => startsWith needle (c :: text) || includes needle text

/-- Cuts `text` at the occurrences of a separator, leftmost first and without overlap. `skip` characters still belong to
    an occurrence; `part` is the part being read, last character first. -/
def splitFrom (separator : List Char) (part : List Char) : (skip : Nat) → List Char → List (List Char)
  | _, [] => [part.reverse]
  | skip + 1, _ :: text => splitFrom separator part skip text
  | 0, c :: text =>
    if startsWith separator (c :: text) then part.reverse :: splitFrom separator [] (separator.length - 1) text
    else splitFrom separator (c :: part) 0 text

/-- The parts of `text` between the occurrences of `separator`; the single characters if `separator` is empty. -/
def split (separator text : List Char) : List (List Char) :=
  if separator.isEmpty then text.map (fun c => [c]) else splitFrom separator [] 0 text

/-- The characters between positions `i` and `j`, whichever is smaller, as far as there are any. -/
def between (i j : Int) (text : List Char) : List Char :=
  let clamp (k : Int) : Nat := min k.toNat text.length
  (text.take (max (clamp i) (clamp j))).drop (min (clamp i) (clamp j))

/-- The text without the white space around it. -/
def trim (text : List Char) : List Char :=
  ((text.dropWhile isWhite).reverse.dropWhile isWhite).reverse

end Lisplet.Search
