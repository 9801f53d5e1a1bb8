import Lisplet.Text.Casing.Table
import Lisplet.Text.Ranges

/-!
Upper and lower case.

Characters are converted by the full mappings of Unicode, so a text may change its length. A capital sigma at the end
of a word becomes a final sigma.
-/
namespace Lisplet.Casing

/-- The image of code point `n` under the first run that maps it. -/
def shifted? (runs : List Run) (n : Nat) : Option Nat :=
  (runs.find? fun run => run.first ≤ n && n ≤ run.last && (n - run.first) % run.step == 0).map
    fun run => ((n : Int) + run.shift).toNat

/-- The image of a character under a table of runs and one of longer images. -/
def convert (runs : List Run) (specials : List (Nat × List Nat)) (c : Char) : List Char :=
  match specials.lookup c.toNat with
  | some image => image.map Char.ofNat
  | none =>
    match shifted? runs c.toNat with
    | some n => [Char.ofNat n]
    | none => [c]

/-- The upper-case form of a character. -/
def upperChar (c : Char) : List Char :=
  convert upperRuns upperSpecials c

/-- The lower-case form of a character, wherever it stands. -/
def lowerChar (c : Char) : List Char :=
  convert lowerRuns lowerSpecials c

/-- Whether the first character that counts is a cased one. -/
def meetsCased (cs : List Char) : Bool :=
  (cs.dropWhile (inRanges ignorableRanges)).head?.any (inRanges casedRanges)

/-- The lower-case form of `cs`, which stands after the characters `before`, nearest first. -/
def lowerFrom (before : List Char) : List Char → List Char
  | [] => []
  | c :: cs =>
    (if c = 'Σ' then [if meetsCased before && !meetsCased cs then 'ς' else 'σ'] else lowerChar c) ++
      lowerFrom (c :: before) cs

/-- The upper-case form of a text. -/
def upper (text : String) : String :=
  String.ofList (text.toList.flatMap upperChar)

/-- The lower-case form of a text. -/
def lower (text : String) : String :=
  String.ofList (lowerFrom [] text.toList)

end Lisplet.Casing
