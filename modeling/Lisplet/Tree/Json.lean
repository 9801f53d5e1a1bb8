import Lisplet.Tree

/-!
Trees as JSON.

A tree is written as an object with its kind, span and children, one member to a line and indented by two blanks for
each level.
-/
namespace Lisplet.Tree

/-- A line break, and the indentation of a level. -/
def newline (level : Nat) : String :=
  "\n" ++ String.ofList (List.replicate (2 * level) ' ')

mutual

/-- The JSON text of a tree that stands at an indentation level. -/
def toJsonAt (level : Nat) : Tree → String
  | node kind start stop children =>
    "\x7b" ++ newline (level + 1) ++ "\"type\": \"" ++ kind.name ++ "\"," ++
      newline (level + 1) ++ "\"start\": " ++ Nat.repr start ++ "," ++
      newline (level + 1) ++ "\"end\": " ++ Nat.repr stop ++ "," ++
      newline (level + 1) ++ "\"children\": " ++ childrenAt (level + 1) children ++ newline level ++ "\x7d"

/-- The JSON text of a list of trees. -/
def childrenAt (level : Nat) : List Tree → String
  | [] => "[]"
  | tree :: rest =>
    "[" ++ newline (level + 1) ++ toJsonAt (level + 1) tree ++ followingAt (level + 1) rest ++ newline level ++ "]"

/-- The JSON text of trees that follow another one. -/
def followingAt (level : Nat) : List Tree → String
  | [] => ""
  | tree :: rest => "," ++ newline level ++ toJsonAt level tree ++ followingAt level rest

end

/-- The JSON text of a tree. -/
def toJson (tree : Tree) : String :=
  tree.toJsonAt 0

end Lisplet.Tree
