import Lisplet.Token

/-!
Trees of spans.

A tree keeps where every form, comment and malformed stretch of the source lies. It is built from the tokens in one
pass: `Reading` holds the constructs that are still open, innermost first. Reading never fails. A construct that is
not completed becomes a `syntaxError` tree around what it held, a bracket that closes nothing inside a collection is
a `syntaxError` leaf, and at the top level such a bracket ends the reading: what follows it is not consumed.
-/
namespace Lisplet

/-- A kind, the half-open span it covers, and the parts within the span in source order. -/
inductive Tree where
  | node (kind : TreeKind) (start stop : Nat) (children : List Tree)
  deriving Repr, Inhabited

namespace Tree

/-- What the tree is. -/
def kind : Tree → TreeKind
  | node kind _ _ _ => kind

/-- Where its span begins. -/
def start : Tree → Nat
  | node _ start _ _ => start

/-- Where its span ends: the position behind its last character. -/
def stop : Tree → Nat
  | node _ _ stop _ => stop

/-- Its parts. -/
def children : Tree → List Tree
  | node _ _ _ children => children

/-- A tree without parts. -/
def leaf (kind : TreeKind) (start stop : Nat) : Tree :=
  node kind start stop []

end Tree

/-- What an open construct waits for. -/
inductive Need where
  /-- Any number of forms, then this bracket. -/
  | closer (bracket : Bracket)
  /-- One operand and `more` after it. -/
  | operands (more : Nat)
  deriving DecidableEq, Repr

/-- An open construct: the kind it has when it is completed, where it starts, and its parts so far, newest first. -/
structure Pending where
  kind : TreeKind
  start : Nat
  need : Need
  children : List Tree
  deriving Repr

namespace Pending

/-- The construct with one more part. -/
def add (p : Pending) (tree : Tree) : Pending :=
  { p with children := tree :: p.children }

/-- The construct as a finished tree that ends at `stop`. -/
def complete (p : Pending) (stop : Nat) : Tree :=
  .node p.kind p.start stop p.children.reverse

/-- The construct given up at `stop`. -/
def abandon (p : Pending) (stop : Nat) : Tree :=
  .node .syntaxError p.start stop p.children.reverse

end Pending

/-- A reading in progress: the trees read at the top level, newest first, and the open constructs, innermost first. -/
structure Reading where
  forms : List Tree
  pending : List Pending
  deriving Repr

namespace Reading

/-- Adds a tree to the innermost open construct, whatever that waits for. -/
def attach (tree : Tree) : Reading → Reading
  | ⟨forms, []⟩ => ⟨tree :: forms, []⟩
  | ⟨forms, p :: ps⟩ => ⟨forms, p.add tree :: ps⟩

/-- Hands a finished form to the open constructs `ps`. A construct that waited for this operand only is finished by it,
    and handed on in turn. -/
def deliver (tree : Tree) (forms : List Tree) : List Pending → Reading
  | [] => ⟨tree :: forms, []⟩
  | p :: ps =>
    match p.need with
    | .closer _ => ⟨forms, p.add tree :: ps⟩
    | .operands 0 => deliver ((p.add tree).complete tree.stop) forms ps
    | .operands (more + 1) => ⟨forms, { p.add tree with need := .operands more } :: ps⟩

/-- No operand follows at `pos`: constructs that wait for one are given up, down to the innermost collection. `held` is
    the form that was given up last. -/
def giveUp (pos : Nat) (forms : List Tree) : (held : Option Tree) → List Pending → Reading
  | none, [] => ⟨forms, []⟩
  | some tree, [] => ⟨tree :: forms, []⟩
  | none, p :: ps =>
    match p.need with
    | .closer _ => ⟨forms, p :: ps⟩
    | .operands _ => giveUp pos forms (some (p.abandon pos)) ps
  | some tree, p :: ps =>
    match p.need with
    | .closer _ => ⟨forms, p.add tree :: ps⟩
    | .operands 0 => giveUp pos forms (some ((p.add tree).complete tree.stop)) ps
    | .operands (_ + 1) => giveUp pos forms (some ((p.add tree).abandon pos)) ps

/-- The text ends at `pos`: all open constructs are given up. `held` is the form that was given up last. -/
def finish (pos : Nat) (forms : List Tree) : (held : Option Tree) → List Pending → List Tree
  | none, [] => forms
  | some tree, [] => tree :: forms
  | none, p :: ps => finish pos forms (some (p.abandon pos)) ps
  | some tree, p :: ps =>
    match p.need with
    | .operands 0 => finish pos forms (some ((p.add tree).complete tree.stop)) ps
    | _ => finish pos forms (some ((p.add tree).abandon pos)) ps

/-- Reads a closing bracket at `[start, stop)`. There is no next reading if no collection is open. -/
def close (bracket : Bracket) (start stop : Nat) (r : Reading) : Except (List Tree) Reading :=
  match giveUp start r.forms none r.pending with
  | ⟨forms, []⟩ => .error forms
  | ⟨forms, p :: ps⟩ =>
    if p.need = .closer bracket then .ok (deliver (p.complete stop) forms ps)
    else .ok ⟨forms, p.add (.leaf .syntaxError start stop) :: ps⟩

/-- Reads one token. The reading ends with the top-level trees if the token closes nothing. -/
def step (r : Reading) (token : Token) : Except (List Tree) Reading :=
  match token.lexeme with
  | .blank => .ok r
  | .comment => .ok (r.attach (.leaf .comment token.start token.stop))
  | .opening kind closer => .ok { r with pending := ⟨kind, token.start, .closer closer, []⟩ :: r.pending }
  | .mark kind more => .ok { r with pending := ⟨kind, token.start, .operands more, []⟩ :: r.pending }
  | .leaf kind => .ok (deliver (.leaf kind token.start token.stop) r.forms r.pending)
  | .closing bracket => r.close bracket token.start token.stop

end Reading

/-- What reading a source gives: the tree of the part that was consumed. -/
structure Scan where
  root : Tree
  consumed : Nat
  deriving Repr

namespace Scan

/-- The scan of `consumed` characters with the given top-level trees, newest first. -/
def ofForms (forms : List Tree) (consumed : Nat) : Scan :=
  ⟨.node .document 0 consumed forms.reverse, consumed⟩

/-- Goes on reading at `r`, to the end of the text at `length`. -/
def resume (length : Nat) : Reading → List Token → Scan
  | r, [] => ofForms (Reading.finish length r.forms none r.pending) length
  | r, token :: rest =>
    match r.step token with
    | .ok next => resume length next rest
    | .error forms => ofForms forms token.start

/-- Reads a source text. -/
def ofSource (source : List Char) : Scan :=
  resume source.length ⟨[], []⟩ (Token.all source)

end Scan

end Lisplet
