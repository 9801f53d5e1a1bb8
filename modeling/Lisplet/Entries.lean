/-!
Entries in the order of their keys.

Maps, metadata, libraries and scopes are shown in the order of their keys, so they are kept that way: a list of pairs
with increasing keys. `insert` keeps the order and replaces the entry of an equal key.
-/
namespace Lisplet

/-- Pairs of a key and a value, by increasing key. -/
abbrev Entries (κ α : Type) := List (κ × α)

namespace Entries

variable {κ α : Type}

/-- The value under `key`. -/
def get? [BEq κ] (entries : Entries κ α) (key : κ) : Option α :=
  entries.lookup key

/-- Whether `key` has a value. -/
def contains [BEq κ] (entries : Entries κ α) (key : κ) : Bool :=
  (entries.get? key).isSome

/-- The entries with `value` under `key`. -/
def insert [Ord κ] (key : κ) (value : α) : Entries κ α → Entries κ α
  | [] => [(key, value)]
  | entry :: rest =>
    match compare key entry.1 with
    | .lt => (key, value) :: entry :: rest
    | .eq => (key, value) :: rest
    | .gt => entry :: insert key value rest

/-- The entries with those of `other` laid over them. -/
def overlay [Ord κ] (entries other : Entries κ α) : Entries κ α :=
  other.foldl (fun all entry => all.insert entry.1 entry.2) entries

/-- The keys, in order. -/
def keys (entries : Entries κ α) : List κ :=
  entries.map (·.1)

end Entries

end Lisplet
