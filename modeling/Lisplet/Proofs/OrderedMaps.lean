import Lisplet.Proofs.Course
import Lisplet.Proofs.Entries

/-! # Maps in the order of their keys

Where the entries of a map are gone through one after the other, it matters in which order they stand and that no key
comes twice. Every map is by increasing key: maps are only made by putting entries into maps, and what is evaluated
never makes another. So this holds of all values that come about if it holds of those that were there and of those
that the host gives. -/

namespace Lisplet

open EStateM (Result)

/-! ### Values and stores -/

/-- All maps in a value are by increasing key. -/
inductive Value.Ordered : Value → Prop
  | plain {v : Value} (h : v.isPlain = true) : Ordered v
  | vector {items : List Value} (h : ∀ item ∈ items, Ordered item) : Ordered (.vector items)
  | set {items : List Value} (h : ∀ item ∈ items, Ordered item) : Ordered (.set items)
  | map {entries : List (Key × Value)} (keys : Entries.Increasing entries) (h : ∀ entry ∈ entries, Ordered entry.2) :
    Ordered (.map entries)
  | var (var : Var) : Ordered (.var var)
  | object (o : HostObject) : Ordered (.object o)
  | method (identity : Nat) {m : Method Value} (h : ∀ item ∈ m.items, Ordered item) :
    Ordered (.function identity (.procedure (.method m)))
  | function (identity : Nat) {c : Callable Value} (h : ∀ m, c ≠ .procedure (.method m)) :
    Ordered (.function identity c)

namespace Value.Ordered

theorem increasing {entries : List (Key × Value)} (h : Value.Ordered (.map entries)) : Entries.Increasing entries := by
  cases h with
  | plain h => cases h
  | map keys _ => exact keys

theorem again {identity : Nat} {c : Callable Value} (h : Value.Ordered (.function identity c)) (other : Nat) :
    Value.Ordered (.function other c) := by
  cases h with
  | plain h => cases h
  | method _ h => exact .method other h
  | function _ h => exact .function other h

theorem hereditary : Value.Hereditary Value.Ordered where
  plain := .plain
  vector := by
    refine ⟨fun h => ?_, .vector⟩
    cases h with
    | plain h => cases h
    | vector h => exact h
  set := by
    refine ⟨fun h => ?_, .set⟩
    cases h with
    | plain h => cases h
    | set h => exact h
  map h := by
    cases h with
    | plain h => cases h
    | map _ h => exact h
  noEntries := .map .nil (by simp)
  insert {entries v} h hv key := by
    cases h with
    | plain h => cases h
    | map keys h =>
      refine .map (keys.insert key v) fun entry hentry => ?_
      rcases Entries.mem_insert hentry with rfl | hentry
      · exact hv
      · exact h entry hentry
  method {identity m} := by
    refine ⟨fun h => ?_, .method identity⟩
    cases h with
    | plain h => cases h
    | method _ h => exact h
    | function _ h => exact absurd rfl (h m)

end Value.Ordered

/-- Every var of the store holds such a value. -/
abbrev Store.Ordered (s : Store) : Prop := s.Holds Value.Ordered

/-- Everything that the host gives is such a value, if what it was given is. -/
abbrev Host.Ordered (host : Host) : Prop := host.Gives Value.Ordered

theorem Command.ordered_host : Command.host.Ordered := Command.gives_host Value.Ordered.hereditary

/-! ### Evaluation -/

namespace Eval

/-- To keep maps by increasing key. -/
def ordering : Discipline where
  store := Store.Ordered
  failure _ s := s.Ordered
  value := Value.Ordered
  form _ := True
  name _ := True
  fails hs _ := hs
  passes hs _ := hs

variable {host : Host} {s t : Store}

theorem lawful_ordering (hhost : host.Ordered) : ordering.Lawful host where
  values := Value.Ordered.hereditary
  function h := h.again _
  get _ hs hv := hs.get Value.Ordered.hereditary hv
  target _ hs hv := hs.get Value.Ordered.hereditary hv
  lookup _ _ _ := .var _
  held hs _ := hs.held Value.Ordered.hereditary _
  identity hs := hs.of_eq rfl
  number hs := hs.newNumber Value.Ordered.hereditary
  newChild hs _ := hs.of_eq rfl
  define hs hv _ scope m := ⟨.var _, hs.define scope _ hv m⟩
  openCall hs hargs _ count := Store.openCall_of_define Value.Ordered.hereditary (hs.of_eq rfl) hargs
    (fun ht hv inner name => ht.define inner name hv .empty) count
  expand hs _ scope := ⟨trivial, hs.expand Value.Ordered.hereditary scope _⟩
  called hs _ _ _ := hs.of_eq rfl
  refused hs _ _ _ := hs.of_eq rfl
  binding _ _ := .var _
  part _ _ := trivial
  symbol _ _ := trivial
  implicitDo _ _ _ := trivial
  closure _ _ _ _ _ _ := .function _ (by simp)
  body _ := ⟨fun _ _ => trivial, fun _ _ => trivial, trivial⟩
  anonymous _ _ _ _ _ _ _ := .function _ (by simp)
  forms _ := ⟨trivial, trivial, fun _ _ => trivial⟩
  call hs hargs hv := hhost.call hs hargs hv
  invoke hs _ hv := hhost.invoke hs hv
  fields := hhost.fields

theorem ordered_of_run (hhost : host.Ordered) (hs : s.Ordered) {levels : Nat} {form : Code} {scope : Scope} {v : Value}
    (h : run host levels (.evaluate form scope) s = .ok v t) : v.Ordered ∧ t.Ordered := by
  have htask : ordering.Allows (.evaluate form scope) := trivial
  have hmeets := (lawful_ordering hhost).serves levels htask hs
  rw [h] at hmeets
  cases hmeets with
  | ok hv ht => exact ⟨hv, ht⟩

end Eval

/-- What a fresh root scope is made of is ordered, if what the host adds to it is. -/
theorem Store.newBase_ordered {s : Store} (hs : s.Ordered) {extra : Library} (h : ∀ entry ∈ extra, entry.2.Ordered) :
    (s.newBase extra).2.Ordered :=
  (Store.Holds.founding Value.Ordered.hereditary (fun identity _ => .function identity (by simp))
    fun identity _ => .function identity (by simp)).newBase hs h

end Lisplet
