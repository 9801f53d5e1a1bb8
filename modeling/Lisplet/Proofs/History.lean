import Lisplet.Proofs.Growth

/-! # What a name means, told from what was done

A store keeps for every scope its names in order and the scopes around it. This module tells the same story from
outside: a history lists what was done with scopes and vars since there was one empty scope, and says by itself which
scopes lie around a scope, in which scopes a name was ever defined, and with which var last. Looking names up in the
store agrees with the history, whatever was done in whatever order, because every deed keeps both in step (`Told`). -/

namespace Lisplet

/-! ### Entries in order -/

namespace Entries

variable {α : Type} {entries : Entries String α} {key : String}

theorem compare_eq_lt_iff {a b : String} : compare a b = .lt ↔ a < b := compareOfLessAndEq_eq_lt

theorem increasing_iff : entries.Increasing ↔ entries.keys.Pairwise (· < ·) := by
  simp only [Increasing, compare_eq_lt_iff]

theorem keys_insert_ordered (v : α) (h : entries.keys.Pairwise (· < ·)) :
    (entries.insert key v).keys.Pairwise (· < ·) :=
  increasing_iff.mp ((increasing_iff.mpr h).insert key v)

end Entries

namespace Store

/-! ### Elementary updates -/

variable {s : Store} {scope inner : Scope} {name : String} {var : Var}

theorem outer_bind : (s.bind scope name var).outer inner = s.outer inner := by
  unfold outer bind
  rw [Array.getElem?_modify]
  by_cases h : scope = inner
  · rw [if_pos h]
    cases s.frames[inner]? <;> rfl
  · rw [if_neg h]

theorem bindings_bind (h : scope < s.frames.size) :
    (s.bind scope name var).bindings inner =
      if inner = scope then Entries.insert name var (s.bindings inner) else s.bindings inner := by
  unfold bindings bind
  rw [Array.getElem?_modify]
  by_cases hinner : inner = scope
  · subst hinner
    rw [if_pos rfl, if_pos rfl, Array.getElem?_eq_getElem h]
    rfl
  · rw [if_neg (Ne.symm hinner), if_neg hinner]

/-- A scope that is not there binds nothing. -/
theorem bindings_bind_of_le (h : s.frames.size ≤ scope) : (s.bind scope name var).bindings inner = s.bindings inner := by
  have hnone : s.frames[scope]? = none := Array.getElem?_eq_none h
  have hframe : (s.bind scope name var).frames[inner]? = s.frames[inner]? := by
    rw [bind, Array.getElem?_modify]
    by_cases hinner : scope = inner
    · rw [if_pos hinner, ← hinner, hnone]
      rfl
    · rw [if_neg hinner]
  rw [bindings, bindings, hframe]

theorem lookup_bind (h : scope < s.frames.size) (other : String) :
    (s.bind scope name var).lookup inner other = (inner :: s.outer inner).findSome? fun frame =>
      if frame = scope ∧ other = name then some var else Entries.get? (s.bindings frame) other := by
  rw [lookup, outer_bind]
  congr 1
  funext frame
  rw [bindings_bind h]
  by_cases hframe : frame = scope
  · simp [hframe, Entries.get?_insert]
  · simp [hframe]

theorem outer_push (around : List Scope) :
    outer { s with frames := s.frames.push ⟨around, []⟩ } inner =
      if inner = s.frames.size then around else s.outer inner := by
  rw [outer, Array.getElem?_push]
  by_cases h : inner = s.frames.size
  · rw [if_pos h, if_pos h]
  · rw [if_neg h, if_neg h, outer]

theorem bindings_push (around : List Scope) :
    bindings { s with frames := s.frames.push ⟨around, []⟩ } inner = s.bindings inner := by
  rw [bindings, Array.getElem?_push, bindings]
  by_cases h : inner = s.frames.size
  · rw [if_pos h, Array.getElem?_eq_none (Nat.le_of_eq h.symm)]
  · rw [if_neg h]

end Store

/-! ### Histories -/

/-- What is done with scopes and vars. -/
inductive Deed where
  /-- The scope `inner` was made inside `outer`. -/
  | child (outer inner : Scope)
  /-- A var was made to hold `value`. -/
  | make (var : Var) (value : Value)
  /-- `name` was defined in `scope` to mean `var`. -/
  | bind (scope : Scope) (name : String) (var : Var)

/-- What was done, newest first. -/
abbrev History := List Deed

namespace History

/-- A scope and those around it, innermost first. -/
def chain : History → Scope → List Scope
  | [], scope => [scope]
  | .child outer inner :: earlier, scope =>
    if scope = inner then inner :: chain earlier outer else chain earlier scope
  | _ :: earlier, scope => chain earlier scope

/-- The name was ever defined in `scope` itself. -/
def Defined (history : History) (scope : Scope) (name : String) : Prop :=
  ∃ var, .bind scope name var ∈ history

/-- The latest definition of the name in `scope` itself was the one to mean `var`. -/
def Latest (history : History) (scope : Scope) (name : String) (var : Var) : Prop :=
  ∃ later earlier, history = later ++ .bind scope name var :: earlier ∧ ¬Defined later scope name

/-- On the way from `scope` out to `frame`, the name was never defined in a nearer scope. -/
def Unshadowed (history : History) (scope : Scope) (name : String) (frame : Scope) : Prop :=
  ∃ nearer farther, history.chain scope = nearer ++ frame :: farther ∧
    ∀ inner ∈ nearer, ¬history.Defined inner name

/-- The stores that a history leads to, from one scope that is empty. Whatever is done, is done with scopes and vars
    that are there: scopes are made inside others, and names are defined for new vars or for old ones. -/
inductive Leads : History → Store → Prop
  | start : Leads [] Store.empty.newRoot.2
  | child {history : History} {s : Store} (h : Leads history s) {scope : Scope} (hscope : scope < s.frames.size) :
      Leads (.child scope (s.newChild scope).1 :: history) (s.newChild scope).2
  | make {history : History} {s : Store} (h : Leads history s) (name : String) (value : Value)
      (metadata : Metadata Value) :
      Leads (.make (s.newVar name value metadata).1 value :: history) (s.newVar name value metadata).2
  | bind {history : History} {s : Store} (h : Leads history s) {scope : Scope} (hscope : scope < s.frames.size)
      (name : String) {var : Var} {value : Value} (hvar : .make var value ∈ history) :
      Leads (.bind scope name var :: history) (s.bind scope name var)
  | define {history : History} {s : Store} (h : Leads history s) {scope : Scope} (hscope : scope < s.frames.size)
      (name : String) (value : Value) :
      Leads (.bind scope name (s.define scope name value).1 :: .make (s.define scope name value).1 value :: history)
        (s.define scope name value).2

/-- From `s` to `t` the name has come to mean `var` in `scope`, and in those scopes inside it from which it was never
    defined nearer. No name means anything else than before anywhere else. -/
def Redefines (history : History) (scope : Scope) (name : String) (var : Var) (s t : Store) : Prop :=
  ∀ inside other,
    (other = name ∧ history.Unshadowed inside name scope → t.lookup inside other = some var) ∧
    (¬(other = name ∧ history.Unshadowed inside name scope) → t.lookup inside other = s.lookup inside other)

/-! ### Following a history -/

/-- The var that a deed defines a name to mean in `scope`. -/
def var? (scope : Scope) (name : String) : Deed → Option Var
  | .bind frame other var => if frame = scope ∧ other = name then some var else none
  | _ => none

/-- The var of the latest definition of a name in `scope` itself. -/
def latest (history : History) (scope : Scope) (name : String) : Option Var :=
  history.findSome? (var? scope name)

variable {history : History} {s : Store} {scope : Scope} {name : String} {var : Var} {value : Value}

theorem var?_eq_some_iff {deed : Deed} : var? scope name deed = some var ↔ deed = .bind scope name var := by
  cases deed with
  | bind frame other old => simp [var?, and_assoc]
  | _ => simp [var?]

theorem latest_bind (frame : Scope) (other : String) :
    latest (.bind frame other var :: history) scope name =
      if frame = scope ∧ other = name then some var else history.latest scope name := by
  rw [latest, List.findSome?_cons, var?]
  by_cases h : frame = scope ∧ other = name
  · rw [if_pos h, if_pos h]
  · rw [if_neg h, if_neg h, latest]

theorem latest_eq_none_iff : history.latest scope name = none ↔ ¬history.Defined scope name := by
  rw [latest, List.findSome?_eq_none_iff]
  constructor
  · rintro h ⟨var, hvar⟩
    cases (var?_eq_some_iff.mpr rfl).symm.trans (h _ hvar)
  · intro h deed hdeed
    refine Option.eq_none_iff_forall_ne_some.mpr fun var hvar => h ⟨var, ?_⟩
    rw [← var?_eq_some_iff.mp hvar]
    exact hdeed

theorem isSome_latest_iff : (history.latest scope name).isSome = true ↔ history.Defined scope name := by
  rw [Option.isSome_iff_ne_none, ne_eq, latest_eq_none_iff, Classical.not_not]

theorem latest_eq_some_iff : history.latest scope name = some var ↔ history.Latest scope name var := by
  unfold Latest
  simp only [← latest_eq_none_iff, latest, List.findSome?_eq_some_iff, List.findSome?_eq_none_iff, var?_eq_some_iff]
  refine ⟨fun ⟨later, _, earlier, hsplit, hdeed, hlater⟩ => ⟨later, earlier, hdeed ▸ hsplit, hlater⟩,
    fun ⟨later, earlier, hsplit, hlater⟩ => ⟨later, _, earlier, hsplit, rfl, hlater⟩⟩

/-- What a store keeps of the history that led to it. -/
structure Told (history : History) (s : Store) : Prop where
  chain : ∀ scope, scope :: s.outer scope = history.chain scope
  ordered : ∀ scope, (s.localNames scope).Pairwise (· < ·)
  latest : ∀ scope name, Entries.get? (s.bindings scope) name = history.latest scope name
  held : ∀ {var value}, .make var value ∈ history → var.index < s.cells.size ∧ s.held var = value
  made : ∀ {scope name var}, .bind scope name var ∈ history → ∃ value, .make var value ∈ history

namespace Told

theorem start : Told [] Store.empty.newRoot.2 where
  chain scope := by
    have houter : Store.empty.newRoot.2.outer scope = [] := (Store.outer_push []).trans (ite_self [])
    rw [houter, History.chain]
  ordered scope := by
    have hnames : Store.empty.newRoot.2.bindings scope = [] := Store.bindings_push []
    rw [Store.localNames, hnames]
    exact .nil
  latest scope name := congrArg (Entries.get? · name) (Store.bindings_push [])
  held hvar := nomatch hvar
  made hvar := nomatch hvar

theorem child (h : Told history s) (scope : Scope) :
    Told (.child scope (s.newChild scope).1 :: history) (s.newChild scope).2 where
  chain inner := by
    have houter : (s.newChild scope).2.outer inner =
        if inner = (s.newChild scope).1 then scope :: s.outer scope else s.outer inner := Store.outer_push _
    rw [houter, History.chain]
    by_cases hinner : inner = (s.newChild scope).1
    · rw [if_pos hinner, if_pos hinner, h.chain, hinner]
    · rw [if_neg hinner, if_neg hinner, h.chain]
  ordered inner := by
    have hnames : (s.newChild scope).2.bindings inner = s.bindings inner := Store.bindings_push _
    rw [Store.localNames, hnames]
    exact h.ordered inner
  latest inner name := (congrArg (Entries.get? · name) (Store.bindings_push _)).trans (h.latest inner name)
  held hvar := h.held (List.mem_of_ne_of_mem Deed.noConfusion hvar)
  made hvar := by
    obtain ⟨value, hvalue⟩ := h.made (List.mem_of_ne_of_mem Deed.noConfusion hvar)
    exact ⟨value, List.mem_cons_of_mem _ hvalue⟩

/-- A var that no name means yet is no part of the history. -/
theorem newVar (h : Told history s) (name : String) (value : Value) (metadata : Metadata Value) :
    Told history (s.newVar name value metadata).2 where
  chain := h.chain
  ordered := h.ordered
  latest := h.latest
  held hvar := by
    obtain ⟨hlt, hheld⟩ := h.held hvar
    refine ⟨?_, ((Store.Extends.newVar s name value metadata).held hlt).trans hheld⟩
    simp only [Store.newVar, Array.size_push]
    omega
  made := h.made

theorem make (h : Told history s) (name : String) (value : Value) (metadata : Metadata Value) :
    Told (.make (s.newVar name value metadata).1 value :: history) (s.newVar name value metadata).2 where
  chain := h.chain
  ordered := h.ordered
  latest := h.latest
  held hvar := by
    rcases List.mem_cons.mp hvar with heq | hvar
    · obtain ⟨rfl, rfl⟩ := Deed.make.inj heq
      simp [Store.newVar, Store.held]
    · exact (h.newVar name value metadata).held hvar
  made hvar := by
    obtain ⟨value, hvalue⟩ := h.made (List.mem_of_ne_of_mem Deed.noConfusion hvar)
    exact ⟨value, List.mem_cons_of_mem _ hvalue⟩

theorem bind (h : Told history s) (hscope : scope < s.frames.size) (hvar : .make var value ∈ history) (name : String) :
    Told (.bind scope name var :: history) (s.bind scope name var) where
  chain inner := by
    rw [Store.outer_bind]
    exact h.chain inner
  ordered inner := by
    rw [Store.localNames, Store.bindings_bind hscope]
    split
    · exact Entries.keys_insert_ordered var (h.ordered inner)
    · exact h.ordered inner
  latest inner other := by
    rw [Store.bindings_bind hscope, latest_bind]
    by_cases hinner : inner = scope
    · rw [if_pos hinner, Entries.get?_insert, h.latest]
      simp only [hinner, true_and, eq_comm]
    · rw [if_neg hinner, if_neg fun hboth => hinner hboth.1.symm, h.latest]
  held hmade := h.held (List.mem_of_ne_of_mem Deed.noConfusion hmade)
  made hbound := by
    rcases List.mem_cons.mp hbound with heq | hbound
    · obtain ⟨-, -, rfl⟩ := Deed.bind.inj heq
      exact ⟨value, List.mem_cons_of_mem _ hvar⟩
    · obtain ⟨held, hheld⟩ := h.made hbound
      exact ⟨held, List.mem_cons_of_mem _ hheld⟩

end Told

theorem Leads.told (h : Leads history s) : history.Told s := by
  induction h with
  | start => exact .start
  | child _ _ ih => exact ih.child _
  | make _ name value metadata ih => exact ih.make name value metadata
  | bind _ hscope name hvar ih => exact ih.bind hscope hvar name
  | define _ hscope name value ih => exact (ih.make name value .empty).bind hscope List.mem_cons_self name

/-! ### Looking names up -/

theorem Told.lookup (h : Told history s) (scope : Scope) (name : String) :
    s.lookup scope name = (history.chain scope).findSome? fun frame => history.latest frame name := by
  rw [Store.lookup, h.chain]
  congr 1
  funext frame
  exact h.latest frame name

theorem Told.lookup_eq_some_iff (h : Told history s) :
    s.lookup scope name = some var ↔ ∃ frame, history.Unshadowed scope name frame ∧ history.Latest frame name var := by
  rw [h.lookup, List.findSome?_eq_some_iff]
  constructor
  · rintro ⟨nearer, frame, farther, hchain, hlatest, hnearer⟩
    exact ⟨frame, ⟨nearer, farther, hchain, fun inner hinner => latest_eq_none_iff.mp (hnearer inner hinner)⟩,
      latest_eq_some_iff.mp hlatest⟩
  · rintro ⟨frame, ⟨nearer, farther, hchain, hnearer⟩, hlatest⟩
    exact ⟨nearer, frame, farther, hchain, latest_eq_some_iff.mpr hlatest,
      fun inner hinner => latest_eq_none_iff.mpr (hnearer inner hinner)⟩

theorem Told.isSome_lookup_iff (h : Told history s) :
    (s.lookup scope name).isSome = true ↔ ∃ frame ∈ history.chain scope, history.Defined frame name := by
  simp only [h.lookup, List.findSome?_isSome_iff, isSome_latest_iff]

theorem Told.mem_localNames_iff (h : Told history s) : name ∈ s.localNames scope ↔ history.Defined scope name := by
  rw [Store.localNames, Entries.mem_keys_iff, h.latest, isSome_latest_iff]

theorem Told.get_eq_ok_iff (h : Told history s) :
    s.get scope name = .ok value ↔ ∃ var, s.lookup scope name = some var ∧ .make var value ∈ history := by
  rw [Store.get]
  cases hvar : s.lookup scope name with
  | none => simp
  | some var =>
    obtain ⟨frame, -, later, earlier, hsplit, -⟩ := h.lookup_eq_some_iff.mp hvar
    obtain ⟨made, hmade⟩ := h.made (hsplit ▸ List.mem_append_right later List.mem_cons_self)
    constructor
    · intro hget
      obtain rfl := Except.ok.inj hget
      exact ⟨var, rfl, (h.held hmade).2 ▸ hmade⟩
    · rintro ⟨_, heq, hvalue⟩
      obtain rfl := Option.some.inj heq
      exact congrArg Except.ok (h.held hvalue).2

/-- What a search finds after one place has changed, when nothing nearer than the place was found before. -/
theorem findSome?_of_changed {α β : Type} {f g : α → Option β} {place : α} {found : β} (hplace : g place = some found)
    (hg : ∀ a ≠ place, g a = f a) {nearer : List α} (hnearer : ∀ a ∈ nearer, f a = none)
    (farther : List α) : (nearer ++ place :: farther).findSome? g = some found := by
  induction nearer with
  | nil => rw [List.nil_append, List.findSome?_cons, hplace]
  | cons a nearer ih =>
    obtain ⟨ha, hrest⟩ := List.forall_mem_cons.mp hnearer
    rw [List.cons_append, List.findSome?_cons]
    by_cases hsame : a = place
    · rw [hsame, hplace]
    · rw [hg a hsame, ha]
      exact ih hrest

/-- A search that does not come to the place that has changed finds what it found before. -/
theorem findSome?_of_unchanged {α β : Type} {f g : α → Option β} {place : α} (hg : ∀ a ≠ place, g a = f a)
    {places : List α} (h : ¬∃ nearer farther, places = nearer ++ place :: farther ∧ ∀ a ∈ nearer, f a = none) :
    places.findSome? g = places.findSome? f := by
  induction places with
  | nil => rfl
  | cons a rest ih =>
    have hsame : a ≠ place := by
      rintro rfl
      exact h ⟨[], rest, rfl, by simp⟩
    rw [List.findSome?_cons, List.findSome?_cons, hg a hsame]
    cases ha : f a with
    | some b => rfl
    | none =>
      refine ih fun ⟨nearer, farther, hsplit, hnearer⟩ => h ⟨a :: nearer, farther, ?_, ?_⟩
      · rw [hsplit, List.cons_append]
      · exact List.forall_mem_cons.mpr ⟨ha, hnearer⟩

theorem Told.redefines (h : Told history s) (hscope : scope < s.frames.size) (name : String) (var : Var) :
    history.Redefines scope name var s (s.bind scope name var) := by
  intro inside other
  rw [Store.lookup_bind hscope, h.lookup, h.chain]
  simp only [h.latest]
  constructor
  · rintro ⟨rfl, nearer, farther, hchain, hnearer⟩
    rw [hchain]
    refine findSome?_of_changed (f := fun frame => history.latest frame other) (by simp) (fun frame hframe => ?_)
      (fun inner hinner => latest_eq_none_iff.mpr (hnearer inner hinner)) farther
    rw [if_neg fun hboth => hframe hboth.1]
  · intro hnot
    by_cases hother : other = name
    · subst hother
      refine findSome?_of_unchanged (fun frame (hframe : frame ≠ scope) => if_neg fun hboth => hframe hboth.1) ?_
      rintro ⟨nearer, farther, hchain, hnearer⟩
      exact hnot ⟨rfl, nearer, farther, hchain, fun inner hinner => latest_eq_none_iff.mp (hnearer inner hinner)⟩
    · simp only [hother, and_false, if_false]

/-- Names are looked up lexically, whatever was done before. A name means the var of its latest definition in the
    nearest scope that ever defined it, and nothing if no scope around did; its value is what that var was made to
    hold. The names of a scope are those that were defined in it, in order and once each. And a definition changes what
    its name means, where no nearer definition hides it, and nothing else. -/
theorem Leads.lexical (h : Leads history s) :
    (∀ scope name var, s.lookup scope name = some var ↔
      ∃ frame, history.Unshadowed scope name frame ∧ history.Latest frame name var) ∧
    (∀ scope name, (s.lookup scope name).isSome = true ↔ ∃ frame ∈ history.chain scope, history.Defined frame name) ∧
    (∀ scope name value, s.get scope name = .ok value ↔
      ∃ var, s.lookup scope name = some var ∧ .make var value ∈ history) ∧
    (∀ scope name cause, s.get scope name = .error cause ↔
      s.lookup scope name = none ∧ cause = .undefined name (s.localNames scope)) ∧
    (∀ scope, (s.localNames scope).Pairwise (· < ·) ∧
      ∀ name, name ∈ s.localNames scope ↔ history.Defined scope name) ∧
    ∀ scope < s.frames.size, ∀ name,
      (∀ var, history.Redefines scope name var s (s.bind scope name var)) ∧
      ∀ value, history.Redefines scope name (s.define scope name value).1 s (s.define scope name value).2 := by
  have htold := h.told
  refine ⟨fun scope name var => htold.lookup_eq_some_iff, fun scope name => htold.isSome_lookup_iff,
    fun scope name value => htold.get_eq_ok_iff, fun scope name cause => ?_,
    fun scope => ⟨htold.ordered scope, fun name => htold.mem_localNames_iff⟩,
    fun scope hscope name => ⟨htold.redefines hscope name, fun value => ?_⟩⟩
  · rw [Store.get]
    cases s.lookup scope name with
    | none => simp [Store.undefined, eq_comm]
    | some var => simp
  · exact (htold.newVar name value .empty).redefines hscope name _

/-- The store after `x` was defined twice around an inner scope, and the inner scope bound `y` to the first var. -/
def aliasStore : Store :=
  let first := (Store.empty.newRoot.2.newChild 0).2.define 0 "x" (.int 1)
  (first.2.define 0 "x" (.int 2)).2.bind 1 "y" first.1

/-- How that store came about. -/
def aliasHistory : History :=
  let first : Var := ⟨0, .ofString "x"⟩
  let second : Var := ⟨1, .ofString "x"⟩
  [.bind 1 "y" first, .bind 0 "x" second, .make second (.int 2), .bind 0 "x" first, .make first (.int 1), .child 0 1]

theorem Leads.lexical_alias :
    Leads aliasHistory aliasStore ∧ aliasStore.get 1 "x" = .ok (.int 2) ∧ aliasStore.get 1 "y" = .ok (.int 1) := by
  have hchild : Leads [.child 0 1] (Store.empty.newRoot.2.newChild 0).2 := Leads.start.child Nat.zero_lt_one
  have hfirst := hchild.define Nat.zero_lt_two "x" (.int 1)
  have hsecond := hfirst.define Nat.zero_lt_two "x" (.int 2)
  have hleads : Leads aliasHistory aliasStore :=
    hsecond.bind Nat.one_lt_two "y" (List.mem_append_right [_, _, _] List.mem_cons_self)
  obtain ⟨hlookup, -, hget, -⟩ := hleads.lexical
  have hx : aliasStore.lookup 1 "x" = some ⟨1, .ofString "x"⟩ := by
    refine (hlookup 1 "x" _).mpr ⟨0, ⟨[1], [], rfl, ?_⟩, [.bind 1 "y" ⟨0, .ofString "x"⟩], _, rfl, ?_⟩
    · simp [Defined, aliasHistory]
    · simp [Defined]
  have hy : aliasStore.lookup 1 "y" = some ⟨0, .ofString "x"⟩ := by
    refine (hlookup 1 "y" _).mpr ⟨1, ⟨[], [0], rfl, ?_⟩, [], _, rfl, ?_⟩
    · simp
    · simp [Defined]
  exact ⟨hleads, (hget 1 "x" _).mpr ⟨_, hx, by simp [aliasHistory]⟩, (hget 1 "y" _).mpr ⟨_, hy, by simp [aliasHistory]⟩⟩

end History

end Lisplet
