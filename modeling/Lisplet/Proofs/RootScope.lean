import Lisplet.Interpreter
import Lisplet.Proofs.Entries

/-! # Fresh root scopes

A library is installed by one definition after the other, so what every definition keeps of a store, a whole library
keeps. With the scope that is opened and the identities that functions take, these are all the updates by which a root
scope comes about. -/

namespace Lisplet

variable {P : Store → Prop} {V : Value → Prop} {s : Store} {library : Library}

theorem Library.install_induction {scope : Scope} (hs : P s)
    (hdefine : ∀ t : Store, P t → ∀ entry ∈ library, P (t.define scope entry.1 entry.2).2) :
    P (library.install s scope) :=
  List.foldlRecOn library _ hs hdefine

/-- What holds of stores is kept while a root scope is made, where something holds of all values that are bound. -/
structure Store.Founding (P : Store → Prop) (V : Value → Prop) : Prop where
  nil : V .nil
  bool (b : Bool) : V (.bool b)
  special (identity : Nat) (special : Special) : V (.function identity (.special special))
  builtin (identity : Nat) (builtin : Builtin) : V (.function identity (.procedure (.builtin builtin)))
  newRoot {s : Store} (hs : P s) : P s.newRoot.2
  newIdentity {s : Store} (hs : P s) : P s.newIdentity.2
  define {s : Store} (hs : P s) (scope : Scope) (name : String) {v : Value} (hv : V v) : P (s.define scope name v).2

namespace Store.Founding

theorem install (h : Founding P V) (hs : P s) (hlibrary : ∀ entry ∈ library, V entry.2) (scope : Scope) :
    P (library.install s scope) :=
  Library.install_induction hs fun _ ht entry hentry => h.define ht scope entry.1 (hlibrary entry hentry)

theorem registerAll (h : Founding P V) (hs : P s) (hlibrary : ∀ entry ∈ library, V entry.2)
    {callables : List (Callable Value)} (hcallables : ∀ c ∈ callables, ∀ identity, V (.function identity c)) :
    (∀ entry ∈ (library.registerAll s callables).1, V entry.2) ∧ P (library.registerAll s callables).2 := by
  induction callables generalizing library s with
  | nil => exact ⟨hlibrary, hs⟩
  | cons callable rest ih =>
    obtain ⟨hcallable, hrest⟩ := List.forall_mem_cons.mp hcallables
    refine ih (h.newIdentity hs) (fun entry hentry => ?_) hrest
    rcases Entries.mem_insert hentry with rfl | hentry
    · exact hcallable s.identities
    · exact hlibrary entry hentry

theorem newBase (h : Founding P V) (hs : P s) {extra : Library} (hextra : ∀ entry ∈ extra, V entry.2) :
    P (s.newBase extra).2 := by
  have hempty : ∀ entry ∈ Library.empty, V entry.2 := by simp [Library.empty]
  have hforms : ∀ c ∈ basicForms.map Callable.special, ∀ identity, V (.function identity c) := by
    simp [h.special]
  have hcore : ∀ c ∈ Library.coreCallables, ∀ identity, V (.function identity c) := by
    simp [Library.coreCallables, h.special, h.builtin]
  have hliterals : ∀ entry ∈ literalValues, V entry.2 := by
    simp [literalValues, h.nil, h.bool]
  simp only [Store.newBase, Library.core]
  obtain ⟨hlibrary, hregistered⟩ := h.registerAll (h.newRoot hs) hempty hforms
  have hbasic := h.install hregistered hlibrary s.newRoot.1
  generalize Library.install _ _ s.newRoot.1 = t at hbasic ⊢
  obtain ⟨hlibrary, hregistered⟩ := h.registerAll hbasic hempty hcore
  have hinstalled := h.install hregistered hlibrary s.newRoot.1
  exact h.install (h.install hinstalled hextra s.newRoot.1) hliterals s.newRoot.1

end Store.Founding

/-- What the updates keep holds with a fresh root scope, whatever values are bound in it. -/
theorem Store.newBase_induction (hs : P s) (hroot : ∀ {t : Store}, P t → P t.newRoot.2)
    (hidentity : ∀ {t : Store}, P t → P t.newIdentity.2)
    (hdefine : ∀ {t : Store}, P t → ∀ scope name v, P (t.define scope name v).2) (extra : Library) :
    P (s.newBase extra).2 := by
  have hfounding : Founding P fun _ => True :=
    { nil := trivial
      bool := fun _ => trivial
      special := fun _ _ => trivial
      builtin := fun _ _ => trivial
      newRoot := hroot
      newIdentity := hidentity
      define := fun ht scope name v _ => hdefine ht scope name v }
  exact hfounding.newBase hs fun _ _ => trivial

end Lisplet
