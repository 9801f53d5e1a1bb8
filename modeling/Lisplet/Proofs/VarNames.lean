import Lisplet.Proofs.History

/-! # Names of vars

A name is divided at its first slash if text stands on both sides of it. Put together again, the two parts are the name,
so a var that is named after another one has the same namespace and the same name in it. That is what a var quote relies
on: it names its var after the one that the quoted name means, which may have been made for another name. It can do so
because every var that a scope binds was made by naming it, whatever was done. -/

namespace Lisplet

/-! ### Dividing names -/

namespace QualifiedName

/-- The text before the first slash of a name and the text after it, neither of them empty. -/
structure Divides (text space base : String) : Prop where
  whole : text = space ++ "/" ++ base
  first : '/' ∉ space.toList
  before : space ≠ ""
  after : base ≠ ""

variable {text space base : String}

theorem Divides.toList (h : Divides text space base) : text.toList = space.toList ++ '/' :: base.toList := by
  rw [h.whole]
  simp

theorem ofString_of_divides (h : Divides text space base) : ofString text = ⟨some space, base⟩ := by
  have hplain : ∀ c ∈ space.toList, (c != '/') = true := by
    intro c hc
    simpa using fun heq : c = '/' => h.first (heq ▸ hc)
  have hspace : space.toList.isEmpty = false := by simpa using h.before
  obtain ⟨c, rest, hbase⟩ := List.exists_cons_of_ne_nil (fun hnil => h.after (String.toList_eq_nil_iff.mp hnil))
  have htake : text.toList.takeWhile (· != '/') = space.toList := by
    rw [h.toList, List.takeWhile_append_of_pos hplain]
    simp
  have hdrop : text.toList.dropWhile (· != '/') = '/' :: c :: rest := by
    rw [h.toList, List.dropWhile_append_of_pos hplain, hbase]
    simp
  simp only [ofString, htake, hdrop, hspace, Bool.false_eq_true, if_false, String.ofList_toList]
  rw [← hbase, String.ofList_toList]

theorem ofString_of_not_divides (h : ∀ space base, ¬Divides text space base) : ofString text = ⟨none, text⟩ := by
  unfold ofString
  dsimp only
  split
  · next slash c rest hdrop =>
    split
    · rfl
    · next hbefore =>
      have hslash : slash = '/' := by
        have hhead := List.head?_dropWhile_not (· != '/') text.toList
        rw [hdrop] at hhead
        simpa using hhead
      have htext := (List.takeWhile_append_dropWhile (p := (· != '/')) (l := text.toList)).symm
      rw [hdrop, hslash] at htext
      -- both sides of the first slash have text, so they divide the name after all
      refine absurd ⟨?_, ?_, ?_, ?_⟩ (h (String.ofList (text.toList.takeWhile (· != '/'))) (String.ofList (c :: rest)))
      · exact String.toList_inj.mp (htext.trans (by simp))
      · intro hmem
        rw [String.toList_ofList] at hmem
        simpa using List.all_eq_true.mp List.all_takeWhile _ hmem
      · exact fun hnil => hbefore (by simpa using hnil)
      · simp
  · rfl

theorem ofString_eq_some_iff : ofString text = ⟨some space, base⟩ ↔ Divides text space base := by
  refine ⟨fun h => ?_, ofString_of_divides⟩
  by_cases hdivides : ∃ space base, Divides text space base
  · obtain ⟨other, rest, hother⟩ := hdivides
    have hname := ofString_of_divides hother
    rw [h, mk.injEq, Option.some.injEq] at hname
    obtain ⟨rfl, rfl⟩ := hname
    exact hother
  · have hname := ofString_of_not_divides fun space base h => hdivides ⟨space, base, h⟩
    rw [h] at hname
    cases hname

theorem ofString_eq_none_iff :
    ofString text = ⟨none, base⟩ ↔ base = text ∧ ∀ space rest, ¬Divides text space rest := by
  constructor
  · intro h
    have hnot : ∀ space rest, ¬Divides text space rest := by
      intro space rest hdivides
      rw [ofString_of_divides hdivides] at h
      cases h
    rw [ofString_of_not_divides hnot, mk.injEq] at h
    exact ⟨h.2.symm, hnot⟩
  · rintro ⟨rfl, hnot⟩
    exact ofString_of_not_divides hnot

theorem toString_ofString (text : String) : (ofString text).toString = text := by
  cases hname : ofString text with
  | mk space base =>
    cases space with
    | none => exact (ofString_eq_none_iff.mp hname).1
    | some space => exact (ofString_eq_some_iff.mp hname).whole.symm

/-- What stands after the first slash may have slashes, also at its start. -/
example : ["a/b/c", "a//b", "/b", "a/"].map ofString =
    [⟨some "a", "b/c"⟩, ⟨some "a", "/b"⟩, ⟨none, "/b"⟩, ⟨none, "a/"⟩] := by decide +kernel

end QualifiedName

/-! ### Vars that were made -/

/-- The var was made in some store, and named then. -/
def Var.Made (var : Var) : Prop :=
  ∃ (s : Store) (name : String) (v : Value) (m : Metadata Value), var = (s.newVar name v m).1

theorem Store.made_newVar (s : Store) (name : String) (v : Value) (m : Metadata Value) : (s.newVar name v m).1.Made :=
  ⟨s, name, v, m, rfl⟩

theorem Var.Made.ofString_toString {var : Var} (h : var.Made) : QualifiedName.ofString var.name.toString = var.name := by
  obtain ⟨s, name, v, m, rfl⟩ := h
  exact congrArg QualifiedName.ofString (QualifiedName.toString_ofString name)

namespace Store

/-- Every var that a scope binds was made. -/
def BindsMade (s : Store) : Prop :=
  ∀ scope, ∀ binding ∈ s.bindings scope, binding.2.Made

namespace BindsMade

variable {s t : Store}

theorem of_bindings (h : s.BindsMade) (heq : ∀ scope, t.bindings scope = s.bindings scope) : t.BindsMade := by
  intro scope binding hbinding
  rw [heq] at hbinding
  exact h scope binding hbinding

theorem bind (h : s.BindsMade) {var : Var} (hvar : var.Made) (scope : Scope) (name : String) :
    (s.bind scope name var).BindsMade := by
  rcases Nat.lt_or_ge scope s.frames.size with hscope | hscope
  · intro inner binding hbinding
    rw [bindings_bind hscope] at hbinding
    split at hbinding
    · rcases Entries.mem_insert hbinding with rfl | hbinding
      · exact hvar
      · exact h inner binding hbinding
    · exact h inner binding hbinding
  · exact h.of_bindings fun _ => bindings_bind_of_le hscope

theorem define (h : s.BindsMade) (scope : Scope) (name : String) (v : Value) (m : Metadata Value) :
    (s.define scope name v m).2.BindsMade :=
  BindsMade.bind (s := (s.newVar name v m).2) (h.of_bindings fun _ => rfl) (made_newVar s name v m) scope name

theorem newBase (h : s.BindsMade) (extra : Library) : (s.newBase extra).2.BindsMade :=
  newBase_induction h (fun h => h.of_bindings fun _ => bindings_push []) (fun h => h.of_bindings fun _ => rfl)
    (fun h scope name v => h.define scope name v .empty) extra

theorem lookup (h : s.BindsMade) {scope : Scope} {name : String} {var : Var} (hvar : s.lookup scope name = some var) :
    var.Made := by
  obtain ⟨frame, -, hfound⟩ := List.exists_of_findSome?_eq_some hvar
  obtain ⟨binding, hbinding, rfl⟩ := Entries.mem_of_get? hfound
  exact h frame binding hbinding

end BindsMade

end Store

namespace Eval

/-- To bind only vars that were made. -/
def naming : Discipline where
  store := Store.BindsMade
  failure _ := Store.BindsMade
  value _ := True
  form _ := True
  name _ := True
  fails h _ := h
  passes h _ := h

theorem isOpen_naming : naming.IsOpen := ⟨fun _ => trivial, fun _ => trivial, fun _ => trivial⟩

/-- Scripts bind no var but those that they make for it. -/
theorem lawful_naming (host : Host) : naming.Lawful host := by
  refine isOpen_naming.lawful_of_define host ?_ ?_ ?_ ?_ ?_ ?_
  · exact fun h => h.of_bindings fun _ => rfl
  · exact fun h _ => h.of_bindings fun _ => Store.bindings_push _
  · exact fun h _ _ _ => h.of_bindings fun _ => rfl
  · exact fun h scope name v m => h.define scope name v m
  · exact fun h _ _ _ => h.of_bindings fun _ => rfl
  · exact fun h _ _ _ => h.of_bindings fun _ => rfl

end Eval

namespace Store

theorem After.bindsMade {s t : Store} (h : s.After t) (hs : s.BindsMade) : t.BindsMade := by
  induction h with
  | refl => exact hs
  | ended _ host levels task ih =>
    exact ((Eval.lawful_naming host).serves levels (Eval.isOpen_naming.allows task) ih).left id
  | @begun _ _ _ host _ _ task _ hbegins ih =>
    exact ((Eval.lawful_naming host).begins hbegins (Eval.isOpen_naming.allows task) ih).2.1
  | read _ _ ih => exact ih.of_bindings fun _ => rfl
  | created _ _ _ library ih => exact ih.newBase library

/-- The stores that come about: when scopes, vars and identities are made, vars are bound to any names, their own or
    others, and more becomes known about them, and whenever interpreters, sources and tasks come after that. -/
inductive Arises : Store → Prop
  | empty : Arises .empty
  | newRoot {s : Store} (h : Arises s) : Arises s.newRoot.2
  | newChild {s : Store} (h : Arises s) (scope : Scope) : Arises (s.newChild scope).2
  | newVar {s : Store} (h : Arises s) (name : String) (v : Value) (m : Metadata Value) : Arises (s.newVar name v m).2
  | newIdentity {s : Store} (h : Arises s) : Arises s.newIdentity.2
  | bind {s : Store} (h : Arises s) (scope : Scope) (name : String) {var : Var} (hvar : var.Made) :
      Arises (s.bind scope name var)
  | annotate {s : Store} (h : Arises s) (var : Var) (m : Metadata Value) : Arises (s.annotate var m)
  | after {s t : Store} (h : Arises s) (hafter : s.After t) : Arises t

theorem Arises.bindsMade {s : Store} (h : s.Arises) : s.BindsMade := by
  induction h with
  | empty => exact fun scope binding hbinding => nomatch hbinding
  | newRoot _ ih => exact ih.of_bindings fun _ => bindings_push []
  | newChild _ scope ih => exact ih.of_bindings fun _ => bindings_push _
  | newVar _ _ _ _ ih | newIdentity _ ih | annotate _ _ _ ih => exact ih.of_bindings fun _ => rfl
  | bind _ scope name hvar ih => exact ih.bind hvar scope name
  | after _ hafter ih => exact hafter.bindsMade ih

/-! ### Snapshots -/

/-- A var has the name that it was made for, which is divided only where there is text before its first slash and after
    it. So the var that a quote of a bound name becomes has the parts of the name, the value and the metadata of the var
    that is bound, whatever name that one was made for. -/
theorem snapshot_faithful :
    (∀ (s : Store) (text : String) (v : Value) (m : Metadata Value),
      let name := (s.newVar text v m).1.name
      name.toString = text ∧
      (∀ space base, name = ⟨some space, base⟩ ↔ QualifiedName.Divides text space base) ∧
      (∀ base, name = ⟨none, base⟩ ↔ base = text ∧ ∀ space rest, ¬QualifiedName.Divides text space rest)) ∧
    ∀ s : Store, s.Arises → ∀ (scope : Scope) (form : Code) (name : String) (var : Var),
      form.kind = .varQuote → form.quotedName? = some name → s.lookup scope name = some var →
      ∃ (snapshot : Var) (t : Store),
        s.expandOnce? scope form =
          some (⟨.derived form.id snapshot.index 0, .var, [], some snapshot, form.metadata⟩, t) ∧
        snapshot.name = var.name ∧ t.held snapshot = s.held var ∧ t.metadata snapshot = s.metadata var := by
  constructor
  · intro s text v m
    exact ⟨QualifiedName.toString_ofString text, fun _ _ => QualifiedName.ofString_eq_some_iff,
      fun _ => QualifiedName.ofString_eq_none_iff⟩
  · intro s harises scope form name var hkind hquoted hvar
    have hmade : var.Made := harises.bindsMade.lookup hvar
    obtain ⟨hheld, hmetadata⟩ := s.held_newVar var.name.toString (s.held var) (s.metadata var)
    refine ⟨_, _, ?_, hmade.ofString_toString, hheld, hmetadata⟩
    simp only [expandOnce?, hkind, hquoted, Option.map_some, snapshot, hvar]

/-- A var that was made for a name with three slashes. -/
def slashedVar : Var × Store := Store.empty.newRoot.2.newVar "core//x/" (.keyword "held") (.withText "about")

/-- A store in which that var is bound to another name. -/
def slashedStore : Store := slashedVar.2.bind Store.empty.newRoot.1 "y" slashedVar.1

/-- A quote of the name that the var is bound to. -/
def slashedQuote : Code := (Document.read 0 "#'y").root.first?.getD default

theorem snapshot_faithful_slashes :
    slashedStore.Arises ∧ slashedQuote.kind = .varQuote ∧ slashedQuote.quotedName? = some "y" ∧
    slashedStore.lookup Store.empty.newRoot.1 "y" = some slashedVar.1 ∧
    ∃ (snapshot : Var) (t : Store),
      slashedStore.expandOnce? Store.empty.newRoot.1 slashedQuote =
        some (⟨.derived slashedQuote.id snapshot.index 0, .var, [], some snapshot, slashedQuote.metadata⟩, t) ∧
      snapshot.name = ⟨some "core", "/x/"⟩ ∧ t.held snapshot = .keyword "held" ∧
      t.metadata snapshot = .withText "about" := by
  have harises : slashedStore.Arises :=
    (Arises.empty.newRoot.newVar "core//x/" (.keyword "held") (.withText "about")).bind _ "y" (made_newVar ..)
  have hkind : slashedQuote.kind = .varQuote := by decide +kernel
  have hquoted : slashedQuote.quotedName? = some "y" := by decide +kernel
  have hvar : slashedStore.lookup Store.empty.newRoot.1 "y" = some slashedVar.1 := by decide +kernel
  have hname : slashedVar.1.name = ⟨some "core", "/x/"⟩ := by decide +kernel
  obtain ⟨snapshot, t, hexpands, hsnapshot, hheld, hmetadata⟩ :=
    snapshot_faithful.2 slashedStore harises _ slashedQuote "y" slashedVar.1 hkind hquoted hvar
  exact ⟨harises, hkind, hquoted, hvar, snapshot, t, hexpands, hsnapshot.trans hname, hheld.trans rfl,
    hmetadata.trans rfl⟩

end Store

end Lisplet
