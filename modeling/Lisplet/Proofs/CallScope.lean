import Lisplet.Proofs.Sequence

/-! # The scope of a call with numbered parameters

A call of a `#()` function opens a scope inside the one that the function was made in and binds its parameters there,
like a library that is installed in it: `%` and `%1` to the first argument, `%2` to the second, and so on, each to a new
var. Nothing else that was in the store changes, so a name that is no parameter means in the new scope what it means
around it. -/

namespace Lisplet

open EStateM (Result)

/-! ### Installing -/

namespace Library

variable {s : Store} {scope inner : Scope} {name : String}

theorem size_define (v : Value) : (s.define scope name v).2.frames.size = s.frames.size := by
  simp [Store.define, Store.newVar, Store.bind]

theorem outer_install (library : Library) (s : Store) (scope inner : Scope) :
    (library.install s scope).outer inner = s.outer inner :=
  install_induction (P := fun t => t.outer inner = s.outer inner) rfl fun _ ht _ _ => Store.outer_bind.trans ht

theorem bindings_define (hscope : scope < s.frames.size) (v : Value) :
    (s.define scope name v).2.bindings inner =
      if inner = scope then Entries.insert name (s.define scope name v).1 (s.bindings inner) else s.bindings inner :=
  Store.bindings_bind (s := (s.newVar name v .empty).2) hscope

theorem bindings_install_of_ne (library : Library) (s : Store) (hscope : scope < s.frames.size) (hne : inner ≠ scope) :
    (library.install s scope).bindings inner = s.bindings inner := by
  refine (install_induction (P := fun t => t.frames.size = s.frames.size ∧ t.bindings inner = s.bindings inner)
    ⟨rfl, rfl⟩ fun t ⟨hsize, hsame⟩ entry _ => ⟨(size_define entry.2).trans hsize, ?_⟩).2
  rw [bindings_define (hsize ▸ hscope), if_neg hne, hsame]

theorem get?_install_of_not_mem (library : Library) (s : Store) (hscope : scope < s.frames.size)
    (hname : name ∉ library.keys) :
    Entries.get? ((library.install s scope).bindings scope) name = Entries.get? (s.bindings scope) name := by
  refine (install_induction (P := fun t => t.frames.size = s.frames.size ∧
    Entries.get? (t.bindings scope) name = Entries.get? (s.bindings scope) name) ⟨rfl, rfl⟩
    fun t ⟨hsize, hsame⟩ entry hentry => ⟨(size_define entry.2).trans hsize, ?_⟩).2
  have hne : name ≠ entry.1 := fun heq => hname (heq ▸ List.mem_map_of_mem hentry)
  rw [bindings_define (hsize ▸ hscope), if_pos rfl, Entries.get?_insert, if_neg hne, hsame]

/-- If no name comes twice, each is bound to a new var with its value. -/
theorem exists_get?_install {library : Library} (hnodup : library.keys.Nodup) (s : Store)
    (hscope : scope < s.frames.size) {v : Value} (h : (name, v) ∈ library) :
    ∃ var, Entries.get? ((library.install s scope).bindings scope) name = some var ∧
      var.index < (library.install s scope).cells.size ∧ (library.install s scope).held var = v := by
  induction library generalizing s with
  | nil => cases h
  | cons entry rest ih =>
    have hsize : (s.define scope entry.1 entry.2).2.frames.size = s.frames.size := size_define entry.2
    obtain ⟨hother, hnodup⟩ := List.nodup_cons.mp hnodup
    rcases List.mem_cons.mp h with rfl | h
    · have hlt : (s.define scope name v).1.index < (s.define scope name v).2.cells.size := by
        simp [Store.define, Store.newVar, Store.bind]
      have hheld : (s.define scope name v).2.held (s.define scope name v).1 = v := by
        simp [Store.define, Store.newVar, Store.bind, Store.held]
      have hrest := Store.Extends.install rest (s.define scope name v).2 scope
      refine ⟨(s.define scope name v).1, ?_, Nat.lt_of_lt_of_le hlt hrest.size_le, (hrest.held hlt).trans hheld⟩
      rw [install, List.foldl_cons, ← install, get?_install_of_not_mem rest _ (hsize ▸ hscope) hother,
        bindings_define hscope, if_pos rfl, Entries.get?_insert, if_pos rfl]
    · exact ih hnodup (s.define scope entry.1 entry.2).2 (hsize ▸ hscope) h

theorem localNames_install_ordered (library : Library) (s : Store) (hscope : scope < s.frames.size)
    (h : (s.localNames scope).Pairwise (· < ·)) : ((library.install s scope).localNames scope).Pairwise (· < ·) := by
  refine (install_induction (P := fun t => t.frames.size = s.frames.size ∧ (t.localNames scope).Pairwise (· < ·))
    ⟨rfl, h⟩ fun t ⟨hsize, hordered⟩ entry _ => ⟨(size_define entry.2).trans hsize, ?_⟩).2
  rw [Store.localNames, bindings_define (hsize ▸ hscope), if_pos rfl]
  exact Entries.keys_insert_ordered _ hordered

end Library

/-! ### Calls -/

namespace Eval

variable {scope inner : Scope} {s : Store}

/-- Whether a name is written like a numbered parameter: with a percent sign, and digits if there are any. -/
def isNumbered (name : String) : Bool :=
  match name.toList with
  | '%' :: digits => digits.all Char.isDigit
  | _ => false

theorem isNumbered_repr (n : Nat) : isNumbered ("%" ++ Nat.repr n) = true := by
  have hname : ("%" ++ Nat.repr n).toList = '%' :: Nat.toDigits 10 n := by
    rw [String.toList_append, Nat.toList_repr]
    rfl
  rw [isNumbered, hname]
  exact List.all_eq_true.mpr fun c hc => Nat.isDigit_of_mem_toDigits (by decide) (by decide) hc

theorem keys_parameters {n : Nat} (hn : n ≠ 0) (count : Nat) (args : List Value) :
    (parameters n count args).keys =
      (if n = 1 ∧ 0 < count then ["%"] else []) ++ (List.range' n count).map ("%" ++ Nat.repr ·) := by
  induction count generalizing n args with
  | zero => simp [parameters, Entries.keys]
  | succ count ih =>
    have hrest := ih (Nat.succ_ne_zero n) args.tail
    rw [if_neg fun h => hn (Nat.succ.inj h.1), List.nil_append] at hrest
    rw [parameters, List.range'_succ, List.map_cons, ← hrest]
    by_cases hone : n = 1
    · simp [hone, Entries.keys]
    · simp [hone, Entries.keys]

theorem mem_keys_parameters {count : Nat} {args : List Value} {name : String} :
    name ∈ (parameters 1 count args).keys ↔
      0 < count ∧ name = "%" ∨ ∃ n, 1 ≤ n ∧ n ≤ count ∧ name = "%" ++ Nat.repr n := by
  rw [keys_parameters (by decide), List.mem_append, List.mem_map]
  refine or_congr ?_ (exists_congr fun n => ?_)
  · by_cases hcount : 0 < count
    · simp [hcount]
    · simp [hcount]
  · rw [List.mem_range'_1, and_assoc, eq_comm, Nat.lt_one_add_iff]

theorem isNumbered_of_mem_parameters {count : Nat} {args : List Value} {name : String}
    (h : name ∈ (parameters 1 count args).keys) : isNumbered name = true := by
  rcases mem_keys_parameters.mp h with ⟨-, rfl⟩ | ⟨n, -, -, rfl⟩
  · decide
  · exact isNumbered_repr n

theorem repr_injective {m n : Nat} (h : "%" ++ Nat.repr m = "%" ++ Nat.repr n) : m = n := by
  have hdigits : Nat.toDigits 10 m = Nat.toDigits 10 n := by
    simpa [String.toList_append, Nat.toList_repr] using congrArg String.toList h
  rw [← Nat.ofDigitChars_ten_toDigits (n := m), hdigits, Nat.ofDigitChars_ten_toDigits]

theorem nodup_keys_parameters (count : Nat) (args : List Value) : (parameters 1 count args).keys.Nodup := by
  rw [keys_parameters (by decide)]
  have hnumbers : ((List.range' 1 count).map ("%" ++ Nat.repr ·)).Nodup :=
    List.pairwise_map.mpr ((List.nodup_range' 1).imp fun hne h => hne (repr_injective h))
  by_cases hcount : 0 < count
  · rw [if_pos ⟨rfl, hcount⟩]
    refine List.nodup_cons.mpr ⟨fun hmem => ?_, hnumbers⟩
    -- a number has digits
    obtain ⟨n, -, hn⟩ := List.mem_map.mp hmem
    have hdigits := congrArg String.toList hn
    simp [Nat.toList_repr, Nat.toDigits_ne_nil] at hdigits
  · rwa [if_neg fun h => hcount h.2]

theorem mem_parameters {n i count : Nat} (hi : i < count) (args : List Value) :
    ("%" ++ Nat.repr (n + i), args.getD i .nil) ∈ parameters n count args := by
  induction count generalizing n i args with
  | zero => cases hi
  | succ count ih =>
    have hnumbered : ("%" ++ Nat.repr (n + i), args.getD i .nil) ∈
        ("%" ++ Nat.repr n, firstArgument args) :: parameters (n + 1) count args.tail := by
      cases i with
      | zero =>
        cases args <;> exact List.mem_cons_self
      | succ i =>
        have hrest := ih (n := n + 1) (Nat.lt_of_succ_lt_succ hi) args.tail
        refine List.mem_cons_of_mem _ ?_
        cases args <;> simpa [Nat.add_assoc, Nat.add_comm 1] using hrest
    rw [parameters]
    split
    · exact List.mem_cons_of_mem _ hnumbered
    · exact hnumbered

theorem numbered_mem_parameters {n count : Nat} (hn : 1 ≤ n) (hle : n ≤ count) (args : List Value) :
    ("%" ++ Nat.repr n, args.getD (n - 1) .nil) ∈ parameters 1 count args := by
  have hmem := mem_parameters (show n - 1 < count by omega) args (n := 1)
  rwa [Nat.add_sub_cancel' hn] at hmem

theorem first_mem_parameters {count : Nat} (h : 0 < count) (args : List Value) :
    ("%", args.getD 0 .nil) ∈ parameters 1 count args := by
  obtain ⟨more, rfl⟩ := Nat.exists_eq_succ_of_ne_zero (Nat.pos_iff_ne_zero.mp h)
  rw [parameters, if_pos rfl]
  cases args <;> exact List.mem_cons_self

end Eval

namespace Store

variable {s : Store} {scope : Scope} {name : String}

theorem lt_size_newChild (s : Store) (scope : Scope) : (s.newChild scope).1 < (s.newChild scope).2.frames.size := by
  simp [newChild]

theorem outer_openCall (s : Store) (scope : Scope) (count : Nat) (args : List Value) (frame : Scope) :
    (s.openCall scope count args).2.outer frame =
      if frame = (s.openCall scope count args).1 then scope :: s.outer scope else s.outer frame :=
  (Library.outer_install _ _ _ frame).trans (outer_push _)

theorem bindings_openCall (s : Store) (scope : Scope) (count : Nat) (args : List Value) {frame : Scope}
    (h : frame ≠ (s.openCall scope count args).1) :
    (s.openCall scope count args).2.bindings frame = s.bindings frame :=
  (Library.bindings_install_of_ne _ _ (s.lt_size_newChild scope) h).trans (bindings_push _)

/-- A name that is no parameter means in the new scope what it means around it. -/
theorem lookup_openCall (s : Store) (scope : Scope) (count : Nat) (args : List Value)
    (h : Eval.isNumbered name = false) :
    (s.openCall scope count args).2.lookup (s.openCall scope count args).1 name =
      (s.openCall scope count args).2.lookup scope name := by
  by_cases hscope : scope = (s.openCall scope count args).1
  · rw [← hscope]
  · have hnone : Entries.get? ((s.openCall scope count args).2.bindings (s.openCall scope count args).1) name = none := by
      have hother : name ∉ (Eval.parameters 1 count args).keys := fun hname =>
        absurd (Eval.isNumbered_of_mem_parameters hname) (by simp [h])
      refine (Library.get?_install_of_not_mem _ _ (s.lt_size_newChild scope) hother).trans ?_
      rw [show (s.newChild scope).2.bindings (s.newChild scope).1 = _ from bindings_push _]
      simp [newChild, bindings, Entries.get?]
    rw [lookup, lookup, outer_openCall, outer_openCall, if_pos rfl, if_neg hscope, List.findSome?_cons, hnone]

end Store

/-- The scope itself binds the parameters of a call on `args`, `count` of them: nothing if there are none, and otherwise
    `%` and `%1` to the first argument, `%2` to the second and so on, and to `nil` what has no argument. -/
structure Store.BindsArguments (t : Store) (inner : Scope) (count : Nat) (args : List Value) : Prop where
  ordered : (t.localNames inner).Pairwise (· < ·)
  names : ∀ name, name ∈ t.localNames inner ↔
    0 < count ∧ name = "%" ∨ ∃ n, 1 ≤ n ∧ n ≤ count ∧ name = "%" ++ Nat.repr n
  numbered : ∀ n, 1 ≤ n → n ≤ count → t.get inner ("%" ++ Nat.repr n) = .ok (args.getD (n - 1) .nil)
  first : 0 < count → t.get inner "%" = t.get inner "%1"

namespace Store

variable {s t : Store} {scope inner : Scope} {name : String}

theorem get_of_bindings {var : Var} (h : Entries.get? (t.bindings inner) name = some var) :
    t.get inner name = .ok (t.held var) := by
  rw [get, lookup, List.findSome?_cons, h]

/-- Every parameter of a call is bound to a new var that holds its argument. -/
theorem exists_bindings_openCall (s : Store) (scope : Scope) {count : Nat} {args : List Value} {v : Value}
    (h : (name, v) ∈ Eval.parameters 1 count args) :
    ∃ var, Entries.get? ((s.openCall scope count args).2.bindings (s.openCall scope count args).1) name = some var ∧
      var.index < (s.openCall scope count args).2.cells.size ∧ (s.openCall scope count args).2.held var = v :=
  Library.exists_get?_install (Eval.nodup_keys_parameters count args) _ (s.lt_size_newChild scope) h

theorem bindsArguments_openCall (s : Store) (scope : Scope) (count : Nat) (args : List Value) :
    (s.openCall scope count args).2.BindsArguments (s.openCall scope count args).1 count args := by
  have hempty : (s.newChild scope).2.bindings (s.newChild scope).1 = [] := by
    refine (bindings_push _).trans ?_
    simp [newChild, bindings]
  have hget : ∀ {name v}, (name, v) ∈ Eval.parameters 1 count args →
      (s.openCall scope count args).2.get (s.openCall scope count args).1 name = .ok v := by
    intro name v h
    obtain ⟨var, hvar, -, hheld⟩ := s.exists_bindings_openCall scope h
    exact (get_of_bindings hvar).trans (congrArg Except.ok hheld)
  have hnumbered : ∀ n, 1 ≤ n → n ≤ count →
      (s.openCall scope count args).2.get (s.openCall scope count args).1 ("%" ++ Nat.repr n) =
        .ok (args.getD (n - 1) .nil) := by
    intro n hn hle
    exact hget (Eval.numbered_mem_parameters hn hle args)
  refine ⟨?_, fun name => ?_, hnumbered, fun hcount => ?_⟩
  · refine Library.localNames_install_ordered _ _ (s.lt_size_newChild scope) ?_
    rw [localNames, hempty]
    exact .nil
  · rw [localNames, Entries.mem_keys_iff, ← Eval.mem_keys_parameters]
    constructor
    · intro hsome
      by_contra hname
      rw [openCall, Library.get?_install_of_not_mem _ _ (s.lt_size_newChild scope) hname, hempty] at hsome
      cases hsome
    · intro hname
      obtain ⟨entry, hentry, rfl⟩ := List.mem_map.mp hname
      obtain ⟨var, hvar, -⟩ := s.exists_bindings_openCall scope hentry
      rw [hvar]
      rfl
  · have hone := hnumbered 1 (Nat.le_refl 1) hcount
    exact (hget (Eval.first_mem_parameters hcount args)).trans hone.symm

end Store

namespace Eval

/-- A call opens its scope, finds what its head means where the function was made, and applies that in its scope. -/
theorem run_call_anonymous (host : Host) (levels : Nat) (form head : Code) (forms : List Code) (params : Nat)
    (scope : Scope) (args : List Value) (s : Store) :
    run host (levels + 1) (.call (.anonymous form head forms params scope) args) s =
      through form (do
        let f ← run host levels (.evaluate head scope)
        applyToForms host (run host levels) form f (s.openCall scope (max params args.length) args).1 forms)
        (s.openCall scope (max params args.length) args).2 := by
  refine mapError_congr ?_ _
  rw [bind_ok (show newChild scope s = .ok (s.newChild scope).1 (s.newChild scope).2 from rfl),
    bind_ok (bindNumbered_eq _ _ _ _ _)]
  rfl

end Eval

end Lisplet
