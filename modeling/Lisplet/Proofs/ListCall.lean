import Lisplet.Proofs.MadeAnew
import Lisplet.Proofs.Words

/-! # Calls of `#()` functions as lists

Calling what `#(h a b)` makes comes to evaluating the list `(h a b)` in the scope of the call. The two differ in three
ways. The head is looked up where the function was made; but a symbol is no parameter, so it means the same in the
scope of the call. A special form is given a `#()` form for a list; but it does not see that. And the function has
expanded its parts when it was made, while a list expands them whenever it is evaluated. So a part that calls a member
is the same member form at every call of the function, but another one in every evaluation of the list. That can be
told if the form itself is a value that is compared with one of before, and only so. -/

namespace Lisplet

open EStateM (Result)
open Function (Injective)

/-! ### What was read -/

namespace Document

/-- No symbol that was read is written like a numbered parameter. -/
theorem isNumbered_symbol {number : Nat} {source : String} {form : Code}
    (hw : form.Within (read number source : Document Value).root) (hk : form.kind = .symbol) :
    Eval.isNumbered form.text = false := by
  have hatom : Lexeme.isAtom .symbol form.text.toList = true := isAtom_of_within hw (by rw [hk]; rfl)
  obtain ⟨c, cs, htext, hkind, hfirst⟩ := Lexeme.exists_cons_of_isAtom hatom
  rw [Eval.isNumbered, htext]
  rcases Lexeme.first_cases hfirst hkind with ⟨hk, -⟩ | ⟨hk, -⟩ | ⟨rfl, hpercent⟩ | ⟨hc, -⟩
  · cases hk
  · cases hk
  · rcases Lexeme.ofPercent_cases hpercent with ⟨hk, -⟩ | ⟨-, hother⟩
    · cases hk
    · exact hother
  · split
    · next hcons => exact absurd (List.cons.inj hcons).1 hc
    · rfl

end Document

namespace Form

/-- Whether a form is a list that calls a member. -/
def isMemberCall (form : Code) : Bool :=
  form.kind == .list && (form.memberCall? 0).isSome

/-- The form without the numbers of vars and made forms. -/
def unnumbered (form : Code) : Code := form.rename fun _ => 0

end Form

namespace Store

variable {form : Code} {forms : List Code}

/-- No rule applies to a form that is no var quote and calls no member. -/
theorem expandOnce?_plain (hquote : form.kind ≠ .varQuote) (hcall : form.isMemberCall = false) (s : Store)
    (scope : Scope) : s.expandOnce? scope form = none := by
  by_cases hlist : form.kind = .list
  · have hnone : form.memberCall? 0 = none := by simpa [Form.isMemberCall, hlist] using hcall
    rw [s.expandOnce?_of_list scope hlist, Form.memberCall?_eq_none hnone]
    rfl
  · exact s.expandOnce?_eq_none scope hquote hlist

theorem expandAll_plain (hquote : ∀ form ∈ forms, form.kind ≠ .varQuote)
    (hcall : ∀ form ∈ forms, form.isMemberCall = false) (s : Store) (scope : Scope) :
    s.expandAll scope forms = (forms, s) := by
  induction forms with
  | nil => rfl
  | cons form rest ih =>
    obtain ⟨hfirst, hrest⟩ := List.forall_mem_cons.mp hquote
    obtain ⟨hfirst', hrest'⟩ := List.forall_mem_cons.mp hcall
    simp only [expandAll, s.expand_eq_self (expandOnce?_plain hfirst hfirst' s scope), ih hrest hrest']

/-- A form that is no var quote is expanded to the same in any store, but for the numbers. -/
theorem unnumbered_expand (hquote : form.kind ≠ .varQuote) (s t : Store) (scope inner : Scope) :
    (s.expand scope form).1.unnumbered = (t.expand inner form).1.unnumbered := by
  cases hrule : s.expandOnce? scope form with
  | none => rw [s.expand_eq_self hrule, t.expand_eq_self (expandOnce?_eq_none_of_eq_none hrule t inner)]
  | some made =>
    rcases of_expandOnce? hrule with ⟨name, hkind, -⟩ | ⟨hlist, hcall, -⟩
    · exact absurd hkind hquote
    · obtain ⟨again, hagain⟩ : ∃ again, form.memberCall? t.newNumber.1 = some again := by
        refine Option.ne_none_iff_exists'.mp fun hnone => ?_
        rw [Form.memberCall?_eq_none hnone] at hcall
        cases hcall
      have hrenamed := form.memberCall?_rename (f := fun _ => 0) s.newNumber.1
      rw [form.memberCall?_rename (f := fun _ => 0) t.newNumber.1, hcall, hagain] at hrenamed
      rw [expand_of_memberCall? hlist hcall, expand_of_memberCall? hlist hagain]
      exact (Option.some.inj hrenamed).symm

theorem unnumbered_expandAll (hquote : ∀ form ∈ forms, form.kind ≠ .varQuote) (s t : Store) (scope inner : Scope) :
    (s.expandAll scope forms).1.map Form.unnumbered = (t.expandAll inner forms).1.map Form.unnumbered := by
  induction forms generalizing s t with
  | nil => rfl
  | cons form rest ih =>
    obtain ⟨hfirst, hrest⟩ := List.forall_mem_cons.mp hquote
    simp only [expandAll, List.map_cons, unnumbered_expand hfirst s t scope inner]
    exact congrArg _ (ih hrest _ _)

end Store

namespace Eval

/-- A `#()` form that was read, whose head is a symbol that names no member and none of whose parts is a var quote,
    evaluates to a function and expands its parts. Calling that function, at any time, comes to evaluating the list of
    the same parts in the scope of the call: a new scope inside the one that the form was evaluated in, which holds the
    numbered parameters. Only the parts that are expanded are those of before; the list expands them anew, to the same
    but for the numbers of the forms that are made. Whatever the head means there, a special form included, both leave
    the same store and give the same value but for the metadata that closures keep, or fail for causes of one kind.

    So call and list come to the same if none of the parts calls a member, for then nothing is made. Otherwise they come
    to the same but for numbers, if the head means a special form or the function is called as soon as it is made. -/
theorem restates_call {host : Host} (hhost : host.SeesArguments) {number : Nat} {source : String} {form : Code}
    (hread : form.Within (Document.read number source : Document Value).root) (hkind : form.kind = .lambda)
    {head : Code} {parts : List Code} (hchildren : form.children = head :: parts) (hsymbol : head.kind = .symbol)
    (hmember : memberName? head.text = none) (hquote : ∀ part ∈ form.children, part.kind ≠ .varQuote) (scope : Scope)
    (s : Store) :
    ∃ p : Procedure Value,
      (∀ levels, run host (levels + 1) (.evaluate form scope) s =
        .ok ((s.expandAll scope parts).2.newFunction (.procedure p)).1
          ((s.expandAll scope parts).2.newFunction (.procedure p)).2) ∧
      ∀ (list : Code), list.kind = .list → list.children = form.children →
      ∀ (t : Store) (args : List Value) (levels : Nat),
        let opened := t.openCall scope (max (maxParams form.children) args.length) args
        let again := opened.2.expandAll opened.1 parts
        let called := run host (levels + 1) (.call p args) t
        let evaluated := run host (levels + 1) (.evaluate list opened.1) opened.2
        (Restates Value.Restated called
            (applyParts host levels list head (s.expandAll scope parts).1 opened.1 opened.2) ∧
          evaluated = applyParts host levels list head again.1 opened.1 again.2 ∧
          again.1.map Form.unnumbered = (s.expandAll scope parts).1.map Form.unnumbered) ∧
        ((∀ part ∈ parts, part.isMemberCall = false) → Restates Value.Restated called evaluated) ∧
        (host.Uniform → t.Reachable host → list.Bounded t.cells.size → (∀ v ∈ args, v.Bounded t.cells.size) →
          ∀ identity special, opened.2.get opened.1 head.text = .ok (.function identity (.special special)) →
          ∃ x f, Restates Value.Restated called x ∧ Injective f ∧ (∀ i < opened.2.cells.size, f i = i) ∧
            Agrees f (Value.rename f) x evaluated) ∧
        (host.Uniform → s.Reachable host → list.Bounded s.cells.size → (∀ v ∈ args, v.Bounded s.cells.size) →
          t = ((s.expandAll scope parts).2.newFunction (.procedure p)).2 →
          ∃ x, Restates Value.Restated called x ∧ SameButNumbers x evaluated) := by
  have hparts : ∀ part ∈ parts, part.kind ≠ .varQuote := fun part hpart => hquote part (by simp [hchildren, hpart])
  have hexpand : expandAll scope form.children s =
      .ok (head :: (s.expandAll scope parts).1) (s.expandAll scope parts).2 := by
    show Result.ok (s.expandAll scope form.children).1 (s.expandAll scope form.children).2 = _
    rw [hchildren, Store.expandAll, s.expand_symbol hsymbol]
  refine ⟨.anonymous form head (s.expandAll scope parts).1 (maxParams form.children) scope, fun levels => ?_, ?_⟩
  · refine run_evaluate_ok (by simp [hkind]) (by simp [hkind]) ?_
    simp only [evalForm, hkind]
    rw [evalLambda, bind_ok hexpand]
    rfl
  intro list hlist hlistChildren t args levels opened again called evaluated
  have hnumbered : isNumbered head.text = false :=
    Document.isNumbered_symbol (.trans (.of_mem (by simp [hchildren])) hread) hsymbol
  have hlookup : opened.2.lookup opened.1 head.text = opened.2.lookup scope head.text :=
    t.lookup_openCall scope _ args hnumbered
  have hsame : form.SameArguments list :=
    ⟨by simp [Form.arguments, hkind, hlist, hlistChildren], by simp [hkind], by simp [hlist]⟩
  have hcalled : Restates Value.Restated called
      (applyParts host levels list head (s.expandAll scope parts).1 opened.1 opened.2) := by
    simp only [called]
    rw [run_call_anonymous]
    exact restates_application hhost (treats_restated hhost levels) hsame hsymbol hsymbol hlookup.symm _
  have hevaluated : evaluated = applyParts host levels list head again.1 opened.1 again.2 :=
    run_evaluate_applyParts hlist (hlistChildren.trans hchildren) hsymbol hmember host levels opened.1 opened.2
  refine ⟨⟨hcalled, hevaluated, Store.unnumbered_expandAll hparts _ _ _ _⟩, fun hnone => ?_, ?_, ?_⟩
  · have hbefore := Store.expandAll_plain hparts hnone s scope
    have hnow : again = (parts, opened.2) := Store.expandAll_plain hparts hnone opened.2 opened.1
    rw [hbefore] at hcalled
    rw [hevaluated, hnow]
    exact hcalled
  · intro huniform ht hbounded hargs identity special hget
    have hclosed : opened.2.Closed := closed_openCall huniform (ht.closed huniform) hargs scope _
    have hlater : list.Bounded opened.2.cells.size := hbounded.mono (extends_openCall t scope _ args).size_le
    obtain ⟨f, hf, hfixed, hagrees⟩ :=
      exists_agrees_special huniform hclosed hlater hsymbol hget (s.expandAll scope parts).1 parts levels
    exact ⟨_, f, hcalled, hf, hfixed, hevaluated ▸ hagrees⟩
  · rintro huniform hs hbounded hargs rfl
    have hforms : ∀ part ∈ head :: parts, part.Bounded s.cells.size := by
      rw [← hchildren, ← hlistChildren]
      exact eq_of_map_eq_self hbounded.children
    obtain ⟨hhead, hrest⟩ := List.forall_mem_cons.mp hforms
    refine ⟨_, hcalled, ?_⟩
    rw [hevaluated, show again = opened.2.expandAll scope parts from Store.expandAll_eq_of_kind_ne hparts _ _ _]
    exact sameButNumbers_made huniform (hs.closed huniform) hbounded hhead hrest hparts hargs rfl rfl levels

/-- A `#()` form whose head makes a closure with a body of two forms. -/
def sequenceLambda : Code := sourceForm "#(fn [] % %2)"

/-- The call that `sequenceLambda` makes a function of, as a list. -/
def sequenceList : Code := { sequenceLambda with kind := .list }

/-- The scope of a call of that function on one argument, and the store with it. -/
def openedSequence : Scope × Store := freshCommand.2.openCall freshCommand.1.scope 2 [.int 7]

theorem restates_call_sequenceLambda :
    sequenceLambda.Within (Document.read 0 "#(fn [] % %2)" : Document Value).root ∧ sequenceLambda.kind = .lambda ∧
    printed (run Command.host 12 (.evaluate sequenceList openedSequence.1) openedSequence.2) = some "#<fn fn>" ∧
    ∃ p : Procedure Value,
      (∀ levels, run Command.host (levels + 1) (.evaluate sequenceLambda freshCommand.1.scope) freshCommand.2 =
        .ok (freshCommand.2.newFunction (.procedure p)).1 (freshCommand.2.newFunction (.procedure p)).2) ∧
      ∀ levels, Restates Value.Restated (run Command.host (levels + 1) (.call p [.int 7]) freshCommand.2)
        (run Command.host (levels + 1) (.evaluate sequenceList openedSequence.1) openedSequence.2) := by
  have hcheck : (Document.read 0 "#(fn [] % %2)" : Document Value).root.children.isEmpty = false ∧
      sequenceLambda.kind = .lambda ∧ sequenceLambda.children.isEmpty = false ∧
      (sequenceLambda.children.headD default).kind = .symbol ∧
      memberName? (sequenceLambda.children.headD default).text = none ∧
      sequenceLambda.children.all (fun part => part.kind != .varQuote && !part.isMemberCall) = true ∧
      maxParams sequenceLambda.children = 2 ∧
      printed (run Command.host 12 (.evaluate sequenceList openedSequence.1) openedSequence.2) = some "#<fn fn>" := by
    decide +kernel
  obtain ⟨hparts, hkind, hchildren, hsymbol, hmember, hplain, hmax, hprinted⟩ := hcheck
  have hwithin : sequenceLambda.Within _ := within_sourceForm (List.isEmpty_eq_false_iff.mp hparts)
  obtain ⟨head, rest, hcons⟩ := List.exists_cons_of_ne_nil (List.isEmpty_eq_false_iff.mp hchildren)
  rw [hcons] at hsymbol hmember
  simp only [List.all_eq_true, Bool.and_eq_true, bne_iff_ne, Bool.not_eq_true'] at hplain
  have hquote : ∀ part ∈ sequenceLambda.children, part.kind ≠ .varQuote := fun part hpart => (hplain part hpart).1
  have hnone : ∀ part ∈ rest, part.isMemberCall = false := fun part hpart => (hplain part (by simp [hcons, hpart])).2
  have hrest : ∀ part ∈ rest, part.kind ≠ .varQuote := fun part hpart => hquote part (by simp [hcons, hpart])
  obtain ⟨p, hmade, hcalled⟩ := restates_call Command.seesArguments_host hwithin hkind hcons hsymbol hmember hquote
    freshCommand.1.scope freshCommand.2
  rw [Store.expandAll_plain hrest hnone] at hmade
  refine ⟨hwithin, hkind, hprinted, p, hmade, fun levels => ?_⟩
  have hlist :=
    (hcalled sequenceList (by rw [sequenceList]) (by rw [sequenceList]) freshCommand.2 [.int 7] levels).2.1 hnone
  have hcount : max (maxParams sequenceLambda.children) [Value.int 7].length = 2 := by
    rw [hmax]
    rfl
  rw [hcount, show freshCommand.2.openCall freshCommand.1.scope 2 [.int 7] = openedSequence from rfl] at hlist
  exact hlist

/-! ### Forms that are made anew -/

theorem Restates.printed_eq {x y : Result Stop Store Value} (h : Restates Value.Restated x y) :
    printed x = printed y := by
  cases h with
  | ok h _ => cases h <;> rfl
  | failed | exhausted => rfl

/-- A `#()` form that makes a set of a member call and of what is saved. -/
def memberLambda : Code := sourceForm "#(internal/set (.m [] a b) saved)"

/-- The call that `memberLambda` makes a function of, as a list. -/
def memberList : Code := { memberLambda with kind := .list }

/-- A scope in which a member form is a `let` form and the sequence of its body quotes its first form. So a member call
    gives the symbol that is made of its name. -/
def quotingScope : Scope × Store :=
  let (inner, s) := freshCommand.2.newChild freshCommand.1.scope
  let (letIn, s) := s.newFunction (.special .letIn)
  let (quote, s) := s.newFunction (.special .quote)
  (inner, (((s.define inner "." letIn).2.define inner "do" quote).2.define inner "saved" .nil).2)

theorem reachable_quotingScope : quotingScope.2.Reachable Command.host := by
  have hchild := Store.reachable_freshCommand.child freshCommand.1.scope
  have hmade := (hchild.made (.special .letIn)).made (.special .quote)
  have hmember := hmade.bound freshCommand.2.frames.size "."
    (v := .function freshCommand.2.identities (.special .letIn)) rfl (m := .empty) rfl
  have hdo := hmember.bound freshCommand.2.frames.size "do"
    (v := .function (freshCommand.2.identities + 1) (.special .quote)) rfl (m := .empty) rfl
  exact hdo.bound freshCommand.2.frames.size "saved" (v := .nil) rfl (m := .empty) rfl

/-- The procedure that was made, with the identity of its function and the store. -/
def procedure? : Result Stop Store Value → Option (Nat × Procedure Value × Store)
  | .ok (.function identity (.procedure p)) s => some (identity, p, s)
  | _ => none

/-- The first item of a set, and the store. -/
def firstItem? : Result Stop Store Value → Option (Value × Store)
  | .ok (.set (item :: _)) s => some (item, s)
  | _ => none

theorem eq_of_procedure? {x : Result Stop Store Value} {made : Nat × Procedure Value × Store}
    (h : procedure? x = some made) : x = .ok (.function made.1 (.procedure made.2.1)) made.2.2 := by
  unfold procedure? at h
  split at h
  · cases h
    rfl
  · cases h

theorem eq_of_firstItem? {x : Result Stop Store Value} {found : Value × Store} (h : firstItem? x = some found) :
    ∃ rest, x = .ok (.set (found.1 :: rest)) found.2 := by
  unfold firstItem? at h
  split at h
  · next rest _ =>
    cases h
    exact ⟨rest, rfl⟩
  · cases h

/-- Makes a function of `form`, calls it and saves the first item of what it gives. Then the function is called again
    and `list` is evaluated for comparison; both are printed. -/
def callAgain? (form list : Code) (scope : Scope) (s : Store) : Option (Option String × Option String) := do
  let (_, p, made) ← procedure? (run Command.host 20 (.evaluate form scope) s)
  let (item, called) ← firstItem? (run Command.host 20 (.call p []) made)
  let saved := (called.define scope "saved" item).2
  let opened := saved.openCall scope (maxParams form.children) []
  return (printed (run Command.host 20 (.call p []) saved),
    printed (run Command.host 20 (.evaluate list opened.1) opened.2))

theorem exists_of_callAgain? {form list : Code} {scope : Scope} {s : Store} {answers : Option String × Option String}
    (hs : s.Reachable Command.host) (hform : form.Bounded s.cells.size)
    (h : callAgain? form list scope s = some answers) :
    ∃ (made later : Store) (identity : Nat) (p : Procedure Value),
      later.Reachable Command.host ∧ made.Extends later ∧
      run Command.host 20 (.evaluate form scope) s = .ok (.function identity (.procedure p)) made ∧
      let opened := later.openCall scope (maxParams form.children) []
      printed (run Command.host 20 (.call p []) later) = answers.1 ∧
      printed (run Command.host 20 (.evaluate list opened.1) opened.2) = answers.2 := by
  obtain ⟨⟨identity, p, made⟩, hmade, h⟩ := Option.bind_eq_some_iff.mp h
  obtain ⟨⟨item, called⟩, hcalled, h⟩ := Option.bind_eq_some_iff.mp h
  obtain ⟨hfirst, hsecond⟩ := Prod.mk.inj (Option.some.inj h)
  have hfunction := eq_of_procedure? hmade
  obtain ⟨rest, hset⟩ := eq_of_firstItem? hcalled
  have hclosed := hs.closed Command.uniform_host
  have htask : (Task.evaluate form scope).Bounded s.cells.size := congrArg (Task.evaluate · scope) hform
  have hreachable : made.Reachable Command.host := by
    have hended := hs.ended 20 htask
    rwa [left, hfunction] at hended
  have hp : (Task.call p []).Bounded made.cells.size := by
    have hgiven := (closed_run Command.uniform_host hclosed htask 20).2 _ _ hfunction
    rw [Value.Bounded, Value.rename_function] at hgiven
    exact congrArg (Task.call · []) (Callable.procedure.inj (Value.function.inj hgiven).2)
  have hitem : item.Bounded called.cells.size := by
    have hgiven := (closed_run Command.uniform_host (hreachable.closed Command.uniform_host) hp 20).2 _ _ hset
    rw [Value.Bounded, Value.rename_set] at hgiven
    exact (List.cons.inj (Value.set.inj hgiven)).1
  have hcalling : called.Reachable Command.host ∧ made.Extends called := by
    have hended := hreachable.ended 20 hp
    have hgrown := extends_left_run Command.host 20 (.call p []) made
    rw [left, hset] at hended hgrown
    exact ⟨hended, hgrown⟩
  exact ⟨made, _, identity, p, hcalling.1.bound scope "saved" hitem rfl, hcalling.2.trans (.define _ _ _ _ _),
    hfunction, hfirst, hsecond⟩

/-- The saved symbol is found again by the function, which has made it, and not by the list, which makes another. -/
theorem not_restates_memberLambda :
    memberLambda.Within (Document.read 0 "#(internal/set (.m [] a b) saved)" : Document Value).root ∧
    memberLambda.kind = .lambda ∧ (memberLambda.children.headD default).kind = .symbol ∧
    memberName? (memberLambda.children.headD default).text = none ∧
    (∀ part ∈ memberLambda.children, part.kind ≠ .varQuote) ∧
    ∃ (s made later : Store) (scope : Scope) (identity : Nat) (p : Procedure Value),
      s.Reachable Command.host ∧ later.Reachable Command.host ∧ made.Extends later ∧
      run Command.host 20 (.evaluate memberLambda scope) s = .ok (.function identity (.procedure p)) made ∧
      let opened := later.openCall scope (maxParams memberLambda.children) []
      printed (run Command.host 20 (.call p []) later) = some "#\x7bm\x7d" ∧
      printed (run Command.host 20 (.evaluate memberList opened.1) opened.2) = some "#\x7bm m\x7d" ∧
      ¬Restates Value.Restated (run Command.host 20 (.call p []) later)
        (run Command.host 20 (.evaluate memberList opened.1) opened.2) := by
  have hcheck : (Document.read 0 "#(internal/set (.m [] a b) saved)" : Document Value).root.children.isEmpty = false ∧
      memberLambda.kind = .lambda ∧ (memberLambda.children.headD default).kind = .symbol ∧
      memberName? (memberLambda.children.headD default).text = none ∧
      memberLambda.children.all (·.kind != .varQuote) = true ∧ memberLambda.all Form.isBare = true ∧
      callAgain? memberLambda memberList quotingScope.1 quotingScope.2 =
        some (some "#\x7bm\x7d", some "#\x7bm m\x7d") := by decide +kernel
  obtain ⟨hparts, hkind, hsymbol, hmember, hquote, hbare, hagain⟩ := hcheck
  obtain ⟨made, later, identity, p, hlater, hgrown, hmade, hcalled, hlist⟩ :=
    exists_of_callAgain? reachable_quotingScope (Form.bounded_of_isBare hbare _) hagain
  refine ⟨within_sourceForm (List.isEmpty_eq_false_iff.mp hparts), hkind, hsymbol, hmember,
    fun part hpart => by simpa using List.all_eq_true.mp hquote part hpart, quotingScope.2, made, later, quotingScope.1,
    identity, p, reachable_quotingScope, hlater, hgrown, hmade, hcalled, hlist, fun hrestates => ?_⟩
  have hsame := hrestates.printed_eq
  rw [hcalled, hlist] at hsame
  exact absurd (Option.some.inj hsame) (by decide)

end Eval

end Lisplet
