import Lisplet.Proofs.Sugar
import Lisplet.Proofs.Trail

/-! # Expansion is done after one step

Two rules make one form of another. What they make is a var, or a list whose head is written as a point alone; no rule
applies to either, in whatever scope. So expansion ends after one step at most, and what has been expanded may be
expanded again. It does so all the time: a list expands its parts, and each of them is expanded once more when it is
evaluated. Evaluating a form is the same as evaluating what it is expanded to, after the expansion. A var quote is
expanded to a new var, which is all that evaluating it makes and gives, so its var may be made earlier, as long as the
name means the same. -/

namespace Lisplet

open EStateM (Result)

/-! ### Where a rule applies -/

namespace Form

/-- A var quote whose first part was written `name`. -/
structure QuotesVar (form : Code) (name : String) : Prop where
  kind : form.kind = .varQuote
  parts : ∃ part rest, form.children = part :: rest ∧ part.text? = some name

/-- A list that calls a member of a target: its head is a symbol written as a point and the name of the member. -/
structure CallsMember (form : Code) (member : String) (target : Code) (args : List Code) : Prop where
  kind : form.kind = .list
  parts : ∃ head, form.children = head :: target :: args ∧ head.kind = .symbol ∧ head.text? = some ("." ++ member)
  named : member ≠ ""

/-- There is a rule for the form. -/
def IsExpandable (form : Code) : Prop :=
  (∃ name, form.QuotesVar name) ∨ ∃ member target args, form.CallsMember member target args

theorem quotesVar_iff {form : Code} {name : String} : form.QuotesVar name ↔ form.varQuoted? = some name := by
  unfold varQuoted? quotedName? first?
  constructor
  · rintro ⟨hkind, part, rest, hchildren, htext⟩
    simp [hkind, hchildren, htext]
  · intro h
    split at h
    · next hkind =>
      cases hchildren : form.children with
      | nil => simp [hchildren] at h
      | cons part rest => exact ⟨hkind, part, rest, hchildren, by simpa [hchildren] using h⟩
    · cases h

end Form

theorem Form.exists_callsMember_iff {form : Code} (hkind : form.kind = .list) (number : Nat) :
    (∃ member target args, form.CallsMember member target args) ↔ (form.memberCall? number).isSome = true := by
  constructor
  · rintro ⟨member, target, args, -, ⟨head, hchildren, hsymbol, htext⟩, hne⟩
    simp [memberCall?, hchildren, hsymbol, htext, memberName?_eq_some_iff.mpr ⟨rfl, hne⟩]
  · intro h
    obtain ⟨call, hcall⟩ := Option.isSome_iff_exists.mp h
    obtain ⟨head, target, args, text, member, hchildren, hsymbol, htext, hname, -⟩ := exists_of_memberCall? hcall
    obtain ⟨rfl, hne⟩ := memberName?_eq_some_iff.mp hname
    exact ⟨member, target, args, hkind, ⟨head, hchildren, hsymbol, htext⟩, hne⟩

namespace Store

variable {s t : Store} {scope : Scope} {form next : Code}

theorem isExpandable_iff (s : Store) (scope : Scope) (form : Code) :
    form.IsExpandable ↔ (s.expandOnce? scope form).isSome = true := by
  have hquote : (∃ name, form.QuotesVar name) → form.kind = .varQuote := fun ⟨_, h⟩ => h.kind
  have hlist : (∃ member target args, form.CallsMember member target args) → form.kind = .list :=
    fun ⟨_, _, _, h⟩ => h.kind
  unfold expandOnce? Form.IsExpandable
  cases hkind : form.kind with
  | varQuote =>
    have hnot : ¬∃ member target args, form.CallsMember member target args := fun h => by simp [hlist h] at hkind
    simp only [hnot, or_false, Form.quotesVar_iff, Form.varQuoted?, hkind, if_true, Option.isSome_map,
      Option.isSome_iff_exists]
  | list =>
    have hnot : ¬∃ name, form.QuotesVar name := fun h => by simp [hquote h] at hkind
    simp only [hnot, false_or, Form.exists_callsMember_iff hkind s.newNumber.1, Option.isSome_map]
  | _ =>
    simp only [Option.isSome_none, Bool.false_eq_true, iff_false]
    rintro (h | h)
    · simp [hquote h] at hkind
    · simp [hlist h] at hkind

/-! ### One step -/

theorem index_snapshot (s : Store) (scope : Scope) (name : String) :
    (s.snapshot scope name).1.index = s.cells.size := by
  rw [snapshot_eq]
  rfl

/-- What a rule makes is another form, with a number of its own. -/
theorem id_of_expandOnce? (h : s.expandOnce? scope form = some (next, t)) :
    next.id = .derived form.id s.cells.size 0 := by
  rcases of_expandOnce? h with ⟨name, -, -, rfl, -⟩ | ⟨-, hcall, -⟩
  · rw [index_snapshot]
  · obtain ⟨head, target, args, text, member, -, -, -, -, rfl⟩ := Form.exists_of_memberCall? hcall
    rfl

theorem expandWithin_of_none (h : s.expandOnce? scope form = none) (limit : Nat) :
    s.expandWithin scope limit form = (form, s) := by
  cases limit with
  | zero => rfl
  | succ limit => rw [expandWithin, h]

theorem expandWithin_succ (s : Store) (scope : Scope) (form : Code) (limit : Nat) :
    s.expandWithin scope (limit + 1) form = s.expand scope form := by
  cases h : s.expandOnce? scope form with
  | none => rw [expandWithin_of_none h, s.expand_eq_self h]
  | some made =>
    rw [expandWithin, h, expand_of_some h]
    exact expandWithin_of_none (expandOnce?_of_expandOnce? h made.2 scope) limit

theorem expand_of_not_isExpandable (h : ¬form.IsExpandable) (s : Store) (scope : Scope) :
    s.expand scope form = (form, s) := by
  rw [s.isExpandable_iff scope form, Option.not_isSome_iff_eq_none] at h
  exact s.expand_eq_self h

theorem id_expand_of_isExpandable (h : form.IsExpandable) (s : Store) (scope : Scope) :
    (s.expand scope form).1.id = .derived form.id s.cells.size 0 := by
  obtain ⟨⟨next, t⟩, hmade⟩ := Option.isSome_iff_exists.mp ((s.isExpandable_iff scope form).mp h)
  rw [expand_of_some hmade]
  exact id_of_expandOnce? hmade

end Store

theorem FormId.derived_ne (id : FormId) (number part : Nat) : FormId.derived id number part ≠ id := by
  intro h
  have hsize := congrArg sizeOf h
  simp only [FormId.derived.sizeOf_spec] at hsize
  omega

/-! ### Evaluating what was expanded -/

namespace Eval

variable {host : Host} {scope : Scope} {s t u : Store} {form : Code}

/-- Outcomes that cannot be told apart but by the numbers of vars: they are the same, or either is a var, the two have
    one name, hold the same and are known for the same, and the store where the first was made has further vars only. -/
inductive ShowsSame : Result Stop Store Value → Result Stop Store Value → Prop
  | refl (x : Result Stop Store Value) : ShowsSame x x
  | var {v w : Var} {s t : Store} (name : v.name = w.name) (held : s.held v = t.held w)
      (metadata : s.metadata v = t.metadata w) (rest : s = { t with cells := s.cells }) (grown : t.Extends s) :
      ShowsSame (.ok (.var v) s) (.ok (.var w) t)

theorem run_evaluate_varQuoted {name : String} (h : form.varQuoted? = some name) (levels : Nat) (s : Store) :
    run host (levels + 1) (.evaluate form scope) s =
      .ok (.var (s.snapshot scope name).1) (s.snapshot scope name).2 := by
  rw [run_evaluate_of_expand (s.expand_of_varQuoted h scope)]
  rfl

/-- The var of an expanded var quote is there, and evaluating it makes no other. -/
theorem run_evaluate_expanded {name : String} (h : form.varQuoted? = some name) (levels : Nat) (s t : Store) :
    run host (levels + 1) (.evaluate (t.expand scope form).1 scope) s = .ok (.var (t.snapshot scope name).1) s := by
  rw [t.expand_of_varQuoted h scope]
  rfl

/-- A new var of a name shows what the name means. -/
theorem showsSame_of_quotesVar {name : String} (h : form.QuotesVar name)
    (hgrown : (s.expand scope form).2.Extends u) (hmeaning : u.meaning scope name = s.meaning scope name)
    (levels : Nat) :
    ShowsSame (run host levels (.evaluate form scope) u)
      (run host levels (.evaluate (s.expand scope form).1 scope) u) := by
  obtain _ | levels := levels
  · exact .refl _
  have hquoted := Form.quotesVar_iff.mp h
  rw [run_evaluate_varQuoted hquoted, run_evaluate_expanded hquoted, u.snapshot_eq, s.snapshot_eq, hmeaning]
  rw [s.expand_of_varQuoted hquoted, s.snapshot_eq] at hgrown
  generalize s.meaning scope name = m at hgrown ⊢
  obtain ⟨hheld, hmetadata⟩ := s.held_newVar m.1 m.2.value m.2.metadata
  obtain ⟨hheld', hmetadata'⟩ := u.held_newVar m.1 m.2.value m.2.metadata
  have hlt : (s.newVar m.1 m.2.value m.2.metadata).1.index < (s.newVar m.1 m.2.value m.2.metadata).2.cells.size := by
    simp [Store.newVar]
  refine .var rfl ?_ ?_ rfl (.newVar u _ _ _)
  · rw [hheld', hgrown.held hlt, hheld]
  · rw [hmetadata', hgrown.metadata hlt, hmetadata]

/-- Expansion ends after one step at most, with a form to which no rule applies. It is the form itself if there is no
    rule for that, and otherwise another one that is known for the same. To evaluate it after the expansion is to
    evaluate the form. The var that a var quote is expanded to may also be evaluated later, as the parts of a list are:
    if the name still means the same, the var quote would show the same. -/
theorem expand_transparent (host : Host) (s : Store) (scope : Scope) (form : Code) :
    (∀ next t, s.expandOnce? scope form = some (next, t) →
      ∀ (u : Store) (inner : Scope), u.expandOnce? inner next = none) ∧
    (∀ limit, s.expandWithin scope (limit + 1) form = s.expand scope form) ∧
    (∀ (u : Store) (inner : Scope) (limit : Nat), u.expandOnce? inner (s.expand scope form).1 = none ∧
      u.expandWithin inner limit (s.expand scope form).1 = ((s.expand scope form).1, u)) ∧
    ((s.expand scope form).1.id = form.id ↔ ¬form.IsExpandable) ∧
    (¬form.IsExpandable → s.expand scope form = (form, s)) ∧
    (s.expand scope form).1.metadata = form.metadata ∧
    (∀ levels, run host (levels + 1) (.evaluate (s.expand scope form).1 scope) (s.expand scope form).2 =
      run host (levels + 1) (.evaluate form scope) s) ∧
    ∀ name, form.QuotesVar name → ∀ u : Store, (s.expand scope form).2.Extends u →
      u.meaning scope name = s.meaning scope name → ∀ levels, ShowsSame (run host levels (.evaluate form scope) u)
        (run host levels (.evaluate (s.expand scope form).1 scope) u) := by
  have hdone := s.expandOnce?_expand scope form
  refine ⟨fun _ _ => Store.expandOnce?_of_expandOnce?, s.expandWithin_succ scope form,
    fun u inner limit => ⟨hdone u inner, Store.expandWithin_of_none (hdone u inner) limit⟩, ?_,
    fun h => Store.expand_of_not_isExpandable h s scope, s.metadata_expand scope form,
    fun levels => run_evaluate_expand host levels s scope form,
    fun name hname u hgrown hmeaning => showsSame_of_quotesVar hname hgrown hmeaning⟩
  constructor
  · intro hid hexpandable
    rw [Store.id_expand_of_isExpandable hexpandable] at hid
    exact FormId.derived_ne form.id _ 0 hid
  · intro h
    rw [Store.expand_of_not_isExpandable h]

/-- A var quote of a function of the language. -/
def quotedStr : Code := sourceForm "#'core/str"

/-- A store in which the var quote has been expanded, and a name was bound since. -/
def quotedStore : Store :=
  (run Command.host 5 (.evaluate (sourceForm "(def x 1)") freshCommand.1.scope)).left
    (freshCommand.2.expand freshCommand.1.scope quotedStr).2

theorem expand_transparent_quotedStr :
    quotedStr.QuotesVar "core/str" ∧
    (quotedStore.get freshCommand.1.scope "x").toOption.map Value.print = some "1" ∧
    ∀ levels, ShowsSame (run Command.host levels (.evaluate quotedStr freshCommand.1.scope) quotedStore)
      (run Command.host levels (.evaluate (freshCommand.2.expand freshCommand.1.scope quotedStr).1
        freshCommand.1.scope) quotedStore) := by
  have hcheck : quotedStr.varQuoted? = some "core/str" ∧
      (quotedStore.get freshCommand.1.scope "x").toOption.map Value.print = some "1" ∧
      quotedStore.lookup freshCommand.1.scope "core/str" = freshCommand.2.lookup freshCommand.1.scope "core/str" := by
    decide +kernel
  obtain ⟨hquoted, hx, hlookup⟩ := hcheck
  have hgrown : (freshCommand.2.expand freshCommand.1.scope quotedStr).2.Extends quotedStore :=
    extends_left_run _ _ _ _
  have hmeaning := (Store.reachable_freshCommand.closed Command.uniform_host).meaning_eq
    ((Store.extends_expand _ _ _).trans hgrown) hlookup
  refine ⟨Form.quotesVar_iff.mpr hquoted, hx, ?_⟩
  obtain ⟨-, -, -, -, -, -, -, hlater⟩ :=
    expand_transparent Command.host freshCommand.2 freshCommand.1.scope quotedStr
  exact hlater "core/str" (Form.quotesVar_iff.mpr hquoted) quotedStore hgrown hmeaning

end Eval

end Lisplet
