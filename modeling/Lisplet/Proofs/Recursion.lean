import Lisplet.Proofs.Data
import Lisplet.Proofs.Reserved

/-! # What can recurse

Without functions, a task asks for less than it does itself, so a source can only go as deep as it is long. There is one
exception: `core/apply` and member forms hand the form they were called with to a special form that they find among
values, and if that is one of the two again, nothing has become less. `Reenters` says that this happened, and indeed a
source that makes `core/apply` apply itself never comes to an end. -/

namespace Lisplet

open EStateM (Result)

/-! ### Depth -/

/-- How many levels a task needs if it makes no use of functions made by scripts. -/
def Task.need : Task → Nat
  | .evaluate form _ => 3 * form.weight + 3
  | .invoke special form _ => 3 * form.weight + if special.isApplying then 2 else 1
  | .call _ _ => 1

theorem Task.need_pos (task : Task) : 0 < task.need := by
  cases task with
  | evaluate form scope => exact Nat.succ_pos _
  | invoke special form scope =>
    simp only [Task.need]
    split <;> omega
  | call p args => exact Nat.one_pos

/-- A task asks for less than it does, unless it calls a function made by a script or has a special form applied that
    applies again. -/
theorem Task.Below.need_lt {asked task : Task} (h : asked.Below task) :
    asked.need < task.need ∨
    (∃ p args, task = .call p args ∧ p.isScripted = true) ∨
    ∃ outer inner form scope, task = .invoke outer form scope ∧ asked = .invoke inner form scope ∧
      outer.isApplying = true ∧ inner.isApplying = true := by
  cases h with
  | part h inner scope =>
    refine .inl ?_
    simp only [Task.need]
    omega
  | handed special h inner scope =>
    refine .inl ?_
    simp only [Task.need]
    split <;> omega
  | called p args form scope =>
    refine .inl ?_
    simp only [Task.need]
    omega
  | operand h inner special scope =>
    refine .inl ?_
    simp only [Task.need]
    split <;> omega
  | again inner h form scope =>
    cases hinner : inner.isApplying with
    | true => exact .inr (.inr ⟨_, inner, form, scope, rfl, rfl, h, hinner⟩)
    | false =>
      refine .inl ?_
      simp [Task.need, h, hinner]
  | applied p args h form scope =>
    refine .inl ?_
    simp only [Task.need, h, if_true]
    omega
  | scripted task h args => exact .inr (.inl ⟨_, args, rfl, h⟩)

namespace Eval

/-- A task came to an end, with a value or a failure. -/
def Finished (result : Result Stop Store Value) : Prop :=
  (∃ v t, result = .ok v t) ∨ ∃ error t, result = .error (.failed error) t

theorem finished_or_exhausted (result : Result Stop Store Value) :
    Finished result ∨ ∃ t, result = .error .exhausted t := by
  cases result with
  | ok v t => exact .inl (.inl ⟨v, t, rfl⟩)
  | error stop t =>
    cases stop with
    | failed error => exact .inl (.inr ⟨error, t, rfl⟩)
    | exhausted => exact .inr ⟨t, rfl⟩

/-- In the course of a task, a form makes `core/apply` or a member form apply one of the two, which is handed the same
    form again. -/
def Reenters (host : Host) (levels : Nat) (task : Task) (s : Store) : Prop :=
  ∃ left outer inner form scope t u, outer.isApplying = true ∧ inner.isApplying = true ∧
    Begins host levels task s (left + 1) (.invoke outer form scope) t ∧
    Asks (fun go => step host go (.invoke outer form scope) t) (run host left) (.invoke inner form scope) u

theorem Reenters.of_asked {host : Host} {levels : Nat} {task asked : Task} {s t : Store}
    (hasks : Asks (fun go => step host go task s) (run host levels) asked t) (h : Reenters host levels asked t) :
    Reenters host (levels + 1) task s := by
  obtain ⟨left, outer, inner, form, scope, x, u, houter, hinner, hbegins, hagain⟩ := h
  exact ⟨left, outer, inner, form, scope, x, u, houter, hinner, .asks hasks hbegins, hagain⟩

variable {R : Reserve}

theorem isScripted_of_allows {p : Procedure Value} {args : List Value} (h : (reserving R).Allows (.call p args)) :
    p.isScripted = false :=
  (h.1 0).isScripted

/-- A task that makes no function and is given the levels it needs comes to an end, or re-enters. -/
theorem reenters_of_exhausted (hR : R.IsUsable) {levels : Nat} {task : Task} {s u : Store}
    (htask : (reserving R).Allows task) (hs : s.Clear R) (hneed : task.need ≤ levels)
    (h : run Host.bare levels task s = .error .exhausted u) : Reenters Host.bare levels task s := by
  have hlawful := lawful_reserving hR
  induction levels generalizing task s with
  | zero => exact absurd task.need_pos (Nat.not_lt_of_le hneed)
  | succ levels ih =>
    -- levels were exhausted by something that was asked for: either it needs less, or it is the re-entry
    have hstep := keeps_step hlawful htask s hs
    obtain ⟨asked, t, hasks, hasked⟩ := hstep.exists_of_exhausted
      (fun other x hother hx => hlawful.serves levels hother.1 hx) h
    obtain ⟨⟨hallowed, hbelow⟩, ht, -⟩ := hlawful.asks htask hs hasks
    rcases hbelow.need_lt with hless | ⟨p, args, rfl, hscripted⟩ | ⟨outer, inner, form, scope, rfl, rfl, houter, hinner⟩
    · exact .of_asked hasks (ih hallowed ht (by omega) hasked)
    · simp [isScripted_of_allows htask] at hscripted
    · exact ⟨levels, outer, inner, form, scope, s, t, houter, hinner, .refl _ _ _, hasks⟩

/-- If `core/apply` and the member form are reserved as well, nothing re-enters. -/
theorem not_reenters (hR : R.IsUsable) (happly : Special.apply.name ∈ R.names) (hmember : Special.member.name ∈ R.names)
    {levels : Nat} {task : Task} {s : Store} (htask : (reserving R).Allows task) (hs : s.Clear R) :
    ¬Reenters Host.bare levels task s := by
  rintro ⟨left, outer, inner, form, scope, t, u, houter, -, hbegins, -⟩
  have hallowed := ((lawful_reserving hR).begins hbegins htask hs).1
  have hname : outer.name ∉ R.names := (hallowed.1 0).name
  cases outer with
  | apply => exact hname happly
  | member => exact hname hmember
  | _ => cases houter

end Eval

/-! ### Sources -/

/-- What has to be reserved in a fresh root scope so that no function can be made. -/
def functionReserve : Reserve := ⟨["fn"], [3]⟩

/-- What has to be reserved there so that nothing can re-enter either. -/
def applyingReserve : Reserve := ⟨["fn", ".", "core/apply"], [3, 0, 6]⟩

theorem isUsable_functionReserve : functionReserve.IsUsable where
  function := by decide
  unnamed := by decide
  targets {kind name} h := by cases kind <;> cases h <;> decide

theorem isUsable_applyingReserve : applyingReserve.IsUsable where
  function := by decide
  unnamed := by decide
  targets {kind name} h := by cases kind <;> cases h <;> decide

theorem Store.clear_newBase :
    (Store.empty.newBase .empty).2.Clear functionReserve ∧ (Store.empty.newBase .empty).2.Clear applyingReserve :=
  ⟨.of_isClear (by decide +kernel), .of_isClear (by decide +kernel)⟩

theorem Form.Clear.read {R : Reserve} {number : Nat} {source : String}
    (h : (Document.read number source : Document Value).root.all (Form.avoids R.names) = true) :
    (Document.read number source : Document Value).root.Clear R := by
  refine ⟨h, Form.all_imp (fun form hform => ?_) (Document.isBare_read number source)⟩
  simp [(Form.isBare_iff.mp hform).2.1]

namespace Interpreter

open Eval (Finished Reenters)

theorem finished_or_reenters {R : Reserve} (hR : R.IsUsable) (settings : Settings) (scope : Scope) {levels : Nat}
    {s : Store} (hs : s.Clear R) {source : String}
    (hsource : (Document.read s.documents source : Document Value).root.all (Form.avoids R.names) = true)
    (hlevels : 3 * (Document.read s.documents source : Document Value).root.weight + 3 ≤ levels) :
    Finished (evalSource ⟨Host.bare, settings, scope, levels⟩ source s) ∨
      Reenters Host.bare levels (.evaluate (Document.read s.documents source).root scope)
        { s with documents := s.documents + 1 } := by
  rcases evalSource_cases ⟨Host.bare, settings, scope, levels⟩ source s with ⟨error, herror⟩ | hevaluate
  · exact .inl (.inr ⟨error, s, herror⟩)
  · rw [hevaluate]
    refine (Eval.finished_or_exhausted _).imp_right fun ⟨t, ht⟩ => ?_
    exact Eval.reenters_of_exhausted hR (Form.Clear.read hsource) (hs.of_eq rfl rfl) hlevels ht

/-- A source that makes no function comes to an end within a depth that depends on the source only, unless it makes
    `core/apply` or a member form apply one of the two to its own form; and if it uses neither, it does come to an
    end. -/
theorem evalSource_finishes {source : String}
    (h : (Document.read 0 source : Document Value).root.all (Form.avoids ["fn"]) = true) :
    ∃ depth, ∀ settings, ∀ levels ≥ depth,
      let fresh := create Host.bare settings Library.empty Store.empty
      let outcome := evalSource { fresh.1 with levels := levels } source fresh.2
      (Finished outcome ∨
        Reenters Host.bare levels (.evaluate (Document.read 0 source).root fresh.1.scope)
          { fresh.2 with documents := fresh.2.documents + 1 }) ∧
      ((Document.read 0 source : Document Value).root.all (Form.avoids ["fn", ".", "core/apply"]) = true →
        Finished outcome) := by
  refine ⟨3 * (Document.read 0 source : Document Value).root.weight + 3, ?_⟩
  intro settings levels hlevels
  obtain ⟨hfunction, happlying⟩ := Store.clear_newBase
  have hdocuments := Store.documents_newBase Store.empty Library.empty
  dsimp only [create]
  generalize Store.empty.newBase Library.empty = base at hfunction happlying hdocuments ⊢
  obtain ⟨scope, s⟩ := base
  have hread : Document.read s.documents source = (Document.read 0 source : Document Value) := by
    rw [show s.documents = 0 from hdocuments]
  rw [← hread] at h hlevels ⊢
  refine ⟨finished_or_reenters isUsable_functionReserve settings scope hfunction h hlevels, fun hmore => ?_⟩
  refine (finished_or_reenters isUsable_applyingReserve settings scope happlying hmore hlevels).resolve_right ?_
  exact Eval.not_reenters isUsable_applyingReserve (by decide) (by decide) (Form.Clear.read hmore)
    (happlying.of_eq rfl rfl)

/-- A source that makes no function and applies nothing. -/
def finiteSource : String := "(let [x [1]] (if x (do (def y #'x) @y)))"

theorem evalSource_finishes_finiteSource :
    (Document.read 0 finiteSource : Document Value).root.all (Form.avoids ["fn"]) = true ∧
    (Document.read 0 finiteSource : Document Value).root.all (Form.avoids ["fn", ".", "core/apply"]) = true ∧
    ∃ depth, ∀ settings, ∀ levels ≥ depth,
      let fresh := create Host.bare settings Library.empty Store.empty
      Finished (evalSource { fresh.1 with levels := levels } finiteSource fresh.2) := by
  have hcheck : (Document.read 0 finiteSource : Document Value).root.all (Form.avoids ["fn"]) = true ∧
      (Document.read 0 finiteSource : Document Value).root.all (Form.avoids ["fn", ".", "core/apply"]) = true := by
    decide +kernel
  obtain ⟨depth, hdepth⟩ := evalSource_finishes hcheck.1
  exact ⟨hcheck.1, hcheck.2, depth, fun settings levels hlevels => (hdepth settings levels hlevels).2 hcheck.2⟩

end Interpreter

namespace Eval

/-! ### Tasks without end -/

section Endless

variable {α β : Type} {host : Host} {task : Task} {form : Code} {scope : Scope} {s t : Store} {v : Value}

theorem bind_exhausted {p : Eval α} {f : α → Eval β} (h : p s = .error .exhausted t) :
    (p >>= f) s = .error .exhausted t := by
  rw [bind_apply, h]
  rfl

theorem mapError_exhausted {p : Eval α} {f : Error → Error} (h : p s = .error .exhausted t) :
    mapError f p s = .error .exhausted t := by
  rw [mapError, h]

/-- A task exhausts any number of levels. -/
def Spins (host : Host) (task : Task) (s : Store) : Prop :=
  ∀ levels, ∃ t, run host levels task s = .error .exhausted t

/-- A task leaves the store as it is and gives `v`, whenever there are levels enough. -/
def Gives (host : Host) (task : Task) (s : Store) (v : Value) : Prop :=
  ∀ levels, run host levels task s = .ok v s ∨ ∃ t, run host levels task s = .error .exhausted t

theorem gives_of_run (levels : Nat) (h : run host levels task s = .ok v s) : Gives host task s v := by
  intro more
  rcases finished_or_exhausted (run host more task s) with hfinished | hexhausted
  · refine .inl ?_
    -- of the two runs, the one with more levels ends as the other does
    rcases Nat.le_total levels more with hle | hle
    · rw [run_eq_of_le hle (by simp [h]), h]
    · have hends : ∀ t, run host more task s ≠ .error .exhausted t := by
        rcases hfinished with ⟨u, t, hmore⟩ | ⟨error, t, hmore⟩ <;> simp [hmore]
      rw [← run_eq_of_le hle hends, h]
  · exact .inr hexhausted

theorem Spins.of_step (h : ∀ levels, ∃ t, step host (run host levels) task s = .error .exhausted t) :
    Spins host task s := by
  intro levels
  cases levels with
  | zero => exact ⟨s, rfl⟩
  | succ levels => exact h levels

theorem Spins.of_evalForm (hexpand : s.expandOnce? scope form = none)
    (h : ∀ levels, ∃ t, evalForm host (run host levels) form scope s = .error .exhausted t) :
    Spins host (.evaluate form scope) s := by
  refine .of_step fun levels => ?_
  obtain ⟨t, ht⟩ := h levels
  refine ⟨t, ?_⟩
  show (expand scope form >>= fun form => through form (evalForm host (run host levels) form scope)) s = _
  rw [bind_ok (expand_ok hexpand)]
  exact mapError_exhausted ht

/-- What applies to a form goes on for ever if the special form that it applies does. -/
theorem exists_exhausted_applyWith {go : Task → Eval Value} {identity : Nat} {special : Special}
    (h : ∃ t, go (.invoke special form scope) s = .error .exhausted t) (args : Eval (List Value)) :
    ∃ t, applyWith host go form (.function identity (.special special)) scope args s = .error .exhausted t := by
  obtain ⟨t, ht⟩ := h
  exact ⟨t, mapError_exhausted ht⟩

/-- A form that makes `core/apply` apply itself hands it the same form for ever. -/
theorem spins_apply {f args : Code} {identity : Nat} {items : List Value} (hform : form.arguments = [f, args])
    (hf : Gives host (.evaluate f scope) s (.function identity (.special .apply)))
    (hargs : Gives host (.evaluate args scope) s v) (hitems : v.toSeq = .ok items) :
    Spins host (.invoke .apply form scope) s := by
  intro levels
  induction levels with
  | zero => exact ⟨s, rfl⟩
  | succ levels ih =>
    show ∃ t, evalApply host (run host levels) form scope s = _
    unfold evalApply
    rw [hform]
    rcases hf levels with hf | ⟨t, hf⟩
    · rcases hargs levels with hargs | ⟨t, hargs⟩
      · have hall : evaluateAll (run host levels) scope [f, args] s =
            .ok [.function identity (.special .apply), v] s := by
          have hlast : evaluateAll (run host levels) scope [args] s = .ok [v] s := by
            rw [evaluateAll, bind_ok hargs]
            rfl
          rw [evaluateAll, bind_ok hf, bind_ok hlast]
          rfl
        rw [bind_ok hall]
        show ∃ t, (ofExcept v.toSeq >>= _) s = _
        rw [hitems]
        show ∃ t, applyToValues host (run host levels) form (.function identity (.special .apply)) scope items s = _
        exact exists_exhausted_applyWith ih (pure items)
      · refine ⟨t, bind_exhausted ?_⟩
        rw [evaluateAll, bind_ok hf]
        exact bind_exhausted (bind_exhausted hargs)
    · exact ⟨t, bind_exhausted (bind_exhausted hf)⟩

/-- A call goes on for ever if the special form that it calls does. -/
theorem spins_list {head : Code} {args : List Code} {identity : Nat} {special : Special} (hkind : form.kind = .list)
    (hself : s.expandOnce? scope form = none) (hchildren : form.children = head :: args)
    (hparts : s.expandAll scope form.children = (form.children, s))
    (hhead : Gives host (.evaluate head scope) s (.function identity (.special special)))
    (h : Spins host (.invoke special form scope) s) : Spins host (.evaluate form scope) s := by
  refine .of_evalForm hself fun levels => ?_
  have hall : expandAll scope form.children s = .ok (head :: args) s := by
    show Result.ok (s.expandAll scope form.children).1 (s.expandAll scope form.children).2 = _
    rw [hparts, hchildren]
  unfold evalForm
  rw [hkind]
  show ∃ t, evalList host (run host levels) form scope s = _
  unfold evalList
  rw [bind_ok hall]
  rcases hhead levels with hhead | ⟨t, hhead⟩
  · show ∃ t, (run host levels (.evaluate head scope) >>= _) s = _
    rw [bind_ok hhead]
    exact exists_exhausted_applyWith (h levels) _
  · exact ⟨t, bind_exhausted hhead⟩

theorem spins_sequence {first : Code} {rest : List Code} (hform : form.arguments = first :: rest)
    (h : Spins host (.evaluate first scope) s) : Spins host (.invoke .sequence form scope) s := by
  refine .of_step fun levels => ?_
  obtain ⟨t, ht⟩ := h levels
  refine ⟨t, bind_exhausted ?_⟩
  rw [hform, evaluateAll]
  exact bind_exhausted ht

theorem spins_document {identity : Nat} (hkind : form.kind = .document)
    (hdo : s.get scope "do" = .ok (.function identity (.special .sequence)))
    (h : Spins host (.invoke .sequence form scope) s) : Spins host (.evaluate form scope) s := by
  refine .of_evalForm (s.expandOnce?_eq_none scope (by simp [hkind]) (by simp [hkind])) fun levels => ?_
  unfold evalForm
  rw [hkind]
  show ∃ t, evalSugar host (run host levels) form scope s = _
  unfold evalSugar
  rw [hkind]
  show ∃ t, (lookup scope "do" >>= _) s = _
  rw [bind_ok (lookup_ok hdo)]
  exact exists_exhausted_applyWith (h levels) _

end Endless

end Eval

theorem Store.expandAll_eq_self (s : Store) (scope : Scope) {forms : List Code}
    (h : ∀ form ∈ forms, form.kind ≠ .varQuote ∧ form.kind ≠ .list) : s.expandAll scope forms = (forms, s) := by
  induction forms with
  | nil => rfl
  | cons form rest ih =>
    obtain ⟨hq, hl⟩ := h form (by simp)
    rw [Store.expandAll, s.expand_eq_self (s.expandOnce?_eq_none scope hq hl)]
    dsimp only
    rw [ih fun part hpart => h part (List.mem_cons_of_mem _ hpart)]

namespace Interpreter

/-- A source that makes `core/apply` apply itself. -/
def selfApplied : String := "(core/apply core/apply [])"

/-- The parts of a form, each with its kind, its text and the number of its own parts. -/
def outline (form : Code) : List (FormKind × Option String × Nat) :=
  form.children.map fun part => (part.kind, part.text?, part.children.length)

theorem spins_selfApplied {host : Host} {s : Store} {scope : Scope} (hstd : s.Standard scope) {identity : Nat}
    (happly : s.get scope "core/apply" = .ok (.function identity (.special .apply))) :
    Eval.Spins host (.evaluate (Document.read 0 selfApplied).root scope) s := by
  have hcheck : (Document.read 0 selfApplied : Document Value).root.kind = .document ∧
      (Document.read 0 selfApplied : Document Value).root.children.map (fun form => (form.kind, outline form)) =
        [(.list, [(.symbol, some "core/apply", 0), (.symbol, some "core/apply", 0), (.vector, some "[]", 0)])] := by
    decide +kernel
  generalize (Document.read 0 selfApplied : Document Value).root = root at hcheck ⊢
  obtain ⟨hroot, houtline⟩ := hcheck
  obtain ⟨form, hchildren, hform⟩ := List.map_eq_singleton_iff.mp houtline
  obtain ⟨hkind, hparts⟩ := Prod.mk.inj hform
  obtain ⟨head, _, hheads, hhead, hrest⟩ := List.map_eq_cons_iff.mp hparts
  obtain ⟨f, _, rfl, hf, hrest⟩ := List.map_eq_cons_iff.mp hrest
  obtain ⟨args, rfl, hargs⟩ := List.map_eq_singleton_iff.mp hrest
  simp only [Prod.mk.injEq] at hhead hf hargs
  -- head and first argument are the same symbol, so what is applied is what applies
  have hsymbol : ∀ symbol : Code, symbol.kind = .symbol → symbol.text? = some "core/apply" →
      Eval.Gives host (.evaluate symbol scope) s (.function identity (.special .apply)) := by
    intro symbol hsymbol htext
    refine Eval.gives_of_run 1 (Eval.run_evaluate_ok (by simp [hsymbol]) (by simp [hsymbol]) ?_)
    unfold Eval.evalForm
    rw [hsymbol]
    refine Eval.lookup_ok ?_
    rw [Form.text, htext]
    exact happly
  have hvector : Eval.Gives host (.evaluate args scope) s (.vector []) := by
    refine Eval.gives_of_run 2 ?_
    refine Shape.denotes_vector Shape.denoteAll_nil args host s scope 2 ?_ hstd (Nat.le_refl _)
    rw [Form.shape_eq, hargs.1, List.length_eq_zero_iff.mp hargs.2.2]
    rfl
  obtain ⟨n, hdo⟩ := hstd.special .sequence (by decide)
  have harguments : root.arguments = [form] := by rw [Form.arguments, hroot, hchildren]
  refine Eval.spins_document hroot hdo (Eval.spins_sequence harguments ?_)
  have hname : memberName? head.text = none := by
    rw [Form.text, hhead.2.1]
    decide
  refine Eval.spins_list hkind (s.expandOnce?_of_head scope hkind hheads hhead.1 hname) hheads
    (s.expandAll_eq_self scope ?_) (hsymbol head hhead.1 hhead.2.1) ?_
  · simp [hheads, hhead.1, hf.1, hargs.1]
  · refine Eval.spins_apply ?_ (hsymbol f hf.1 hf.2.1) hvector rfl
    rw [Form.arguments, hkind, hheads]
    rfl

/-- There is no function in `selfApplied` and nothing is defined, yet it exhausts any number of levels. -/
theorem not_finished_selfApplied :
    (Document.read 0 selfApplied : Document Value).root.all (fun form =>
      form.kind != .lambda && form.text? != some "fn" && form.text? != some "def") = true ∧
    ∀ settings levels,
      let fresh := create Host.bare settings Library.empty Store.empty
      ¬Eval.Finished (evalSource { fresh.1 with levels := levels } selfApplied fresh.2) := by
  have hcheck : (Document.read 0 selfApplied : Document Value).root.all (fun form =>
        form.kind != .lambda && form.text? != some "fn" && form.text? != some "def") = true ∧
      (Document.read 0 selfApplied : Document Value).errors.isEmpty = true ∧
      (Store.inBase "core/apply").bind Value.special? = some .apply := by decide +kernel
  obtain ⟨havoids, herrors, hbase⟩ := hcheck
  refine ⟨havoids, fun settings levels => ?_⟩
  obtain ⟨v, hv, hspecial⟩ := Option.bind_eq_some_iff.mp hbase
  obtain ⟨identity, rfl⟩ := Value.exists_of_special? hspecial
  have happly := Store.get_of_inBase hv
  have hstd := Store.standard_newBase
  have hdocuments := Store.documents_newBase Store.empty Library.empty
  dsimp only [create]
  generalize Store.empty.newBase Library.empty = base at happly hstd hdocuments ⊢
  obtain ⟨scope, s⟩ := base
  have hread : Document.read s.documents selfApplied = (Document.read 0 selfApplied : Document Value) := by
    rw [show s.documents = 0 from hdocuments]
  rw [evalSource_of_errors_eq_nil _ (by rw [hread]; exact List.isEmpty_iff.mp herrors), hread]
  have hnext : { s with documents := s.documents + 1 }.Standard scope := ⟨hstd.special, hstd.builtin, hstd.literal⟩
  obtain ⟨t, ht⟩ := spins_selfApplied hnext happly levels
  rintro (⟨u, x, hfinished⟩ | ⟨error, x, hfinished⟩)
  · cases ht.symm.trans hfinished
  · cases ht.symm.trans hfinished

end Interpreter

end Lisplet
