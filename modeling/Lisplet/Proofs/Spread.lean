import Lisplet.Proofs.ListCall
import Lisplet.Proofs.Recursion

/-! # Calls with spread arguments

`(core/apply f [a b])` and `(f a b)` come to the same: the arguments are evaluated from left to right, and the
function is called on their values. The list expands its arguments first and evaluates them itself; the other way goes
through a special form, a vector, the function that makes a vector, and the items of its value, and expands each
argument when its turn comes. But what is done there leaves the store alone, so the same happens in the same stores,
unless an argument calls a member: then the vars and made forms are numbered in another order. What differs otherwise
is how deep it happens, and which forms a failure is attributed to. -/

namespace Lisplet

open EStateM (Result)
open Function (Injective)

/-- `spread` applies what is called `name` to the items of a vector of `args`, and `call` calls it on `args`. -/
structure Form.Spreads (spread call : Code) (name : String) (args : List Code) : Prop where
  list : spread.kind = .list
  parts : ∃ apply f vector, spread.children = [apply, f, vector] ∧
    (apply.kind = .symbol ∧ apply.text? = some "core/apply") ∧
    (f.kind = .symbol ∧ f.text? = some name) ∧
    (vector.kind = .vector ∧ vector.children = args)
  callList : call.kind = .list
  callParts : ∃ f, call.children = f :: args ∧ f.kind = .symbol ∧ f.text? = some name

namespace Form.Spreads

variable {spread call : Code} {name : String} {args : List Code}

theorem exists_arguments (h : spread.Spreads call name args) :
    ∃ head f vector, spread.children = [head, f, vector] ∧ spread.arguments = [f, vector] ∧
      (head.kind = .symbol ∧ head.text = "core/apply") ∧ (f.kind = .symbol ∧ f.text = name) ∧
      (vector.kind = .vector ∧ vector.children = args) := by
  obtain ⟨head, f, vector, hchildren, ⟨hhead, happly⟩, ⟨hf, hname⟩, hvector⟩ := h.parts
  refine ⟨head, f, vector, hchildren, ?_, ⟨hhead, ?_⟩, ⟨hf, ?_⟩, hvector⟩
  · rw [arguments, h.list, hchildren, List.tail_cons]
  · rw [text, happly, Option.getD_some]
  · rw [text, hname, Option.getD_some]

theorem exists_call (h : spread.Spreads call name args) :
    ∃ f, call.children = f :: args ∧ f.kind = .symbol ∧ f.text = name := by
  obtain ⟨f, hchildren, hf, hname⟩ := h.callParts
  exact ⟨f, hchildren, hf, by rw [text, hname, Option.getD_some]⟩

end Form.Spreads

namespace Eval

variable {α β : Type} {host : Host} {scope : Scope} {s : Store}

/-! ### Causes of failures -/

/-- The process, of whose failures only the cause is kept. -/
def unplaced (p : Eval α) : Eval α :=
  mapError (fun error => .ofCause error.cause) p

theorem unplaced_mapError {change : Error → Error} (h : ∀ error, (change error).cause = error.cause) (p : Eval α) :
    unplaced (mapError change p) = unplaced p := by
  funext s
  unfold unplaced mapError
  cases p s with
  | ok a t => rfl
  | error stop t =>
    cases stop with
    | failed error => simp only [h]
    | exhausted => rfl

theorem unplaced_attributed (form : Code) (p : Eval α) : unplaced (attributed form p) = unplaced p :=
  unplaced_mapError (fun error => (Error.Becomes.attributeTo form error).cause) p

theorem unplaced_through (form : Code) (p : Eval α) : unplaced (through form p) = unplaced p :=
  unplaced_mapError (fun error => (Error.Becomes.through form error).cause) p

theorem unplaced_bind (p : Eval α) (f : α → Eval β) :
    unplaced (p >>= f) = unplaced p >>= fun a => unplaced (f a) := by
  funext s
  rw [bind_apply]
  unfold unplaced
  rw [mapError, mapError, bind_apply]
  cases p s with
  | ok a t => rfl
  | error stop t => cases stop <;> rfl

theorem finished_unplaced {p : Eval Value} : Finished (unplaced p s) ↔ Finished (p s) := by
  unfold unplaced mapError Finished
  cases p s with
  | ok v t => simp
  | error stop t => cases stop <;> simp

theorem Finished.ne_exhausted {result : Result Stop Store Value} (h : Finished result) (t : Store) :
    result ≠ .error .exhausted t := by
  rcases h with ⟨v, u, rfl⟩ | ⟨error, u, rfl⟩ <;> simp

theorem not_finished_exhausted (t : Store) : ¬Finished (.error .exhausted t) :=
  fun h => h.ne_exhausted t rfl

/-! ### Arguments and call -/

/-- The values of argument forms are found, within `depth` levels, and a procedure is called on them, within
    `levels`. -/
def calling (host : Host) (depth levels : Nat) (p : Procedure Value) (args : List Code) (scope : Scope) : Eval Value := do
  let values ← evaluateAll (run host depth) scope args
  run host levels (.call p values)

theorem evaluateAll_eq_of_le {depth more : Nat} (hle : depth ≤ more) {forms : List Code}
    (hends : ∀ t, evaluateAll (run host depth) scope forms s ≠ .error .exhausted t) :
    evaluateAll (run host more) scope forms s = evaluateAll (run host depth) scope forms s := by
  have hkeeps : Keeps free free.Allows _ fun go => evaluateAll go scope forms :=
    keeps_evaluateAll fun part _ => isOpen_free.allows (.evaluate part scope)
  exact (hkeeps s trivial).mono ((lawful_free host).serves depth) (fun _ _ => run_eq_of_le hle) hends

theorem calling_eq_of_le {depth more levels most : Nat} (hdepth : depth ≤ more) (hlevels : levels ≤ most)
    {p : Procedure Value} {args : List Code} (h : Finished (calling host depth levels p args scope s)) :
    calling host more most p args scope s = calling host depth levels p args scope s := by
  have hends := h.ne_exhausted
  unfold calling at hends ⊢
  rw [bind_apply] at hends ⊢
  have hargs : evaluateAll (run host more) scope args s = evaluateAll (run host depth) scope args s := by
    refine evaluateAll_eq_of_le hdepth fun t ht => hends t ?_
    rw [ht]
    rfl
  rw [bind_apply, hargs]
  cases hvalues : evaluateAll (run host depth) scope args s with
  | ok values t =>
    rw [hvalues] at hends
    exact run_eq_of_le hlevels hends
  | error => rfl

/-- What no var quote is among is steady. -/
theorem steady_of_plain {go : Task → Eval Value} {forms : List Code} (h : ∀ form ∈ forms, form.kind ≠ .varQuote)
    (t : Store) : Steady go scope s t forms := by
  induction forms generalizing t with
  | nil => exact .nil
  | cons form rest ih =>
    obtain ⟨hform, hrest⟩ := List.forall_mem_cons.mp h
    refine .cons (fun name hname => ?_) fun _ u _ => ih hrest u
    rw [Form.varQuoted?, if_neg hform] at hname
    cases hname

theorem bind_congr_left {p q : Eval α} {t : Store} (h : p s = q t) (f : α → Eval β) : (p >>= f) s = (q >>= f) t := by
  rw [bind_apply, bind_apply, h]

theorem unplaced_congr {p q : Eval α} {t : Store} (h : p s = q t) : unplaced p s = unplaced q t :=
  mapError_congr h _

/-- Whether outcomes agree does not depend on which forms failures are attributed to. -/
theorem agrees_unplaced {f : Nat → Nat} {r : α → α} {p q : Eval α} {t : Store} :
    Agrees f r (unplaced p s) (unplaced q t) ↔ Agrees f r (p s) (q t) := by
  refine ⟨fun h => ?_, fun h => h.mapError (fun _ => rfl) fun _ => rfl⟩
  unfold unplaced Eval.mapError at h
  generalize p s = x at h ⊢
  generalize q t = y at h ⊢
  cases x with
  | ok a u =>
    cases y with
    | ok b v => exact h
    | error stop v => cases stop <;> cases h
  | error stop u =>
    cases y with
    | ok b v => cases stop <;> cases h
    | error stop' v =>
      cases stop with
      | failed error =>
        cases stop' with
        | failed other =>
          cases h with
          | failed hcause hs => exact .failed (show other.cause = error.cause from hcause) hs
        | exhausted => cases h
      | exhausted =>
        cases stop' with
        | failed other => cases h
        | exhausted => exact h

theorem Agrees.finished_iff {f : Nat → Nat} {x y : Result Stop Store Value} (h : Agrees f (Value.rename f) x y) :
    Finished x ↔ Finished y := by
  cases h <;> simp [Finished]

/-- A list whose head means a procedure calls it on the values of the other parts, which are expanded before. -/
theorem unplaced_run_call {call : Code} {name : String} {args : List Code} {identity : Nat} {p : Procedure Value}
    (hkind : call.kind = .list) (hparts : ∃ f, call.children = f :: args ∧ f.kind = .symbol ∧ f.text = name)
    (hmember : memberName? name = none) (hf : s.get scope name = .ok (.function identity (.procedure p)))
    (levels : Nat) :
    unplaced (run host (levels + 2) (.evaluate call scope)) s =
      unplaced (calling host (levels + 1) (levels + 1) p (s.expandAll scope args).1 scope)
        (s.expandAll scope args).2 := by
  obtain ⟨f, hchildren, hsymbol, hname⟩ := hparts
  have hlist := run_evaluate_list hkind hchildren hsymbol (hname ▸ hmember) host (levels + 1) scope s
  have hhead : run host (levels + 1) (.evaluate f scope) (s.expandAll scope args).2 =
      .ok (.function identity (.procedure p)) (s.expandAll scope args).2 :=
    run_symbol_ok hsymbol (hname ▸ Store.get_expandAll hf args)
  refine (unplaced_congr hlist).trans ?_
  rw [unplaced_through, unplaced_congr (bind_ok hhead)]
  show unplaced (attributed call (evaluateAll (run host (levels + 1)) scope (s.expandAll scope args).1 >>= fun values =>
    run host (levels + 1) (.call p values))) _ = _
  rw [unplaced_attributed]
  rfl

theorem not_finished_run_call {call : Code} {name : String} {args : List Code}
    (hkind : call.kind = .list) (hparts : ∃ f, call.children = f :: args ∧ f.kind = .symbol ∧ f.text = name)
    (hmember : memberName? name = none) : ¬Finished (run host 1 (.evaluate call scope) s) := by
  obtain ⟨f, hchildren, hsymbol, hname⟩ := hparts
  have hlist := run_evaluate_list hkind hchildren hsymbol (hname ▸ hmember) host 0 scope s
  rw [Nat.zero_add] at hlist
  rw [hlist]
  exact not_finished_exhausted _

/-! ### Spreading -/

section Spread

variable {spread call : Code} {name : String} {args : List Code} {apply vec identity : Nat} {p : Procedure Value}

theorem run_spread_succ (h : spread.Spreads call name args) (host : Host) (levels : Nat) :
    ∃ head, head.kind = .symbol ∧ head.text = "core/apply" ∧ run host (levels + 1) (.evaluate spread scope) s =
      through spread (do
        let f ← run host levels (.evaluate head scope)
        applyToForms host (run host levels) spread f scope spread.arguments) s := by
  obtain ⟨head, f, vector, hchildren, harguments, ⟨hhead, hname⟩, ⟨hf, -⟩, hvector, -⟩ := h.exists_arguments
  have hmember : memberName? head.text = none := hname ▸ by decide
  have hself : s.expandAll scope [f, vector] = ([f, vector], s) :=
    s.expandAll_eq_self scope (by simp [hf, hvector])
  refine ⟨head, hhead, hname, ?_⟩
  rw [run_evaluate_list h.list hchildren hhead hmember, hself, harguments]

theorem unplaced_run_spread_succ (h : spread.Spreads call name args)
    (happly : s.get scope "core/apply" = .ok (.function apply (.special .apply))) (levels : Nat) :
    unplaced (run host (levels + 2) (.evaluate spread scope)) s =
      unplaced (evalApply host (run host levels) spread scope) s := by
  obtain ⟨head, hsymbol, hname, hspread⟩ := run_spread_succ h host (levels + 1)
  have hhead : run host (levels + 1) (.evaluate head scope) s = .ok (.function apply (.special .apply)) s :=
    run_symbol_ok hsymbol (hname ▸ happly)
  rw [unplaced_congr hspread, unplaced_through, unplaced_congr (bind_ok hhead)]
  show unplaced (attributed spread (evalApply host (run host levels) spread scope)) s = _
  rw [unplaced_attributed]

/-- The items that are spread are those of the vector that is made of the values of the arguments. -/
theorem unplaced_evalApply_spread (h : spread.Spreads call name args)
    (hvec : s.get scope "internal/vec" = .ok (.function vec (.procedure (.builtin .vec))))
    (hf : s.get scope name = .ok (.function identity (.procedure p))) (levels : Nat) :
    unplaced (evalApply host (run host (levels + 1)) spread scope) s =
      unplaced (do
        let v ← calling host levels levels (.builtin .vec) args scope
        let values ← ofExcept v.toSeq
        run host (levels + 1) (.call p values)) s := by
  obtain ⟨-, f, vector, -, harguments, -, ⟨hsymbol, hname⟩, hvector, rfl⟩ := h.exists_arguments
  have hhead : run host (levels + 1) (.evaluate f scope) s = .ok (.function identity (.procedure p)) s :=
    run_symbol_ok hsymbol (hname ▸ hf)
  have hstands : vector.kind.callable? = some (.procedure (.builtin .vec)) := by
    rw [hvector]
    rfl
  have hnode : run host (levels + 1) (.evaluate vector scope) s = _ := run_evaluate_node hstands hvec levels
  have happlied : evalApply host (run host (levels + 1)) spread scope s = (do
      let v ← run host (levels + 1) (.evaluate vector scope)
      let values ← ofExcept v.toSeq
      attributed spread (run host (levels + 1) (.call p values))) s := by
    unfold evalApply
    rw [harguments, evaluateAll, bind_assoc, bind_ok hhead]
    simp only [evaluateAll, bind_assoc, pure_bind]
    rfl
  rw [unplaced_congr happlied, unplaced_bind, unplaced_bind]
  simp only [unplaced_bind, unplaced_attributed]
  refine bind_congr_left ?_ _
  rw [unplaced_congr hnode, unplaced_through]
  show unplaced (attributed vector (calling host levels levels (.builtin .vec) vector.children scope)) s = _
  rw [unplaced_attributed]

theorem unplaced_run_spread (h : spread.Spreads call name args)
    (happly : s.get scope "core/apply" = .ok (.function apply (.special .apply)))
    (hvec : s.get scope "internal/vec" = .ok (.function vec (.procedure (.builtin .vec))))
    (hf : s.get scope name = .ok (.function identity (.procedure p))) (levels : Nat) :
    unplaced (run host (levels + 4) (.evaluate spread scope)) s =
      unplaced (calling host (levels + 1) (levels + 2) p args scope) s := by
  rw [unplaced_run_spread_succ h happly, unplaced_evalApply_spread h hvec hf]
  simp only [calling, bind_assoc]
  rfl

/-- Within less than four levels, not even a vector without arguments is made. -/
theorem not_finished_run_spread (h : spread.Spreads call name args)
    (happly : s.get scope "core/apply" = .ok (.function apply (.special .apply)))
    (hvec : s.get scope "internal/vec" = .ok (.function vec (.procedure (.builtin .vec))))
    (hf : s.get scope name = .ok (.function identity (.procedure p))) {levels : Nat} (hlevels : levels < 4) :
    ¬Finished (run host levels (.evaluate spread scope) s) := by
  match levels, hlevels with
  | 0, _ => exact not_finished_exhausted s
  | 1, _ =>
    obtain ⟨head, -, -, hspread⟩ := run_spread_succ h host 0
    rw [Nat.zero_add] at hspread
    rw [hspread]
    exact not_finished_exhausted s
  | 2, _ =>
    obtain ⟨-, f, vector, -, harguments, -⟩ := h.exists_arguments
    rw [← finished_unplaced, unplaced_run_spread_succ h happly, finished_unplaced, evalApply, harguments]
    exact not_finished_exhausted s
  | 3, _ =>
    rw [← finished_unplaced, unplaced_run_spread_succ h happly, unplaced_evalApply_spread h hvec hf, finished_unplaced]
    cases args with
    | nil => exact not_finished_exhausted s
    | cons arg rest => exact not_finished_exhausted s

/-- The arguments may be expanded before they are evaluated, but for the numbers of vars and made forms. -/
theorem exists_agrees_calling (hhost : host.Uniform) (hs : s.Closed) (hargs : ∀ arg ∈ args, arg.Bounded s.cells.size)
    (hplain : ∀ arg ∈ args, arg.kind ≠ .varQuote)
    (hf : s.get scope name = .ok (.function identity (.procedure p))) (depth levels : Nat) :
    ∃ f, Injective f ∧ (∀ i < s.cells.size, f i = i) ∧
      Agrees f (Value.rename f) (calling host (depth + 1) levels p args scope s)
        (calling host (depth + 1) levels p (s.expandAll scope args).1 scope (s.expandAll scope args).2) := by
  have hp : p.rename (skip s.cells.size) = p := by
    have hself := (hs.tied_self (Nat.le_refl _)).get scope name
    rw [hf] at hself
    have hvalue := Except.ok.inj hself
    rw [Value.rename_function] at hvalue
    exact (Callable.procedure.inj (Value.function.inj hvalue).2).symm
  exact exists_agrees_call hhost hs hargs (steady_of_plain hplain s) hp levels

/-- A list that applies a procedure to a vector of arguments and one that calls it on them, none of which is a var
    quote, come to an end in the same way. If none of the arguments calls a member, they come to the same value or fail
    for the same cause, and leave the same store, in which all that was bound and all that was called stands in the same
    order. Otherwise this is so but for the numbers of vars and made forms. The first takes two more levels at most, and
    the second no more than the first. -/
theorem run_evaluate_spread (host : Host) {s : Store} {scope : Scope} {spread call : Code} {name : String}
    {args : List Code} (h : spread.Spreads call name args) {apply vec identity : Nat} {p : Procedure Value}
    (happly : s.get scope "core/apply" = .ok (.function apply (.special .apply)))
    (hvec : s.get scope "internal/vec" = .ok (.function vec (.procedure (.builtin .vec))))
    (hf : s.get scope name = .ok (.function identity (.procedure p))) (hmember : memberName? name = none)
    (hplain : ∀ arg ∈ args, arg.kind ≠ .varQuote) (levels : Nat) :
    ((∀ arg ∈ args, arg.isMemberCall = false) →
      (Finished (run host levels (.evaluate call scope) s) →
        unplaced (run host (levels + 2) (.evaluate spread scope)) s =
          unplaced (run host levels (.evaluate call scope)) s) ∧
      (Finished (run host levels (.evaluate spread scope) s) →
        unplaced (run host levels (.evaluate call scope)) s =
          unplaced (run host levels (.evaluate spread scope)) s)) ∧
    (host.Uniform → s.Reachable host → (∀ arg ∈ args, arg.Bounded s.cells.size) →
      (Finished (run host levels (.evaluate call scope) s) →
        ∃ f, Injective f ∧ (∀ i < s.cells.size, f i = i) ∧ Agrees f (Value.rename f)
          (run host (levels + 2) (.evaluate spread scope) s) (run host levels (.evaluate call scope) s)) ∧
      (Finished (run host levels (.evaluate spread scope) s) →
        ∃ f, Injective f ∧ (∀ i < s.cells.size, f i = i) ∧ Agrees f (Value.rename f)
          (run host levels (.evaluate spread scope) s) (run host levels (.evaluate call scope) s))) := by
  have hcall : ∀ levels, unplaced (run host (levels + 2) (.evaluate call scope)) s =
      unplaced (calling host (levels + 1) (levels + 1) p (s.expandAll scope args).1 scope) (s.expandAll scope args).2 :=
    unplaced_run_call h.callList h.exists_call hmember hf
  have hspread : ∀ levels, unplaced (run host (levels + 4) (.evaluate spread scope)) s =
      unplaced (calling host (levels + 1) (levels + 2) p args scope) s := unplaced_run_spread h happly hvec hf
  have hcallEnds : Finished (run host levels (.evaluate call scope) s) → ∃ more, levels = more + 2 ∧
      Finished (calling host (more + 1) (more + 1) p (s.expandAll scope args).1 scope (s.expandAll scope args).2) := by
    intro hfinished
    match levels with
    | 0 => exact absurd hfinished (not_finished_exhausted s)
    | 1 => exact absurd hfinished (not_finished_run_call h.callList h.exists_call hmember)
    | more + 2 => exact ⟨more, rfl, by rwa [← finished_unplaced, hcall, finished_unplaced] at hfinished⟩
  have hspreadEnds : Finished (run host levels (.evaluate spread scope) s) → ∃ more, levels = more + 4 ∧
      Finished (calling host (more + 1) (more + 2) p args scope s) := by
    intro hfinished
    rcases Nat.lt_or_ge levels 4 with hlevels | hlevels
    · exact absurd hfinished (not_finished_run_spread h happly hvec hf hlevels)
    · obtain ⟨more, rfl⟩ := Nat.exists_eq_add_of_le' hlevels
      exact ⟨more, rfl, by rwa [← finished_unplaced, hspread, finished_unplaced] at hfinished⟩
  refine ⟨fun hnone => ?_, fun huniform hs hargs => ?_⟩
  · rw [Store.expandAll_plain hplain hnone] at hcall hcallEnds
    refine ⟨fun hfinished => ?_, fun hfinished => ?_⟩
    · obtain ⟨more, rfl, hends⟩ := hcallEnds hfinished
      rw [hcall, hspread]
      exact unplaced_congr (calling_eq_of_le (Nat.le_refl _) (Nat.le_succ _) hends)
    · obtain ⟨more, rfl, hends⟩ := hspreadEnds hfinished
      rw [hcall (more + 2), hspread]
      exact unplaced_congr (calling_eq_of_le (by omega) (Nat.le_succ _) hends)
  · have hclosed := hs.closed huniform
    refine ⟨fun hfinished => ?_, fun hfinished => ?_⟩
    · obtain ⟨more, rfl, hends⟩ := hcallEnds hfinished
      obtain ⟨f, hinjective, hfixed, hagrees⟩ := exists_agrees_calling huniform hclosed hargs hplain hf more (more + 1)
      have hsame := calling_eq_of_le (Nat.le_refl (more + 1)) (Nat.le_succ (more + 1)) (hagrees.finished_iff.mpr hends)
      refine ⟨f, hinjective, hfixed, ?_⟩
      rw [← agrees_unplaced, hcall, hspread, unplaced_congr hsame, agrees_unplaced]
      exact hagrees
    · obtain ⟨more, rfl, hends⟩ := hspreadEnds hfinished
      obtain ⟨f, hinjective, hfixed, hagrees⟩ :=
        exists_agrees_calling huniform hclosed hargs hplain hf (more + 2) (more + 3)
      have hsame := calling_eq_of_le (show more + 1 ≤ more + 3 by omega) (Nat.le_succ (more + 2)) hends
      refine ⟨f, hinjective, hfixed, ?_⟩
      rw [← agrees_unplaced, hcall (more + 2), hspread, ← unplaced_congr hsame, agrees_unplaced]
      exact hagrees

/-- Arguments of which the last is what the one before it binds. -/
def spreadForm : Code := sourceForm "(core/apply core/str [1 (def x 2) x])"

/-- The call on the same arguments. -/
def spreadCall : Code :=
  ⟨.read 1 [], .list, .symbol (.read 1 [0]) "core/str" :: (spreadForm.children[2]?.getD default).children, none, .empty⟩

theorem spreads_spreadForm :
    spreadForm.Spreads spreadCall "core/str" (spreadForm.children[2]?.getD default).children := by
  have hcheck : spreadForm.kind = .list ∧ spreadForm.children.map (fun part => (part.kind, part.text?)) =
      [(.symbol, some "core/apply"), (.symbol, some "core/str"), (.vector, some "[1 (def x 2) x]")] := by
    decide +kernel
  obtain ⟨hlist, hparts⟩ := hcheck
  obtain ⟨apply, _, hchildren, happly, hrest⟩ := List.map_eq_cons_iff.mp hparts
  obtain ⟨f, _, rfl, hf, hrest⟩ := List.map_eq_cons_iff.mp hrest
  obtain ⟨vector, rfl, hvector⟩ := List.map_eq_singleton_iff.mp hrest
  simp only [Prod.mk.injEq] at happly hf hvector
  refine ⟨hlist, ⟨apply, f, vector, hchildren, happly, hf, hvector.1, ?_⟩, rfl, _, rfl, rfl, rfl⟩
  rw [hchildren]
  rfl

theorem run_evaluate_spread_spreadForm :
    printed (freshOutcome spreadCall) = some "\"1#'x2\"" ∧
    unplaced (run Command.host (11 + 2) (.evaluate spreadForm freshCommand.1.scope)) freshCommand.2 =
      unplaced (run Command.host 11 (.evaluate spreadCall freshCommand.1.scope)) freshCommand.2 ∧
    ∃ f, Injective f ∧ (∀ i < freshCommand.2.cells.size, f i = i) ∧ Agrees f (Value.rename f)
      (run Command.host (11 + 2) (.evaluate spreadForm freshCommand.1.scope) freshCommand.2)
      (run Command.host 11 (.evaluate spreadCall freshCommand.1.scope) freshCommand.2) := by
  have hcheck : (Store.inBase "core/apply").bind Value.special? = some .apply ∧
      (Store.inBase "core/str").bind Value.builtin? = some .str ∧
      (spreadForm.children[2]?.getD default).children.all
        (fun arg => arg.kind != FormKind.varQuote && !arg.isMemberCall && arg.all Form.isBare) = true ∧
      printed (freshOutcome spreadCall) = some "\"1#'x2\"" := by decide +kernel
  obtain ⟨hspecial, hbuiltin, hargs, hprinted⟩ := hcheck
  simp only [List.all_eq_true, Bool.and_eq_true, bne_iff_ne, Bool.not_eq_true'] at hargs
  obtain ⟨apply, happly⟩ := exists_get_special hspecial
  obtain ⟨vec, hvec⟩ := exists_get_vec
  obtain ⟨identity, hf⟩ := exists_get_builtin hbuiltin
  have hfinished : Finished (freshOutcome spreadCall) := by
    rcases finished_or_exhausted (freshOutcome spreadCall) with h | ⟨t, h⟩
    · exact h
    · simp [h, printed] at hprinted
  obtain ⟨hexactly, hnumbered⟩ := run_evaluate_spread Command.host spreads_spreadForm happly hvec hf (by decide)
    (fun arg harg => (hargs arg harg).1.1) 11
  exact ⟨hprinted, (hexactly fun arg harg => (hargs arg harg).1.2).1 hfinished,
    (hnumbered Command.uniform_host Store.reachable_freshCommand fun arg harg =>
      Form.bounded_of_isBare (hargs arg harg).2 _).1 hfinished⟩

end Spread

end Eval

end Lisplet
