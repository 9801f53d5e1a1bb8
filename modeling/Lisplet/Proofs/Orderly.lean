import Lisplet.Eval.Run

/-! # What a task asks for

A step of a task asks for tasks one level down. `Asks` says so without looking into the step: its outcome hangs on
what is given for that task in that store. `Begins` follows this downwards and relates a task to all that is begun in
its course.

An orderly process asks for one task after the other. It goes on with each value it is given, and passes on anything
else: a failure as it is but for its place, which may be named and may gather source texts. That is all that is used
here to tell what a task has to do with those that are begun in its course. -/

namespace Lisplet

open EStateM (Result)

/-! ### Failures on their way out -/

/-- A failure and what it is further out: of the same cause, attributed to the same form if it is attributed at all,
    with a trail that goes on. -/
structure Error.Becomes (error later : Error) : Prop where
  cause : later.cause = error.cause
  place : ∀ place ∈ error.place, ∃ further ∈ later.place, further.form = place.form ∧ place.trail <+: further.trail

namespace Error.Becomes

variable {a b c : Error}

theorem refl (error : Error) : error.Becomes error :=
  ⟨rfl, fun place hplace => ⟨place, hplace, rfl, List.prefix_rfl⟩⟩

theorem trans (h : a.Becomes b) (h' : b.Becomes c) : a.Becomes c where
  cause := h'.cause.trans h.cause
  place place hplace := by
    obtain ⟨mid, hmid, hform, htrail⟩ := h.place place hplace
    obtain ⟨last, hlast, hform', htrail'⟩ := h'.place mid hmid
    exact ⟨last, hlast, hform'.trans hform, htrail.trans htrail'⟩

theorem attributeTo (form : Code) (error : Error) : error.Becomes (error.attributeTo form) := by
  unfold Error.attributeTo
  split
  · exact refl error
  · next hnone => exact ⟨rfl, by simp [hnone]⟩

theorem through (form : Code) (error : Error) : error.Becomes (error.through form) := by
  unfold Error.through
  dsimp only
  split
  · next place hplace =>
    refine ⟨rfl, fun named hnamed => ⟨_, rfl, ?_⟩⟩
    obtain rfl : place = named := by simpa [hplace] using hnamed
    exact ⟨rfl, List.prefix_append _ _⟩
  · next hnone => exact ⟨rfl, by simp [hnone]⟩

end Error.Becomes

namespace Eval

variable {α β : Type}

/-! ### Asking for tasks -/

open Classical in
/-- What `go` does, but for `task` in the store `t`, for which `given` is given. -/
noncomputable def instead (go : Task → Eval Value) (task : Task) (t : Store) (given : Result Stop Store Value) :
    Task → Eval Value :=
  fun other u => if other = task ∧ u = t then given else go other u

theorem instead_self (go : Task → Eval Value) (task : Task) (t : Store) (given : Result Stop Store Value) :
    instead go task t given task t = given := by
  simp [instead]

theorem instead_of_ne {go : Task → Eval Value} {task other : Task} {t u : Store} {given : Result Stop Store Value}
    (h : ¬(other = task ∧ u = t)) : instead go task t given other u = go other u := by
  simp [instead, h]

/-- Whether the outcome of a process hangs on what `go` gives for `task` in the store `t`. -/
def Asks (process : (Task → Eval Value) → Result Stop Store α) (go : Task → Eval Value) (task : Task) (t : Store) :
    Prop :=
  ∃ given, process (instead go task t given) ≠ process go

/-- In the course of doing `task` from `s` within `levels`, the task `later` is begun in the store `u`, and `left`
    levels are left for it. -/
inductive Begins (host : Host) : (levels : Nat) → (task : Task) → (s : Store) → (left : Nat) → (later : Task) →
    (u : Store) → Prop
  | refl (levels : Nat) (task : Task) (s : Store) : Begins host levels task s levels task s
  | asks {levels left : Nat} {task asked later : Task} {s t u : Store}
      (h : Asks (fun go => step host go task s) (run host levels) asked t)
      (hbegins : Begins host levels asked t left later u) : Begins host (levels + 1) task s left later u

/-! ### Orderly processes -/

/-- What becomes of a process that has asked for a task: it goes on with a value, and passes anything else on. -/
def resume (raise : Error → Error) (next : Value → Store → Result Stop Store α) :
    Result Stop Store Value → Result Stop Store α
  | .ok v t => next v t
  | .error (.failed error) t => .error (.failed (raise error)) t
  | .error .exhausted t => .error .exhausted t

/-- What becomes of a process when another takes over with its value. -/
def follow (f : α → Eval β) : Result Stop Store α → Result Stop Store β
  | .ok a t => f a t
  | .error stop t => .error stop t

theorem bind_apply (p : Eval α) (f : α → Eval β) (s : Store) : (p >>= f) s = follow f (p s) := by
  show EStateM.bind p f s = follow f (p s)
  unfold EStateM.bind
  cases p s <;> rfl

/-- A process asks for the task it starts with, here one that fails. -/
theorem Asks.first {process : (Task → Eval Value) → Result Stop Store α} {go : Task → Eval Value} {task : Task}
    {s t : Store} {error : Error} (raise : Error → Error) (next : (Task → Eval Value) → Value → Eval α)
    (h : ∀ go, process go = resume raise (next go) (go task s)) (hfails : go task s = .error (.failed error) t) :
    Asks process go task s := by
  refine ⟨.error .exhausted s, ?_⟩
  rw [h, h, instead_self, hfails]
  simp [resume]

/-- Once the first task has given a value, a process asks for what follows. -/
theorem Asks.after {process : (Task → Eval Value) → Result Stop Store α} {go : Task → Eval Value} {first task : Task}
    {s t u : Store} {v : Value} (raise : Error → Error) (next : (Task → Eval Value) → Value → Eval α)
    (h : ∀ go, process go = resume raise (next go) (go first s)) (hfirst : go first s = .ok v t)
    (hother : first ≠ task) (hnext : Asks (fun go => next go v t) go task u) : Asks process go task u := by
  obtain ⟨given, hne⟩ := hnext
  refine ⟨given, ?_⟩
  rw [h, h, instead_of_ne fun hsame => hother hsame.1, hfirst]
  exact hne

/-- What a process keeps to: the stores it works in, the failures it may leave a store with, the values it handles, the
    forms it works on and the names it binds. It may fail in any store it works in, and failures may be passed on. -/
structure Discipline where
  store : Store → Prop
  failure : Error → Store → Prop
  value : Value → Prop
  form : Code → Prop
  name : String → Prop
  fails : ∀ {s : Store}, store s → ∀ error, failure error s
  passes : ∀ {error later : Error} {s : Store}, failure error s → error.Becomes later → failure later s

/-- An outcome that keeps to `d`; what is given has `Q`. -/
inductive Meets (d : Discipline) (Q : α → Prop) : Result Stop Store α → Prop
  | ok {a : α} {t : Store} (ha : Q a) (ht : d.store t) : Meets d Q (.ok a t)
  | failed {error : Error} {t : Store} (h : d.failure error t) : Meets d Q (.error (.failed error) t)
  | exhausted {t : Store} (ht : d.store t) : Meets d Q (.error .exhausted t)

/-- A way to do the tasks in `A` that keeps to `d`. -/
def Serves (d : Discipline) (A : Task → Prop) (go : Task → Eval Value) : Prop :=
  ∀ ⦃task : Task⦄ ⦃s : Store⦄, A task → d.store s → Meets d d.value (go task s)

/-- A process that keeps to `d`, asks for tasks in `A` only, one after the other, and gives what has `Q`. -/
inductive Orderly (d : Discipline) (A : Task → Prop) (Q : α → Prop) :
    ((Task → Eval Value) → Result Stop Store α) → Prop
  | ok {a : α} {t : Store} (ha : Q a) (ht : d.store t) : Orderly d A Q fun _ => .ok a t
  | failed {error : Error} {t : Store} (h : d.failure error t) : Orderly d A Q fun _ => .error (.failed error) t
  | ask {task : Task} {s : Store} {raise : Error → Error}
      {next : Value → Store → (Task → Eval Value) → Result Stop Store α} (htask : A task) (hs : d.store s)
      (hraise : ∀ error : Error, error.Becomes (raise error))
      (hnext : ∀ v t, d.value v → d.store t → Orderly d A Q (next v t)) :
      Orderly d A Q fun go => resume raise (fun v t => next v t go) (go task s)

namespace Orderly

variable {d : Discipline} {A : Task → Prop} {P : α → Prop} {Q : β → Prop} {go : Task → Eval Value} {s t u : Store}
  {process : (Task → Eval Value) → Result Stop Store α} {task : Task}

theorem meets (h : Orderly d A P process) (hgo : Serves d A go) : Meets d P (process go) := by
  induction h with
  | ok ha ht => exact .ok ha ht
  | failed h => exact .failed h
  | @ask task s raise next htask hs hraise _ ih =>
    have hgiven := hgo htask hs
    dsimp only
    generalize go task s = given at hgiven ⊢
    cases hgiven with
    | ok hv ht => exact ih _ _ hv ht
    | failed h => exact .failed (d.passes h (hraise _))
    | exhausted ht => exact .exhausted ht

/-- What is asked for may be asked for, in a store that the process works in; and if it fails, so does the process. -/
theorem asks (h : Orderly d A P process) (hgo : Serves d A go) (hasks : Asks process go task t) :
    A task ∧ d.store t ∧ ∀ error u, go task t = .error (.failed error) u →
      ∃ later, process go = .error (.failed later) u ∧ error.Becomes later := by
  obtain ⟨given, hne⟩ := hasks
  induction h with
  | ok _ _ => exact absurd rfl hne
  | failed _ => exact absurd rfl hne
  | @ask first s raise next htask hs hraise _ ih =>
    by_cases hfirst : first = task ∧ s = t
    · obtain ⟨rfl, rfl⟩ := hfirst
      exact ⟨htask, hs, fun error u he => ⟨raise error, by simp only [he, resume], hraise error⟩⟩
    · -- the answer to the first question is as before, so what follows it makes the difference
      have hanswer := hgo htask hs
      simp only [instead_of_ne hfirst] at hne
      dsimp only
      generalize go first s = answer at hanswer hne ⊢
      cases hanswer with
      | ok hv hu => exact ih _ _ hv hu hne
      | failed _ => exact absurd rfl hne
      | exhausted _ => exact absurd rfl hne

/-- A process that exhausts its levels has asked for a task that does. -/
theorem exists_of_exhausted (h : Orderly d A P process) (hgo : Serves d A go)
    (hexhausted : process go = .error .exhausted u) :
    ∃ task t, Asks process go task t ∧ go task t = .error .exhausted u := by
  induction h with
  | ok _ _ => cases hexhausted
  | failed _ => cases hexhausted
  | @ask first s raise next htask hs _ _ ih =>
    have hmeets := hgo htask hs
    cases hanswer : go first s with
    | ok v t =>
      simp only [hanswer, resume] at hexhausted
      rw [hanswer] at hmeets
      cases hmeets with
      | ok hv ht =>
        obtain ⟨task, x, ⟨given, hne⟩, hx⟩ := ih v t hv ht hexhausted
        refine ⟨task, x, ⟨given, ?_⟩, hx⟩
        have hother : ¬(first = task ∧ s = x) := by
          rintro ⟨rfl, rfl⟩
          rw [hanswer] at hx
          cases hx
        simpa only [instead_of_ne hother, hanswer, resume] using hne
    | error stop t =>
      cases stop with
      | failed error =>
        simp only [hanswer, resume] at hexhausted
        cases hexhausted
      | exhausted =>
        simp only [hanswer, resume] at hexhausted
        cases hexhausted
        refine ⟨first, s, ⟨.error (.failed (.ofCause (.runtime ""))) s, ?_⟩, hanswer⟩
        simp [instead_self, hanswer, resume]

/-- A process that comes to an end does so again if whatever came to an end does so again. -/
theorem mono {go' : Task → Eval Value} (h : Orderly d A P process) (hgo : Serves d A go)
    (hmore : ∀ task s, (∀ t, go task s ≠ .error .exhausted t) → go' task s = go task s)
    (hends : ∀ t, process go ≠ .error .exhausted t) : process go' = process go := by
  induction h with
  | ok _ _ => rfl
  | failed _ => rfl
  | @ask task s raise next htask hs _ _ ih =>
    have hmeets := hgo htask hs
    have hsame : go' task s = go task s := by
      refine hmore task s fun t ht => hends t ?_
      simp only [ht, resume]
    dsimp only at hends ⊢
    rw [hsame]
    generalize go task s = answer at hmeets hends ⊢
    cases hmeets with
    | ok hv ht => exact ih _ _ hv ht hends
    | failed _ => rfl
    | exhausted _ => rfl

/-! ### Putting processes together -/

theorem follow {f : (Task → Eval Value) → α → Eval β} (h : Orderly d A P process)
    (hf : ∀ a t, P a → d.store t → Orderly d A Q fun go => f go a t) :
    Orderly d A Q fun go => follow (f go) (process go) := by
  induction h with
  | ok ha ht => exact hf _ _ ha ht
  | failed h => exact .failed h
  | @ask task s raise next htask hs hraise _ ih =>
    have hresume : ∀ (go : Task → Eval Value) (given : Result Stop Store Value),
        Eval.follow (f go) (resume raise (fun v t => next v t go) given) =
        resume raise (fun v t => Eval.follow (f go) (next v t go)) given := by
      intro go given
      cases given with
      | ok v t => rfl
      | error stop t => cases stop <;> rfl
    simp only [hresume]
    exact .ask htask hs hraise ih

theorem mapError {f : Error → Error} (h : Orderly d A P process) (hf : ∀ error : Error, error.Becomes (f error)) :
    Orderly d A P fun go =>
      match process go with
      | .ok a t => .ok a t
      | .error (.failed error) t => .error (.failed (f error)) t
      | .error .exhausted t => .error .exhausted t := by
  induction h with
  | ok ha ht => exact .ok ha ht
  | failed h => exact .failed (d.passes h (hf _))
  | @ask task s raise next htask hs hraise _ ih =>
    have hresume : ∀ (go : Task → Eval Value) (given : Result Stop Store Value),
        (match resume raise (fun v t => next v t go) given with
          | .ok a t => .ok a t
          | .error (.failed error) t => .error (.failed (f error)) t
          | .error .exhausted t => .error .exhausted t : Result Stop Store α) =
        resume (fun error => f (raise error)) (fun v t =>
          match next v t go with
          | .ok a t => .ok a t
          | .error (.failed error) t => .error (.failed (f error)) t
          | .error .exhausted t => .error .exhausted t) given := by
      intro go given
      cases given with
      | ok v t => rfl
      | error stop t => cases stop <;> rfl
    simp only [hresume]
    exact .ask htask hs (fun error => (hraise error).trans (hf _)) ih

end Orderly

end Eval

end Lisplet
