import Lisplet.Proofs.Course
import Lisplet.Proofs.Reached

/-! # Evaluation stops at the first failing call

Nothing catches a failure. When a function of the host refuses a call, nothing is bound and no function of the host is
called after it, however deep in the source the call stands, and the evaluation fails for the reason that the function
gave. -/

namespace Lisplet

open EStateM (Result)

/-- What a function of the host gave instead of a value. -/
def Event.refusal? : Event → Option Error
  | called _ _ (.error error) => some error
  | _ => none

namespace Store

/-- Since the events `before`, no call was refused. -/
def Smooth (before : List Event) (s : Store) : Prop :=
  ∃ news, s.events = news ++ before ∧ ∀ event ∈ news, event.refusal? = none

/-- What a failure comes with: since `before` no call was refused, or none but the last, and the failure comes of that
    refusal. -/
inductive Halted (before : List Event) (error : Error) (s : Store) : Prop
  | smooth (h : s.Smooth before)
  | refused {event : Event} {news : List Event} {refusal : Error} (hevents : s.events = event :: (news ++ before))
      (hnews : ∀ other ∈ news, other.refusal? = none) (hevent : event.refusal? = some refusal)
      (hbecomes : refusal.Becomes error)

variable {before : List Event} {s : Store}

theorem Smooth.refl (s : Store) : s.Smooth s.events := ⟨[], rfl, by simp⟩

theorem Smooth.record (h : s.Smooth before) {event : Event} (hevent : event.refusal? = none) {t : Store}
    (ht : t.events = event :: s.events) : t.Smooth before := by
  obtain ⟨news, hevents, hnews⟩ := h
  exact ⟨event :: news, by simp [ht, hevents], by simpa using ⟨hevent, hnews⟩⟩

theorem Smooth.exists_news (h : s.Smooth before) : ∃ news, s.events = news ++ before := by
  obtain ⟨news, hevents, -⟩ := h
  exact ⟨news, hevents⟩

theorem Smooth.not_refused (h : s.Smooth before) {later earlier : List Event} {event : Event}
    (hevents : s.events = later ++ event :: (earlier ++ before)) : event.refusal? = none := by
  obtain ⟨news, hnews, hsmooth⟩ := h
  have heq : later ++ event :: earlier = news := by
    have hboth : later ++ event :: earlier ++ before = news ++ before := by simp [← hnews, hevents]
    exact List.append_cancel_right hboth
  exact hsmooth event (by simp [← heq])

theorem Halted.exists_news {error : Error} (h : s.Halted before error) : ∃ news, s.events = news ++ before := by
  cases h with
  | smooth h => exact h.exists_news
  | refused hevents _ _ _ => exact ⟨_ :: _, hevents⟩

theorem Halted.passes {error later : Error} (h : s.Halted before error) (hbecomes : error.Becomes later) :
    s.Halted before later := by
  cases h with
  | smooth h => exact .smooth h
  | refused hevents hnews hevent hrefusal => exact .refused hevents hnews hevent (hrefusal.trans hbecomes)

/-- A refused call is the last event, and the failure comes of it. -/
theorem Halted.last {error refusal : Error} (h : s.Halted before error) {later earlier : List Event} {event : Event}
    (hevents : s.events = later ++ event :: (earlier ++ before)) (hevent : event.refusal? = some refusal) :
    later = [] ∧ refusal.Becomes error := by
  cases h with
  | smooth h => simp [h.not_refused hevents] at hevent
  | @refused last news given hlast hnews hgiven hbecomes =>
    have heq : later ++ event :: earlier = last :: news := by
      have hboth : later ++ event :: earlier ++ before = last :: news ++ before := by simp [← hlast, hevents]
      exact List.append_cancel_right hboth
    cases later with
    | nil =>
      obtain ⟨rfl, -⟩ := List.cons.inj heq
      obtain rfl := Option.some.inj (hgiven.symm.trans hevent)
      exact ⟨rfl, hbecomes⟩
    | cons first rest =>
      -- then the refused call would be one of those before the last
      obtain ⟨-, hrest⟩ := List.cons.inj heq
      simp [hnews event (by simp [← hrest])] at hevent

end Store

/-! ### Evaluation -/

namespace Eval

/-- To go on only as long as no call is refused. -/
def failStop (before : List Event) : Discipline where
  store s := s.Smooth before
  failure error s := s.Halted before error
  value _ := True
  form _ := True
  name _ := True
  fails h _ := .smooth h
  passes := Store.Halted.passes

theorem lawful_failStop (host : Host) (before : List Event) : (failStop before).Lawful host := by
  refine Discipline.IsOpen.lawful ⟨fun _ => trivial, fun _ => trivial, fun _ => trivial⟩ host ?_ ?_ ?_ ?_ ?_ ?_
  · exact fun h => h
  · exact fun h _ => h
  · exact fun h _ _ _ => h
  · exact fun h _ _ _ => h.record rfl rfl
  · exact fun h _ _ _ => h.record rfl rfl
  · rintro s ⟨news, hevents, hnews⟩ f args error
    exact .refused (congrArg (Event.called f args (.error error) :: ·) hevents) hnews rfl (.refl error)

theorem meets_failStop (host : Host) (levels : Nat) (form : Code) (scope : Scope) (s : Store) :
    Meets (failStop s.events) (fun _ => True) (run host levels (.evaluate form scope) s) :=
  (lawful_failStop host s.events).serves levels trivial (Store.Smooth.refl s)

end Eval

namespace Interpreter

theorem meets_failStop (i : Interpreter) (source : String) (s : Store) :
    Eval.Meets (Eval.failStop s.events) (fun _ => True) (i.evalSource source s) := by
  rcases i.evalSource_cases source s with ⟨error, herror⟩ | hevaluate
  · rw [herror]
    exact .failed (.smooth (.refl s))
  · rw [hevaluate]
    exact Eval.meets_failStop i.host i.levels _ i.scope { s with documents := s.documents + 1 }

/-- Evaluating a source adds events to those before, newest first. If among them is a call that was refused, there is
    none after it, and the evaluation fails for the same cause. -/
theorem evalSource_failStop (i : Interpreter) (source : String) (s : Store) :
    (∃ news, ((i.evalSource source).left s).events = news ++ s.events) ∧
    ∀ (later earlier : List Event) (f : HostFunction) (args : List Value) (refusal : Error),
      ((i.evalSource source).left s).events = later ++ .called f args (.error refusal) :: (earlier ++ s.events) →
      later = [] ∧ ∃ error t, i.evalSource source s = .error (.failed error) t ∧ error.cause = refusal.cause ∧
        refusal.Becomes error := by
  have hmeets := i.meets_failStop source s
  unfold Eval.left
  generalize i.evalSource source s = result at hmeets ⊢
  cases hmeets with
  | ok _ ht => exact ⟨ht.exists_news, fun _ _ _ _ _ hevents => nomatch ht.not_refused hevents⟩
  | exhausted ht => exact ⟨ht.exists_news, fun _ _ _ _ _ hevents => nomatch ht.not_refused hevents⟩
  | @failed error t h =>
    refine ⟨h.exists_news, fun later earlier f args refusal hevents => ?_⟩
    obtain ⟨hlast, hbecomes⟩ := h.last hevents rfl
    exact ⟨hlast, error, t, rfl, hbecomes.cause, hbecomes⟩

/-- A source with a call that is refused, inside the body of a function, with a call before it and a definition after
    it. -/
def refusedSource : String := "((fn [x] [(println x) (sleep nil) (def y x)]) 1)"

/-- An interpreter of the command line with its functions, and its store. -/
def commandWithFunctions : Interpreter × Store :=
  let (library, s) := Library.registerAll .empty .empty Command.functions
  create Command.host {} library s

/-- What happened in the course of `refusedSource`: a parameter was bound, `println` called and `sleep` refused. -/
theorem evalSource_failStop_refusedSource :
    let before := commandWithFunctions.2
    let after := (commandWithFunctions.1.evalSource refusedSource).left before
    after.events.length = before.events.length + 3 ∧
    ∃ refusal error t, after.events.head?.bind Event.refusal? = some refusal ∧
      commandWithFunctions.1.evalSource refusedSource before = .error (.failed error) t ∧
      error.cause = refusal.cause := by
  intro before after
  have hcheck : after.events.length = before.events.length + 3 ∧
      (after.events.head?.bind Event.refusal?).isSome = true := by decide +kernel
  obtain ⟨hlength, hrefused⟩ := hcheck
  obtain ⟨⟨news, hnews⟩, hlast⟩ := evalSource_failStop commandWithFunctions.1 refusedSource before
  refine ⟨hlength, ?_⟩
  change after.events = news ++ before.events at hnews
  match news, hnews with
  | [], hnews => simp [hnews] at hlength
  | .bound scope name var :: earlier, hnews => simp [hnews, Event.refusal?] at hrefused
  | .called f args (.ok v) :: earlier, hnews => simp [hnews, Event.refusal?] at hrefused
  | .called f args (.error refusal) :: earlier, hnews =>
    obtain ⟨-, error, t, hfailed, hcause, -⟩ := hlast [] earlier f args refusal hnews
    exact ⟨refusal, error, t, by simp [hnews, Event.refusal?], hfailed, hcause⟩

end Interpreter

end Lisplet
