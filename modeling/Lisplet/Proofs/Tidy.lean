import Lisplet.Proofs.ListCall
import Lisplet.Proofs.Recorded

/-! # Numbered names are bound by calls

A numbered name is meant to be bound by the call of a `#()` function. Other code binds the names of its symbols, so it
could bind a numbered one if a symbol were written so. No symbol that was read is; but the member form that is made of
`(.%1 t)` has one. Code is tidy if none of its symbols is written like a numbered parameter behind leading points, and
then expansion makes no such symbol either. As long as only tidy code runs, numbered names are bound only where a call
of a `#()` function opens its scope. So they mean the same in all scopes inside that one, up to the scope of the next
such call. -/

namespace Lisplet

/-! ### Code -/

namespace Eval

/-- Whether a name is written like a numbered parameter, behind leading points if it has some. -/
def hidesNumbered (name : String) : Bool :=
  isNumbered (String.ofList (name.toList.dropWhile (· = '.')))

theorem hidesNumbered_of_isNumbered {name : String} (h : isNumbered name = true) : hidesNumbered name = true := by
  have hname : name.toList.dropWhile (· = '.') = name.toList := by
    unfold isNumbered at h
    split at h
    · next digits htext =>
      rw [htext]
      rfl
    · cases h
  rw [hidesNumbered, hname, String.ofList_toList, h]

theorem hidesNumbered_memberName {text member : String} (h : memberName? text = some member) :
    hidesNumbered member = hidesNumbered text := by
  obtain ⟨rfl, -⟩ := memberName?_eq_some_iff.mp h
  rw [hidesNumbered, hidesNumbered, String.toList_append]
  rfl

end Eval

namespace Form

variable {form : Code}

/-- Whether a form is no symbol that is written like a numbered parameter behind leading points. -/
def isTidy (form : Code) : Bool :=
  form.kind != .symbol || !Eval.hidesNumbered form.text

/-- No symbol in the form is written like a numbered parameter, with or without leading points. -/
def Tidy (form : Code) : Prop := form.all isTidy = true

namespace Tidy

theorem part (h : form.Tidy) {part : Code} (hpart : part ∈ form.children) : part.Tidy :=
  (all_iff.mp h).2 part hpart

theorem text (h : form.Tidy) (hk : form.kind = .symbol) : Eval.hidesNumbered form.text = false := by
  simpa [isTidy, hk] using (all_iff.mp h).1

/-- A tidy symbol binds no numbered name. -/
theorem symbolName (h : form.Tidy) {name : String} (hname : form.symbolName = .ok name) :
    Eval.isNumbered name = false := by
  unfold Form.symbolName at hname
  split at hname
  · next hkind =>
    obtain rfl := Except.ok.inj hname
    by_contra hnumbered
    rw [Bool.not_eq_false] at hnumbered
    cases (Eval.hidesNumbered_of_isNumbered hnumbered).symm.trans (h.text hkind)
  · cases hname

theorem symbol (id : FormId) {name : String} (h : Eval.hidesNumbered name = false) : (symbol id name : Code).Tidy := by
  refine all_iff.mpr ⟨?_, by simp [Form.symbol]⟩
  simp [isTidy, Form.symbol, Form.text, text?, Metadata.withText, h]

theorem of_parts (hk : form.kind ≠ .symbol) (h : ∀ part ∈ form.children, part.Tidy) : form.Tidy :=
  all_iff.mpr ⟨by simp [isTidy, hk], h⟩

theorem implicitDo {body : List Code} (h : ∀ part ∈ body, part.Tidy) (number : Nat) :
    (form.implicitDo number body).Tidy :=
  of_parts (by simp [Form.implicitDo]) (List.forall_mem_cons.mpr ⟨symbol _ (by decide), h⟩)

theorem memberCall? (h : form.Tidy) {number : Nat} {call : Code} (hcall : form.memberCall? number = some call) :
    call.Tidy := by
  obtain ⟨head, target, args, text, member, hchildren, hsymbol, htext, hname, rfl⟩ := exists_of_memberCall? hcall
  have hparts : ∀ part ∈ form.children, part.Tidy := fun _ hpart => h.part hpart
  rw [hchildren] at hparts
  obtain ⟨hhead, htarget, hargs⟩ : head.Tidy ∧ target.Tidy ∧ ∀ arg ∈ args, arg.Tidy := by simpa using hparts
  have hmember : Eval.hidesNumbered member = false := by
    rw [Eval.hidesNumbered_memberName hname]
    simpa [Form.text, htext] using hhead.text hsymbol
  refine of_parts (by simp) ?_
  simpa [htarget] using ⟨symbol _ (by decide), symbol _ hmember, hargs⟩

theorem expand (h : form.Tidy) (s : Store) (scope : Scope) : (s.expand scope form).1.Tidy := by
  rcases s.expand_rules scope form with hsame | ⟨name, -, -, hmade⟩ | ⟨call, -, hcall, hmade⟩
  · rwa [hsame]
  · rw [hmade]
    exact of_parts (by simp) (by simp)
  · rw [hmade]
    exact h.memberCall? hcall

end Tidy

end Form

/-- Code that was read is tidy if no symbol with a leading point hides a numbered name: no symbol that was read has such
    a name. -/
theorem Document.tidy_of_within {number : Nat} {source : String} {form : Code}
    (hw : form.Within (read number source : Document Value).root)
    (h : ∀ node : Code, node.Within form → node.kind = .symbol → node.text.toList.head? = some '.' →
      node.isTidy = true) : form.Tidy := by
  induction form using Form.parts_induction with
  | step form ih =>
    have hparts : ∀ part ∈ form.children, part.Tidy := fun part hpart =>
      ih part hpart (.trans (.of_mem hpart) hw) fun node hnode => h node (hnode.trans (.of_mem hpart))
    refine Form.all_iff.mpr ⟨?_, hparts⟩
    by_cases hkind : form.kind = .symbol
    · by_cases hpoint : form.text.toList.head? = some '.'
      · exact h form (.refl form) hkind hpoint
      · have hsame : form.text.toList.dropWhile (· = '.') = form.text.toList := by
          cases htext : form.text.toList with
          | nil => rfl
          | cons c cs => exact List.dropWhile_cons_of_neg (by simpa [htext] using hpoint)
        have hhides : Eval.hidesNumbered form.text = false := by
          rw [Eval.hidesNumbered, hsame, String.ofList_toList, isNumbered_symbol hw hkind]
        simp [Form.isTidy, hhides]
    · simp [Form.isTidy, hkind]

/-! ### Values -/

/-- What a callable runs is tidy, and it binds no numbered names but those of its parameters. -/
def Callable.Tidy : Callable Value → Prop
  | .procedure (.closure self params body _) =>
    (∀ name ∈ self, Eval.isNumbered name = false) ∧ (∀ name ∈ params, Eval.isNumbered name = false) ∧ body.Tidy
  | .procedure (.anonymous form head args _ _) => form.Tidy ∧ head.Tidy ∧ ∀ arg ∈ args, arg.Tidy
  | _ => True

/-- All functions in a value run tidy code. -/
inductive Value.Tidy : Value → Prop
  | plain {v : Value} (h : v.isPlain = true) : Tidy v
  | vector {items : List Value} (h : ∀ item ∈ items, Tidy item) : Tidy (.vector items)
  | set {items : List Value} (h : ∀ item ∈ items, Tidy item) : Tidy (.set items)
  | map {entries : List (Key × Value)} (h : ∀ entry ∈ entries, Tidy entry.2) : Tidy (.map entries)
  | var (var : Var) : Tidy (.var var)
  | object (o : HostObject) : Tidy (.object o)
  | method (identity : Nat) {m : Method Value} (h : ∀ item ∈ m.items, Tidy item) :
    Tidy (.function identity (.procedure (.method m)))
  | function (identity : Nat) {c : Callable Value} (h : c.Tidy) (hm : ∀ m, c ≠ .procedure (.method m)) :
    Tidy (.function identity c)

namespace Value.Tidy

theorem hereditary : Value.Hereditary Value.Tidy where
  plain := .plain
  vector := by
    refine ⟨fun h => ?_, .vector⟩
    cases h with
    | plain h => cases h
    | vector h => exact h
  set := by
    refine ⟨fun h => ?_, .set⟩
    cases h with
    | plain h => cases h
    | set h => exact h
  map h := by
    cases h with
    | plain h => cases h
    | map h => exact h
  noEntries := .map (by simp)
  insert {entries v} h hv key := by
    cases h with
    | plain h => cases h
    | map h =>
      refine .map fun entry hentry => ?_
      rcases Entries.mem_insert hentry with rfl | hentry
      · exact hv
      · exact h entry hentry
  method {identity m} := by
    refine ⟨fun h => ?_, .method identity⟩
    cases h with
    | plain h => cases h
    | method _ h => exact h
    | function _ _ hm => exact absurd rfl (hm m)

theorem again {identity : Nat} {c : Callable Value} (h : Value.Tidy (.function identity c)) (other : Nat) :
    Value.Tidy (.function other c) := by
  cases h with
  | plain h => cases h
  | method _ h => exact .method other h
  | function _ h hm => exact .function other h hm

theorem callable {identity : Nat} {c : Callable Value} (h : Value.Tidy (.function identity c)) : c.Tidy := by
  cases h with
  | plain h => cases h
  | method _ _ => trivial
  | function _ h _ => exact h

end Value.Tidy

/-- A fresh root scope binds tidy values, if those are that the host adds. -/
theorem Store.newBase_tidy {s : Store} (hs : s.Holds Value.Tidy) {extra : Library}
    (h : ∀ entry ∈ extra, entry.2.Tidy) : (s.newBase extra).2.Holds Value.Tidy :=
  (Store.Holds.founding Value.Tidy.hereditary (fun identity _ => .function identity trivial (by simp))
    fun identity _ => .function identity trivial (by simp)).newBase hs h

/-! ### Bindings of numbered names -/

/-- After `s`, numbered names were bound only in scopes that were opened since, and only where `%` is bound. -/
structure Store.NumberedSince (s t : Store) : Prop where
  grown : s.Extends t
  news : ∃ news, t.events = news ++ s.events ∧ ∀ scope name var, .bound scope name var ∈ news →
    Eval.isNumbered name = true → s.frames.size ≤ scope ∧ "%" ∈ t.localNames scope

namespace Store.NumberedSince

variable {s t u : Store}

theorem trans (h : s.NumberedSince t) (h' : t.NumberedSince u) : s.NumberedSince u := by
  obtain ⟨first, hfirst, hold⟩ := h.news
  obtain ⟨second, hsecond, hnew⟩ := h'.news
  refine ⟨h.grown.trans h'.grown, second ++ first, by rw [hsecond, hfirst, List.append_assoc], ?_⟩
  intro scope name var hmem hnumbered
  rcases List.mem_append.mp hmem with hmem | hmem
  · obtain ⟨hscope, hpercent⟩ := hnew scope name var hmem hnumbered
    exact ⟨Nat.le_of_not_lt fun hlt => Nat.not_lt.mpr hscope (h.grown.lt_frames hlt), hpercent⟩
  · obtain ⟨hscope, hpercent⟩ := hold scope name var hmem hnumbered
    exact ⟨hscope, h'.grown.mem_localNames hpercent⟩

theorem of_events (hgrown : s.Extends t) {news : List Event} (hevents : t.events = news ++ s.events)
    (hnews : ∀ scope name var, .bound scope name var ∉ news) : s.NumberedSince t :=
  ⟨hgrown, news, hevents, fun scope name var hmem => absurd hmem (hnews scope name var)⟩

/-- Nothing was recorded. -/
theorem of_eq (hgrown : s.Extends t) (hevents : t.events = s.events) : s.NumberedSince t :=
  of_events hgrown (List.nil_append s.events ▸ hevents) (by simp)

theorem refl (s : Store) : s.NumberedSince s := of_eq (.refl s) rfl

theorem called (s : Store) (f : HostFunction) (args : List Value) (result : Except Error Value) :
    s.NumberedSince (s.record (.called f args result)) :=
  of_events (.of_eq rfl rfl) (show _ = [Event.called f args result] ++ s.events from rfl) (by simp)

theorem define (s : Store) (scope : Scope) {name : String} (hname : Eval.isNumbered name = false) (v : Value)
    (m : Metadata Value) : s.NumberedSince (s.define scope name v m).2 := by
  refine ⟨.define s scope name v m, [.bound scope name (s.newVar name v m).1], rfl, ?_⟩
  intro inner other var hmem hnumbered
  obtain ⟨-, rfl, -⟩ : inner = scope ∧ other = name ∧ var = (s.newVar name v m).1 := by simpa using hmem
  cases hname.symm.trans hnumbered

theorem expand (s : Store) (scope : Scope) (form : Code) : s.NumberedSince (s.expand scope form).2 :=
  of_eq (Store.extends_expand s scope form)
    (expand_induction (P := fun t => t.events = s.events) rfl (fun h _ _ _ => h) scope form)

theorem exists_events_install (library : Library) (s : Store) (scope : Scope) :
    ∃ news, (library.install s scope).events = news ++ s.events ∧
      ∀ event ∈ news, ∃ name ∈ library.keys, ∃ var, event = .bound scope name var := by
  induction library generalizing s with
  | nil => exact ⟨[], rfl, by simp⟩
  | cons entry rest ih =>
    obtain ⟨news, hnews, hbound⟩ := ih (s.define scope entry.1 entry.2).2
    refine ⟨news ++ [.bound scope entry.1 (s.define scope entry.1 entry.2).1], ?_, fun event hevent => ?_⟩
    · rw [List.append_assoc]
      exact hnews
    · rcases List.mem_append.mp hevent with hevent | hevent
      · obtain ⟨name, hname, var, rfl⟩ := hbound event hevent
        exact ⟨name, List.mem_cons_of_mem _ hname, var, rfl⟩
      · exact ⟨entry.1, List.mem_cons_self, _, List.mem_singleton.mp hevent⟩

/-- Where a call binds a parameter, it binds `%` as well. -/
theorem openCall (s : Store) (scope : Scope) (count : Nat) (args : List Value) :
    s.NumberedSince (s.openCall scope count args).2 := by
  obtain ⟨news, hnews, hbound⟩ := exists_events_install (Eval.parameters 1 count args) (s.newChild scope).2
    (s.newChild scope).1
  refine ⟨Eval.extends_openCall s scope count args, news, hnews, fun inner name var hmem _ => ?_⟩
  obtain ⟨other, hother, _, heq⟩ := hbound _ hmem
  obtain ⟨rfl, rfl, -⟩ := Event.bound.inj heq
  refine ⟨Nat.le_refl _, ((s.bindsArguments_openCall scope count args).names "%").mpr (.inl ⟨?_, rfl⟩)⟩
  rcases Eval.mem_keys_parameters.mp hother with ⟨hpos, -⟩ | ⟨n, hn, hle, -⟩
  · exact hpos
  · exact Nat.lt_of_lt_of_le hn hle

/-- A numbered name means what a scope bound it to in all scopes inside it that were opened since, up to one that binds
    `%` itself. -/
theorem unshadowed (h : s.NumberedSince t) {inner inside : Scope} {name : String}
    (hname : Eval.isNumbered name = true) (hinner : inner < s.frames.size) {nearer farther : List Scope}
    (hway : inside :: t.outer inside = nearer ++ inner :: farther)
    (hnearer : ∀ frame ∈ nearer, s.frames.size ≤ frame ∧ "%" ∉ t.localNames frame) :
    s.UnshadowedSince t inner name inside := by
  refine ⟨nearer, farther, hway, fun frame hframe => (hnearer frame hframe).1, fun frame hframe => ?_⟩
  rintro ⟨news, var, hnews, hmem⟩
  obtain ⟨news', hnews', hbound⟩ := h.news
  obtain rfl := List.append_cancel_right (hnews.symm.trans hnews')
  obtain ⟨hnew, hfirst⟩ := hbound frame name var hmem hname
  rcases List.mem_cons.mp hframe with rfl | hframe
  · exact Nat.not_lt.mpr hnew hinner
  · exact (hnearer frame hframe).2 hfirst

end Store.NumberedSince

/-! ### Evaluation -/

namespace Eval

/-- To run tidy code after `s`, and to bind numbered names only for calls. -/
def tidying (s : Store) : Discipline where
  store t := t.Holds Value.Tidy ∧ s.NumberedSince t
  failure _ t := t.Holds Value.Tidy ∧ s.NumberedSince t
  value := Value.Tidy
  form := Form.Tidy
  name name := isNumbered name = false
  fails h _ := h
  passes h _ := h

theorem lawful_tidying {host : Host} (hhost : host.Gives Value.Tidy) (s : Store) : (tidying s).Lawful host where
  values := Value.Tidy.hereditary
  function h := h.again _
  get _ hs hv := hs.1.get Value.Tidy.hereditary hv
  target _ hs hv := hs.1.get Value.Tidy.hereditary hv
  lookup _ _ _ := .var _
  held hs _ := hs.1.held Value.Tidy.hereditary _
  identity hs := ⟨hs.1.of_eq rfl, hs.2.trans (.of_eq (.of_eq rfl rfl) rfl)⟩
  number hs := ⟨hs.1.newNumber Value.Tidy.hereditary, hs.2.trans (.of_eq (.newVar _ "" .nil .empty) rfl)⟩
  newChild hs _ := ⟨hs.1.of_eq rfl, hs.2.trans (.of_eq (.push_frame _ _) rfl)⟩
  define hs hv hname scope m := ⟨.var _, hs.1.define scope _ hv m, hs.2.trans (.define _ scope hname _ m)⟩
  openCall hs hargs scope count :=
    ⟨Store.openCall_of_define Value.Tidy.hereditary (hs.1.of_eq rfl) hargs
        (fun ht hv inner name => ht.define inner name hv .empty) count,
      hs.2.trans (.openCall _ scope count _)⟩
  expand hs hform scope :=
    ⟨hform.expand _ scope, hs.1.expand Value.Tidy.hereditary scope _, hs.2.trans (.expand _ scope _)⟩
  called hs f args _ := ⟨hs.1.of_eq rfl, hs.2.trans (.called _ f args _)⟩
  refused hs f args _ := ⟨hs.1.of_eq rfl, hs.2.trans (.called _ f args _)⟩
  binding _ _ := .var _
  part hform hpart := hform.part hpart
  symbol hform hname := hform.symbolName hname
  implicitDo _ hbody number := .implicitDo hbody number
  closure _ hself hparams hbody identity scope := .function identity ⟨hself, hparams, hbody⟩ (by simp)
  body h := h.callable
  anonymous _ hform hhead hargs identity params scope := .function identity ⟨hform, hhead, hargs⟩ (by simp)
  forms h := h.callable
  call hs hargs hv := hhost.call hs.1 hargs hv
  invoke hs _ hv := hhost.invoke hs.1 hv
  fields := hhost.fields

end Eval

namespace Store

/-- The stores that can come after `s` while tidy code is run: after tasks, in the midst of tasks and when sources were
    read. -/
inductive AfterTidy (s : Store) : Store → Prop
  | refl : AfterTidy s s
  | ended {t : Store} (h : AfterTidy s t) {host : Host} (hhost : host.Gives Value.Tidy) (levels : Nat) {task : Task}
      (htask : (Eval.tidying s).Allows task) : AfterTidy s ((Eval.run host levels task).left t)
  | begun {t u : Store} (h : AfterTidy s t) {host : Host} (hhost : host.Gives Value.Tidy) {levels rest : Nat}
      {task later : Task} (htask : (Eval.tidying s).Allows task)
      (hbegins : Eval.Begins host levels task t rest later u) : AfterTidy s u
  | read {t : Store} (h : AfterTidy s t) (source : String) : AfterTidy s ((Interpreter.read source).left t)

namespace AfterTidy

variable {s t : Store}

theorem after (h : s.AfterTidy t) : s.After t := by
  induction h with
  | refl => exact .refl
  | ended _ _ levels _ ih => exact ih.ended _ levels _
  | begun _ _ _ hbegins ih => exact ih.begun hbegins
  | read _ source ih => exact ih.read source

theorem numberedSince (hs : s.Holds Value.Tidy) (h : s.AfterTidy t) : t.Holds Value.Tidy ∧ s.NumberedSince t := by
  induction h with
  | refl => exact ⟨hs, .refl s⟩
  | ended _ hhost levels htask ih => exact ((Eval.lawful_tidying hhost s).serves levels htask ih).left id
  | begun _ hhost htask hbegins ih => exact ((Eval.lawful_tidying hhost s).begins hbegins htask ih).2.1
  | read _ _ ih => exact ⟨ih.1.of_eq rfl, ih.2.trans (.of_eq (.of_eq rfl rfl) rfl)⟩

/-- Tidy code is run when a tidy source is evaluated. -/
theorem evalSource (h : s.AfterTidy t) (i : Interpreter) (hhost : i.host.Gives Value.Tidy) {source : String}
    (hsource : (Document.read t.documents source : Document Value).root.Tidy) :
    s.AfterTidy ((i.evalSource source).left t) := by
  rcases i.evalSource_cases source t with ⟨error, herror⟩ | hevaluate
  · simpa only [Eval.left, herror] using h
  · have hleft : (i.evalSource source).left t =
        (i.evaluate (Document.read t.documents source).root).left ((Interpreter.read source).left t) := by
      rw [Eval.left, hevaluate]
      rfl
    rw [hleft]
    exact (h.read source).ended hhost i.levels hsource

end AfterTidy

end Store

end Lisplet
