import Lisplet.Proofs.CallScope
import Lisplet.Proofs.Restated

/-! # Lists whose parts were expanded before

A list first expands its parts, and then it applies what its head means. The second step can be done as well with parts
that were expanded before, and comes to the same but for the numbers of vars and made forms, as long as the forms made
then occur nowhere else, or nothing but a special form, which expands its arguments by itself, is applied. -/

namespace Lisplet

open EStateM (Result)
open Function (Injective)

namespace Store

variable {form : Code} {forms : List Code}

/-- Where a form that is no var quote is expanded does not matter. -/
theorem expand_eq_of_kind_ne (h : form.kind ≠ .varQuote) (s : Store) (scope inner : Scope) :
    s.expand scope form = s.expand inner form := by
  cases hrule : s.expandOnce? scope form with
  | none => rw [s.expand_eq_self hrule, s.expand_eq_self (expandOnce?_eq_none_of_eq_none hrule s inner)]
  | some made =>
    rcases of_expandOnce? hrule with ⟨name, hkind, -⟩ | ⟨hlist, hcall, -⟩
    · exact absurd hkind h
    · rw [expand_of_memberCall? hlist hcall, expand_of_memberCall? hlist hcall]

theorem expandAll_eq_of_kind_ne (h : ∀ form ∈ forms, form.kind ≠ .varQuote) (s : Store) (scope inner : Scope) :
    s.expandAll scope forms = s.expandAll inner forms := by
  induction forms generalizing s with
  | nil => rfl
  | cons form rest ih =>
    obtain ⟨hfirst, hrest⟩ := List.forall_mem_cons.mp h
    simp only [expandAll, expand_eq_of_kind_ne hfirst s scope inner, ih hrest]

end Store

namespace Eval

variable {host : Host} {scope inner : Scope} {s t a b : Store} {f : Nat → Nat} {levels : Nat} {list head : Code}
  {args parts : List Code}

/-- What a list with this head comes to once its parts have been expanded to `args`. -/
def applyParts (host : Host) (levels : Nat) (list head : Code) (args : List Code) (scope : Scope) : Eval Value :=
  through list do
    let f ← run host levels (.evaluate head scope)
    applyToForms host (run host levels) list f scope args

theorem run_evaluate_applyParts (hkind : list.kind = .list) (hchildren : list.children = head :: parts)
    (hsymbol : head.kind = .symbol) (hmember : memberName? head.text = none) (host : Host) (levels : Nat)
    (scope : Scope) (s : Store) :
    run host (levels + 1) (.evaluate list scope) s =
      applyParts host levels list head (s.expandAll scope parts).1 scope (s.expandAll scope parts).2 :=
  run_evaluate_list hkind hchildren hsymbol hmember host levels scope s

theorem mirrors_applyParts {bound : Nat} (hf : Injective f) (hhost : host.Uniform) (levels : Nat) (list head : Code)
    (args : List Code) (scope : Scope) :
    Mirrors f bound (Value.rename f) (applyParts host levels list head args scope)
      (applyParts host levels (list.rename f) (head.rename f) (args.map (Form.rename f)) scope) := by
  have hlaws : (Comparison.renamed f bound).Lawful host := Comparison.Renamed.lawful hf hhost
  have hgo : (Comparison.renamed f bound).Treats (run host levels) := treats_renamed hf hhost levels
  refine .through hlaws rfl (.bind hlaws.values (hgo.evaluate rfl scope) fun _ _ hv => ?_)
  exact Comparison.sim_applyToForms hlaws hgo rfl hv scope (Comparison.Renamed.forall₂_iff.mpr rfl)

theorem exists_agrees_applyParts (hhost : host.Uniform) (ha : a.Closed) (hab : a.Tied f 0 b) (hf : Injective f)
    (hlist : list.Bounded a.cells.size) (hhead : head.Bounded a.cells.size)
    (hargs : ∀ arg ∈ args, arg.Bounded a.cells.size) (levels : Nat) (scope : Scope) :
    ∃ g, Injective g ∧ (∀ i < a.cells.size, g i = f i) ∧
      Agrees g (Value.rename g) (applyParts host levels list head args scope a)
        (applyParts host levels (list.rename f) (head.rename f) (args.map (Form.rename f)) scope b) := by
  have hmirrors : ∀ g bound, Injective g → (∀ i < a.cells.size, g i = f i) →
      Mirrors g bound (Value.rename g) (applyParts host levels list head args scope)
        (applyParts host levels (list.rename f) (head.rename f) (args.map (Form.rename f)) scope) := by
    intro g bound hg hsame
    rw [← Form.rename_congr hsame list hlist, ← Form.rename_congr hsame head hhead,
      ← List.map_congr_left fun arg harg => Form.rename_congr hsame arg (hargs arg harg)]
    exact mirrors_applyParts hg hhost levels list head args scope
  obtain ⟨g, bound, hg, hkept, -, hmatches⟩ := exists_matches ha hab hf hmirrors
  exact ⟨g, hg, hkept, hmatches.agrees⟩

/-! ### Expansion -/

theorem mirrors_expandAll {bound : Nat} (hf : Injective f) (hhost : host.Uniform) (scope : Scope) (forms : List Code) :
    Mirrors f bound (List.map (Form.rename f)) (expandAll scope forms)
      (expandAll scope (forms.map (Form.rename f))) :=
  (Comparison.sim_expandAll (Comparison.Renamed.lawful hf hhost) scope (Comparison.Renamed.forall₂_iff.mpr rfl)).imp
    Comparison.Renamed.forall₂_iff.mp

theorem closed_expandAll (hhost : host.Uniform) (hs : s.Closed) (hparts : ∀ part ∈ parts, part.Bounded s.cells.size)
    (scope : Scope) :
    (s.expandAll scope parts).2.Closed ∧
      ∀ part ∈ (s.expandAll scope parts).1, part.Bounded (s.expandAll scope parts).2.cells.size := by
  have hmirrors : ∀ n, s.cells.size ≤ n →
      Mirrors (skip n) n (List.map (Form.rename (skip n))) (expandAll scope parts) (expandAll scope parts) := by
    intro n hn
    have hskip : Mirrors (skip n) n (List.map (Form.rename (skip n))) (expandAll scope parts) _ :=
      mirrors_expandAll (skip_injective n) hhost scope parts
    rwa [Form.map_rename_of_bounded hparts fun i hi => skip_of_lt (Nat.lt_of_lt_of_le hi hn)] at hskip
  obtain ⟨hclosed, hgiven⟩ := closed_of_mirrors (r := fun f => List.map (Form.rename f)) hs hmirrors
  exact ⟨hclosed, eq_of_map_eq_self (hgiven _ _ rfl)⟩

/-- Forms are expanded in a store that is tied to another, with the forms that are made renamed. -/
theorem exists_expandAll_of_tied (hhost : host.Uniform) (ha : a.Closed) (hab : a.Tied f 0 b) (hf : Injective f)
    (hfixed : ∀ i < s.cells.size, f i = i) (hle : s.cells.size ≤ a.cells.size)
    (hparts : ∀ part ∈ parts, part.Bounded s.cells.size) (scope : Scope) :
    ∃ g, Injective g ∧ (∀ i < s.cells.size, g i = i) ∧
      (a.expandAll scope parts).1.map (Form.rename g) = (b.expandAll scope parts).1 ∧
      (a.expandAll scope parts).2.Tied g 0 (b.expandAll scope parts).2 := by
  have hmirrors : ∀ g bound, Injective g → (∀ i < a.cells.size, g i = f i) →
      Mirrors g bound (List.map (Form.rename g)) (expandAll scope parts) (expandAll scope parts) := by
    intro g bound hg hsame
    have hrenamed : Mirrors g bound (List.map (Form.rename g)) (expandAll scope parts) _ :=
      mirrors_expandAll hg hhost scope parts
    rwa [Form.map_rename_of_bounded hparts fun i hi =>
      (hsame i (Nat.lt_of_lt_of_le hi hle)).trans (hfixed i hi)] at hrenamed
  obtain ⟨g, bound, hg, hkept, -, hmatches⟩ := exists_matches ha hab hf hmirrors
  refine ⟨g, hg, fun i hi => (hkept i (Nat.lt_of_lt_of_le hi hle)).trans (hfixed i hi), ?_⟩
  cases hmatches with
  | ok hsame hs => exact ⟨hsame.symm, Store.Tied.mono hs (Nat.zero_le _)⟩

/-- Forms that are no var quotes are expanded in `a` too, to the counterparts of what they were expanded to before. -/
theorem Abreast.exists_expandAll {before : Store} (h : Abreast s scope f before a b parts) (hs : s.Closed)
    (hparts : ∀ part ∈ parts, part.Bounded s.cells.size) (hquote : ∀ part ∈ parts, part.kind ≠ .varQuote) :
    ∃ g, Injective g ∧ (∀ i < s.cells.size, g i = i) ∧ (∀ i < a.cells.size, g i = f i) ∧
      (a.expandAll scope parts).1.map (Form.rename g) = (before.expandAll scope parts).1 ∧
      (a.expandAll scope parts).2.Tied g 0 b := by
  induction parts generalizing f before a with
  | nil => exact ⟨f, h.injective, h.fixed, fun _ _ => rfl, rfl, h.tied⟩
  | cons part rest ih =>
    obtain ⟨hpart, hrest⟩ := List.forall_mem_cons.mp hparts
    obtain ⟨hkind, hkinds⟩ := List.forall_mem_cons.mp hquote
    obtain ⟨g, hkept, hmade, habreast⟩ := h.exists_expand hs hpart fun name hname => by
      rw [Form.varQuoted?, if_neg hkind] at hname
      cases hname
    have hbounded := (h.closed.expand (hpart.mono h.later.size_le) scope).2
    obtain ⟨g', hg', hfixed, hkept', hall, htied⟩ := ih habreast hrest hkinds
    refine ⟨g', hg', hfixed, fun i hi => ?_, ?_, htied⟩
    · rw [hkept' i (Nat.lt_of_lt_of_le hi (a.size_le_expand scope part)), hkept i hi]
    · simp only [Store.expandAll, List.map_cons, hall]
      rw [Form.rename_congr hkept' _ hbounded, hmade]

/-! ### The scope of a call -/

/-- Opens the scope of a call. -/
def opening (scope : Scope) (count : Nat) (args : List Value) : Eval Scope := do
  let inner ← newChild scope
  bindNumbered inner 1 count args
  return inner

theorem opening_eq (scope : Scope) (count : Nat) (args : List Value) (s : Store) :
    opening scope count args s = .ok (s.openCall scope count args).1 (s.openCall scope count args).2 := by
  rw [opening, bind_ok (show newChild scope s = .ok (s.newChild scope).1 (s.newChild scope).2 from rfl),
    bind_ok (bindNumbered_eq _ _ _ _ _)]
  rfl

theorem mirrors_opening {bound : Nat} {args : List Value} (hf : Injective f) (hhost : host.Uniform)
    (hargs : ∀ v ∈ args, v.rename f = v) (scope : Scope) (count : Nat) :
    Mirrors f bound (fun inner => inner) (opening scope count args) (opening scope count args) := by
  have hlaws : (Comparison.renamed f bound).Lawful host := Comparison.Renamed.lawful hf hhost
  have hsame : List.Forall₂ (Comparison.renamed f bound).value args args :=
    Comparison.Renamed.forall₂_iff.mpr ((List.map_congr_left hargs).trans (List.map_id _)).symm
  refine .bind leftTotal_eq (Comparison.sim_newChild hlaws scope) fun inner _ hinner => ?_
  subst hinner
  refine .bind leftTotal_eq (Comparison.sim_bindNumbered hlaws inner 1 count hsame) fun _ _ _ => ?_
  exact .pure rfl

theorem extends_openCall (s : Store) (scope : Scope) (count : Nat) (args : List Value) :
    s.Extends (s.openCall scope count args).2 :=
  (Store.Extends.push_frame s _).trans (.install _ _ _)

theorem closed_openCall {args : List Value} (hhost : host.Uniform) (hs : s.Closed)
    (hargs : ∀ v ∈ args, v.Bounded s.cells.size) (scope : Scope) (count : Nat) :
    (s.openCall scope count args).2.Closed := by
  have hclosed := (closed_of_mirrors (r := fun _ inner => inner) hs fun n hn =>
    mirrors_opening (skip_injective n) hhost (fun v hv => (hargs v hv).mono hn) scope count).1
  rwa [left, opening_eq] at hclosed

/-- A call opens its scope in a store that is tied to another like there. -/
theorem exists_openCall_of_tied {args : List Value} (hhost : host.Uniform) (ha : a.Closed) (hab : a.Tied f 0 b)
    (hf : Injective f) (hargs : ∀ v ∈ args, v.Bounded s.cells.size) (hfixed : ∀ i < s.cells.size, f i = i)
    (hle : s.cells.size ≤ a.cells.size) (scope : Scope) (count : Nat) :
    (b.openCall scope count args).1 = (a.openCall scope count args).1 ∧
      ∃ g, Injective g ∧ (∀ i < a.cells.size, g i = f i) ∧ (∀ i, a.cells.size ≤ i → b.cells.size ≤ g i) ∧
        (a.openCall scope count args).2.Tied g 0 (b.openCall scope count args).2 := by
  have hmirrors : ∀ g bound, Injective g → (∀ i < a.cells.size, g i = f i) →
      Mirrors g bound (fun inner => inner) (opening scope count args) (opening scope count args) :=
    fun g bound hg hsame => mirrors_opening hg hhost (fun v hv => (hargs v hv).rename fun i hi =>
      (hsame i (Nat.lt_of_lt_of_le hi hle)).trans (hfixed i hi)) scope count
  obtain ⟨g, bound, hg, hkept, hbeyond, hmatches⟩ :=
    exists_matches (r := fun _ inner => inner) ha hab hf hmirrors
  rw [opening_eq, opening_eq] at hmatches
  cases hmatches with
  | ok hsame htied => exact ⟨hsame, g, hg, hkept, hbeyond, Store.Tied.mono htied (Nat.zero_le _)⟩

/-! ### Parts that were expanded before -/

/-- Outcomes that are one outcome but for the numbers of vars and made forms. -/
def SameButNumbers (x y : Result Stop Store Value) : Prop :=
  ∃ z f g, Injective f ∧ Injective g ∧ Agrees f (Value.rename f) z x ∧ Agrees g (Value.rename g) z y

/-- The forms that are made when parts are expanded occur nowhere else, if nothing has happened since but that a
    function was made and the scope of a call was opened. So parts that are expanded then come to the same. Both ways
    are compared with a third, on which the parts are expanded in the scope of the call only. -/
theorem sameButNumbers_made (hhost : host.Uniform) (hs : s.Closed) (hlist : list.Bounded s.cells.size)
    (hhead : head.Bounded s.cells.size) (hparts : ∀ part ∈ parts, part.Bounded s.cells.size)
    (hquote : ∀ part ∈ parts, part.kind ≠ .varQuote) {values : List Value}
    (hvalues : ∀ v ∈ values, v.Bounded s.cells.size) {callable : Callable Value} {count : Nat} {made opened : Store}
    (hmade : made = ((s.expandAll scope parts).2.newFunction callable).2)
    (hopened : made.openCall scope count values = (inner, opened)) (levels : Nat) :
    SameButNumbers (applyParts host levels list head (s.expandAll scope parts).1 inner opened)
      (applyParts host levels list head (opened.expandAll scope parts).1 inner (opened.expandAll scope parts).2) := by
  -- the store in which only the function was made
  have hplain : (s.newFunction callable).2.Closed := hs.of_eq rfl rfl rfl
  have hgrown : (s.newFunction callable).2.Extends made ∧
      ∃ cells, made = { (s.newFunction callable).2 with cells := cells } := by
    obtain ⟨cells, hcells⟩ := exists_expandAll_eq s scope parts
    have hextends := s.extends_expandAll scope parts
    rw [hcells] at hextends hmade
    exact ⟨hmade ▸ ⟨hextends.frames, hextends.cells⟩, cells, hmade⟩
  have hsize : (s.newFunction callable).2.cells.size = s.cells.size := rfl
  have hmadeSize : made.cells.size = (s.expandAll scope parts).2.cells.size := by rw [hmade]; rfl
  obtain ⟨htied, hinjective⟩ := tied_of_extends hplain hgrown.1 hgrown.2
  -- and the scope of the call was opened
  obtain ⟨hinner, f, hf, hkept, hbeyond, hopening⟩ := exists_openCall_of_tied hhost hplain htied hinjective hvalues
    (fun i hi => graft_of_lt hi) (Nat.le_of_eq hsize.symm) scope count
  rw [hopened] at hinner hopening
  have hclosed := closed_openCall hhost hplain hvalues scope count
  have hlater := extends_openCall (s.newFunction callable).2 scope count values
  have hlate := extends_openCall made scope count values
  rw [hopened] at hlate
  generalize (s.newFunction callable).2.openCall scope count values = plain at *
  have hfixed : ∀ i < s.cells.size, f i = i := fun i hi => (hkept i hi).trans (graft_of_lt hi)
  have habreast : Abreast s scope f s plain.2 opened parts := by
    refine ⟨rfl, .refl s, ?_, hclosed, ?_, hopening, hf, hfixed, fun i hi hlt j => ?_⟩
    · refine .trans (.of_eq ?_ ?_) hlate <;> rw [hmade] <;> rfl
    · exact (show s.Extends (s.newFunction callable).2 from .of_eq rfl rfl).trans hlater
    · rcases Nat.lt_or_ge j s.cells.size with hj | hj
      · rw [hfixed j hj]
        exact Nat.ne_of_lt (Nat.lt_of_lt_of_le hj hi)
      · exact Nat.ne_of_gt (Nat.lt_of_lt_of_le (hmadeSize ▸ hlt) (hbeyond j hj))
  have hle : s.cells.size ≤ plain.2.cells.size := habreast.later.size_le
  have hexpanded := plain.2.size_le_expandAll scope parts
  obtain ⟨hclosed', hbounded⟩ := closed_expandAll hhost hclosed (fun part hpart => (hparts part hpart).mono hle) scope
  have hall := Nat.le_trans hle hexpanded
  -- the parts that were expanded before, and those expanded now
  obtain ⟨g, hg, hfixedg, -, hbefore, htiedg⟩ := habreast.exists_expandAll hs hparts hquote
  obtain ⟨k, hk, hfixedk, hnow, htiedk⟩ :=
    exists_expandAll_of_tied hhost hclosed hopening hf hfixed hle hparts scope
  obtain ⟨g', hg', -, hagrees⟩ := exists_agrees_applyParts hhost hclosed' htiedg hg (hlist.mono hall) (hhead.mono hall)
    hbounded levels inner
  obtain ⟨k', hk', -, hagrees'⟩ := exists_agrees_applyParts hhost hclosed' htiedk hk (hlist.mono hall)
    (hhead.mono hall) hbounded levels inner
  rw [hlist.rename hfixedg, hhead.rename hfixedg, hbefore] at hagrees
  rw [hlist.rename hfixedk, hhead.rename hfixedk, hnow] at hagrees'
  exact ⟨_, g', k', hg', hk', hagrees, hagrees'⟩

/-- A special form does not see what the parts were expanded to. -/
theorem exists_agrees_special (hhost : host.Uniform) (hs : s.Closed) (hlist : list.Bounded s.cells.size)
    (hsymbol : head.kind = .symbol) {identity : Nat} {special : Special}
    (hget : s.get scope head.text = .ok (.function identity (.special special))) (args parts : List Code)
    (levels : Nat) :
    ∃ f, Injective f ∧ (∀ i < s.cells.size, f i = i) ∧
      Agrees f (Value.rename f) (applyParts host levels list head args scope s)
        (applyParts host levels list head (s.expandAll scope parts).1 scope (s.expandAll scope parts).2) := by
  have hcause : ∀ error : Error, (error.through list).cause = error.cause :=
    fun error => (Error.Becomes.through list error).cause
  have hcause' : ∀ error : Error, (error.attributeTo list).cause = error.cause :=
    fun error => (Error.Becomes.attributeTo list error).cause
  obtain ⟨htied, hinjective⟩ := tied_of_extends hs (s.extends_expandAll scope parts) (exists_expandAll_eq s scope parts)
  have hfixed : ∀ i < s.cells.size, graft id s.cells.size (s.expandAll scope parts).2.cells.size i = i :=
    fun i hi => graft_of_lt hi
  cases levels with
  | zero => exact ⟨_, hinjective, hfixed, Agrees.mapError hcause hcause (.exhausted htied)⟩
  | succ levels =>
    have hlater := Store.get_expandAll hget parts
    have htask : (Task.invoke special list scope).Bounded s.cells.size := congrArg (Task.invoke special · scope) hlist
    obtain ⟨f, hf, hkept, -, hagrees⟩ := exists_agrees_run hhost hs htied hinjective htask (levels + 1)
    rw [htask.rename hfixed] at hagrees
    refine ⟨f, hf, fun i hi => (hkept i hi).trans (hfixed i hi), Agrees.mapError hcause hcause ?_⟩
    rw [bind_ok (run_symbol_ok hsymbol hget), bind_ok (run_symbol_ok hsymbol hlater)]
    exact Agrees.mapError hcause' hcause' hagrees

end Eval

end Lisplet
