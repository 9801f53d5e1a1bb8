import Lisplet.Proofs.Depicted
import Lisplet.Proofs.Sequence
import Lisplet.Proofs.Trail

/-! # Strict and lenient reading

A malformed source is refused in strict mode: the first of its errors is reported, and nothing happens. In lenient mode
it is evaluated like any other source, form by form, and goes well up to the first malformed one, which has no value.
What stands behind that form is never looked at. Without errors the modes are the same. -/

namespace Lisplet

open EStateM (Result)

/-! ### Where errors are -/

theorem Document.ordered_errors {α : Type} (number : Nat) (source : String) :
    Ordered source.toList 0 source.toList.length (read number source : Document α).errors := by
  obtain ⟨hle, hordered⟩ := ordered_errorsOf_root (α := α) number source.toList
  unfold read ofScan
  dsimp only
  split
  · next hlt => exact hordered.append (.malformed source.toList _ hlt) (Nat.zero_le _) (Nat.le_of_lt hlt)
  · exact hordered.mono (Nat.le_refl _) hle

/-- The first of forms that lie apart starts before the others. -/
theorem Document.Ordered.first {α : Type} {source : List Char} {lo hi : Nat} {form : Form α} {rest : List (Form α)}
    (h : Ordered source lo hi (form :: rest)) :
    ∃ start stop, form.metadata = .spanned start stop (sliceText source start stop) ∧
      ∀ other ∈ form :: rest, ∃ begins, other.metadata.start = some begins ∧ start ≤ begins := by
  obtain ⟨start, stop, hmetadata, -, hspan, -⟩ := h.span form List.mem_cons_self
  refine ⟨start, stop, hmetadata, fun other hother => ?_⟩
  rcases List.mem_cons.mp hother with rfl | hother
  · exact ⟨start, by rw [hmetadata]; rfl, Nat.le_refl _⟩
  · obtain ⟨ends, begins, hends, hbegins, hle⟩ := (List.pairwise_cons.mp h.pairwise).1 other hother
    rw [hmetadata] at hends
    obtain rfl := Option.some.inj hends
    exact ⟨begins, hbegins, Nat.le_trans (Nat.le_of_lt hspan) hle⟩

theorem Document.kind_root {α : Type} (number : Nat) (source : String) :
    (read number source : Document α).root.kind = .document := by
  have hkind := (depicts_root (α := α) number source.toList).2
  unfold read ofScan
  dsimp only
  split
  · rfl
  · exact hkind

namespace Eval

/-! ### Documents -/

variable {host : Host} {scope : Scope} {s t : Store} {node bad : Code} {forms : List Code} {identity levels k : Nat}

theorem run_evaluate_document (hkind : node.kind = .document)
    (hdo : s.get scope "do" = .ok (.function identity (.special .sequence))) (levels : Nat) :
    run host (levels + 1) (.evaluate node scope) s =
      through node (attributed node (run host levels (.invoke .sequence node scope))) s := by
  have hself : s.expandOnce? scope node = none := s.expandOnce?_eq_none scope (by simp [hkind]) (by simp [hkind])
  rw [run_evaluate_of_expand (s.expand_eq_self hself)]
  refine mapError_congr ?_ _
  simp only [evalForm, hkind, evalSugar, FormKind.sugarTarget?]
  rw [bind_ok (lookup_ok hdo)]
  rfl

theorem run_sequence_document (hkind : node.kind = .document) (levels : Nat) :
    run host (levels + 1) (.invoke .sequence node scope) = inTurn (run host levels) scope node.children := by
  have harguments : node.arguments = node.children := by simp only [Form.arguments, hkind]
  rw [← harguments]
  exact evalDo_eq node

/-- A malformed form has no value. -/
theorem run_evaluate_malformed (hbad : bad.kind = .syntaxError) (levels : Nat) (scope : Scope) (s : Store) :
    run host (levels + 1) (.evaluate bad scope) s =
      .error (.failed ((Error.ofCause (.notEvaluable .syntaxError)).through bad)) s := by
  have hself : s.expandOnce? scope bad = none := s.expandOnce?_eq_none scope (by simp [hbad]) (by simp [hbad])
  rw [run_evaluate_of_expand (s.expand_eq_self hself)]
  simp only [through, mapError, evalForm, hbad, evalSugar, FormKind.sugarTarget?]
  rfl

theorem inTurn_cons_error {go : Task → Eval Value} {form : Code} {stop : Stop}
    (h : go (.evaluate form scope) s = .error stop t) (rest : List Code) :
    inTurn go scope (form :: rest) s = .error stop t := by
  cases rest with
  | nil => exact h
  | cons next more =>
    show (go (.evaluate form scope) >>= fun _ => inTurn go scope (next :: more)) s = _
    rw [bind_apply, h]
    rfl

/-- What fails in turn is attributed already. -/
theorem exists_place_of_inTurn_failed {error : Error} : {forms : List Code} → {s : Store} →
    inTurn (run host levels) scope forms s = .error (.failed error) t → ∃ place, error.place = some place
  | [], _, h => by cases h
  | [last], _, h => by
    obtain ⟨place, hplace, -⟩ := exists_place_of_run_evaluate_failed h
    exact ⟨place, hplace⟩
  | form :: next :: rest, s, h => by
    change (run host levels (.evaluate form scope) >>= fun _ =>
      inTurn (run host levels) scope (next :: rest)) s = _ at h
    rw [bind_apply] at h
    cases hfirst : run host levels (.evaluate form scope) s with
    | ok v u =>
      rw [hfirst] at h
      exact exists_place_of_inTurn_failed h
    | error stop u =>
      rw [hfirst] at h
      cases h
      obtain ⟨place, hplace, -⟩ := exists_place_of_run_evaluate_failed hfirst
      exact ⟨place, hplace⟩

/-- What a document `root` comes to in which `bad` is malformed, told by what the forms before `bad` come to. -/
def haltAt (root bad : Code) : Result Stop Store Value → Result Stop Store Value
  | .ok _ t => .error (.failed (((Error.ofCause (.notEvaluable .syntaxError)).through bad).through root)) t
  | .error (.failed error) t => .error (.failed (error.through root)) t
  | .error .exhausted t => .error .exhausted t

theorem haltAt_ne_ok (root bad : Code) (before : Result Stop Store Value) (v : Value) (t : Store) :
    haltAt root bad before ≠ .ok v t := by
  cases before with
  | ok => simp [haltAt]
  | error stop => cases stop <;> simp [haltAt]

theorem run_evaluate_halts (hkind : node.kind = .document)
    (hdo : s.get scope "do" = .ok (.function identity (.special .sequence))) (hk : node.children[k]? = some bad)
    (hbad : bad.kind = .syntaxError) (hlevels : 3 ≤ levels) :
    run host levels (.evaluate node scope) s =
      haltAt node bad (inTurn (run host (levels - 2)) scope (node.children.take k) s) := by
  obtain ⟨levels, rfl⟩ := Nat.exists_eq_add_of_le' hlevels
  obtain ⟨hlt, hget⟩ := List.getElem?_eq_some_iff.mp hk
  have hsplit : node.children = node.children.take k ++ bad :: node.children.drop (k + 1) := by
    rw [← hget, ← List.drop_eq_getElem_cons hlt, List.take_append_drop]
  have hturn : inTurn (run host (levels + 1)) scope node.children s =
      (inTurn (run host (levels + 1)) scope (node.children.take k) >>= fun _ =>
        inTurn (run host (levels + 1)) scope (bad :: node.children.drop (k + 1))) s := by
    conv_lhs => rw [hsplit]
    rw [inTurn_append]
  rw [run_evaluate_document hkind hdo, run_sequence_document hkind]
  unfold through attributed mapError
  rw [hturn, bind_apply]
  show _ = haltAt node bad (inTurn (run host (levels + 1)) scope (node.children.take k) s)
  cases hbefore : inTurn (run host (levels + 1)) scope (node.children.take k) s with
  | ok v t =>
    have hfails : inTurn (run host (levels + 1)) scope (bad :: node.children.drop (k + 1)) t =
        .error (.failed ((Error.ofCause (.notEvaluable .syntaxError)).through bad)) t :=
      inTurn_cons_error (run_evaluate_malformed hbad levels scope t) _
    simp only [follow, hfails]
    rfl
  | error stop t =>
    cases stop with
    | exhausted => rfl
    | failed error =>
      obtain ⟨place, hplace⟩ := exists_place_of_inTurn_failed hbefore
      have hattributed : error.attributeTo node = error := by rw [Error.attributeTo, hplace]
      simp only [follow, hattributed]
      rfl

/-- Within two levels a document with a part is not even begun. -/
theorem run_evaluate_exhausted (hkind : node.kind = .document)
    (hdo : s.get scope "do" = .ok (.function identity (.special .sequence))) (hparts : node.children ≠ [])
    (hlevels : levels < 3) : run host levels (.evaluate node scope) s = .error .exhausted s := by
  match levels, hlevels with
  | 0, _ => rfl
  | 1, _ =>
    rw [run_evaluate_document hkind hdo]
    rfl
  | 2, _ =>
    obtain ⟨form, rest, hcons⟩ := List.exists_cons_of_ne_nil hparts
    have hturn : inTurn (run host 0) scope node.children s = .error .exhausted s := by
      rw [hcons]
      exact inTurn_cons_error rfl rest
    rw [run_evaluate_document hkind hdo, run_sequence_document hkind]
    unfold through attributed mapError
    rw [hturn]

/-- Documents that are the same up to a malformed form come to the same. -/
theorem run_evaluate_eq_of_take {other : Code} (hkind : node.kind = .document) (hother : other.kind = .document)
    (hdo : s.get scope "do" = .ok (.function identity (.special .sequence))) (hbad : bad.kind = .syntaxError)
    (hk : node.children[k]? = some bad) (hk' : other.children[k]? = some bad)
    (htake : other.children.take k = node.children.take k) (htext : other.text? = node.text?) (levels : Nat) :
    run host levels (.evaluate other scope) s = run host levels (.evaluate node scope) s := by
  rcases Nat.lt_or_ge levels 3 with hlevels | hlevels
  · have hparts : node.children ≠ [] := fun hnil => by simp [hnil] at hk
    have hparts' : other.children ≠ [] := fun hnil => by simp [hnil] at hk'
    rw [run_evaluate_exhausted hkind hdo hparts hlevels, run_evaluate_exhausted hother hdo hparts' hlevels]
  · rw [run_evaluate_halts hkind hdo hk hbad hlevels, run_evaluate_halts hother hdo hk' hbad hlevels, htake]
    cases hbefore : inTurn (run host (levels - 2)) scope (node.children.take k) s with
    | ok v t => simp only [haltAt, Error.through, Error.ofCause, htext]
    | error stop t =>
      cases stop with
      | exhausted => rfl
      | failed error =>
        obtain ⟨place, hplace⟩ := exists_place_of_inTurn_failed hbefore
        simp only [haltAt, Error.through, hplace, htext]

theorem run_evaluate_take (hkind : node.kind = .document)
    (hdo : s.get scope "do" = .ok (.function identity (.special .sequence))) (hk : node.children[k]? = some bad)
    (hbad : bad.kind = .syntaxError) (others : List Code) (levels : Nat) :
    run host levels (.evaluate { node with children := node.children.take (k + 1) ++ others } scope) s =
      run host levels (.evaluate node scope) s := by
  obtain ⟨hlt, hget⟩ := List.getElem?_eq_some_iff.mp hk
  have hlength : k < (node.children.take (k + 1)).length := by
    rw [List.length_take]
    omega
  have hother : ({ node with children := node.children.take (k + 1) ++ others } : Code).kind = .document := hkind
  refine run_evaluate_eq_of_take hkind hother hdo hbad hk ?_ ?_ rfl levels
  · rw [List.getElem?_append_left hlength, List.getElem?_take_of_succ, hk]
  · rw [List.take_append_of_le_length (Nat.le_of_lt hlength), List.take_take, Nat.min_eq_left (Nat.le_succ k)]

theorem run_evaluate_ne_ok (hkind : node.kind = .document)
    (hdo : s.get scope "do" = .ok (.function identity (.special .sequence))) (hk : node.children[k]? = some bad)
    (hbad : bad.kind = .syntaxError) (levels : Nat) (v : Value) (t : Store) :
    run host levels (.evaluate node scope) s ≠ .ok v t := by
  rcases Nat.lt_or_ge levels 3 with hlevels | hlevels
  · have hparts : node.children ≠ [] := fun hnil => by simp [hnil] at hk
    rw [run_evaluate_exhausted hkind hdo hparts hlevels]
    simp
  · rw [run_evaluate_halts hkind hdo hk hbad hlevels]
    exact haltAt_ne_ok node bad _ v t

end Eval

namespace Interpreter

/-- In strict mode the error that starts first is reported, and nothing happens. -/
theorem exists_malformed {i : Interpreter} (hstrict : i.settings.strictSyntax = true) {source : String} {s : Store}
    (herrors : (Document.read s.documents source : Document Value).errors ≠ []) :
    ∃ error ∈ (Document.read s.documents source : Document Value).errors, ∃ start stop,
      error.metadata = .spanned start stop (sliceText source.toList start stop) ∧
      (∀ other ∈ (Document.read s.documents source : Document Value).errors,
        ∃ begins, other.metadata.start = some begins ∧ start ≤ begins) ∧
      evalSource i source s =
        .error (.failed ⟨.malformed start stop (sliceText source.toList start stop), some ⟨error, []⟩⟩) s := by
  obtain ⟨error, rest, hcons⟩ := List.exists_cons_of_ne_nil herrors
  have hordered := Document.ordered_errors (α := Value) s.documents source
  have hrefused : evalSource i source s = .error (.failed (malformed error)) s := by rw [evalSource_eq, hstrict, hcons]
  rw [hcons] at hordered ⊢
  obtain ⟨start, stop, hmetadata, hfirst⟩ := hordered.first
  refine ⟨error, List.mem_cons_self, start, stop, hmetadata, hfirst, ?_⟩
  rw [hrefused, malformed, Form.text, Form.text?, hmetadata]
  rfl

/-- Sources in the two modes, for an interpreter in whose root scope `do` means the special form. In strict mode a
    source with errors is refused with the one that starts first, and the store stays as it is. Without errors the modes
    are the same. In lenient mode the forms of a source are evaluated in turn up to a malformed one. It has no value, so
    the source has none, and nothing that stands behind it makes a difference. -/
theorem evalSource_modes (i : Interpreter) {s : Store} {identity : Nat}
    (hdo : s.get i.scope "do" = .ok (.function identity (.special .sequence))) (source : String) :
    let document : Document Value := .read s.documents source
    let next : Store := { s with documents := s.documents + 1 }
    let strict : Interpreter := { i with settings := ⟨true⟩ }
    let lenient : Interpreter := { i with settings := ⟨false⟩ }
    (document.errors ≠ [] → ∃ error ∈ document.errors, ∃ start stop,
      error.metadata = .spanned start stop (sliceText source.toList start stop) ∧
      (∀ other ∈ document.errors, ∃ begins, other.metadata.start = some begins ∧ start ≤ begins) ∧
      evalSource strict source s =
        .error (.failed ⟨.malformed start stop (sliceText source.toList start stop), some ⟨error, []⟩⟩) s) ∧
    (document.errors = [] → evalSource strict source s = evalSource lenient source s) ∧
    ∀ k bad, document.root.children[k]? = some bad → bad.kind = .syntaxError →
      (3 ≤ i.levels → evalSource lenient source s = Eval.haltAt document.root bad
        (Eval.inTurn (Eval.run i.host (i.levels - 2)) i.scope (document.root.children.take k) next)) ∧
      (i.levels < 3 → evalSource lenient source s = .error .exhausted next) ∧
      (∀ v t, evalSource lenient source s ≠ .ok v t) ∧
      ∀ others, i.evaluate { document.root with children := document.root.children.take (k + 1) ++ others } next =
        evalSource lenient source s := by
  intro document next strict lenient
  refine ⟨exists_malformed rfl, fun herrors => ?_, fun k bad hk hbad => ?_⟩
  · rw [evalSource_of_errors_eq_nil strict herrors, evalSource_of_errors_eq_nil lenient herrors]
    rfl
  · have hkind : document.root.kind = .document := Document.kind_root s.documents source
    have hdo : next.get i.scope "do" = .ok (.function identity (.special .sequence)) := hdo
    have hparts : document.root.children ≠ [] := fun hnil => by simp [hnil] at hk
    have hlenient : evalSource lenient source s =
        Eval.run i.host i.levels (.evaluate document.root i.scope) next := evalSource_eq lenient source s
    rw [hlenient]
    exact ⟨Eval.run_evaluate_halts hkind hdo hk hbad, Eval.run_evaluate_exhausted hkind hdo hparts,
      Eval.run_evaluate_ne_ok hkind hdo hk hbad i.levels,
      fun others => Eval.run_evaluate_take hkind hdo hk hbad others i.levels⟩

/-- A definition and a list that is not closed. -/
def unclosedList : String := "(def a 1) (oops"

/-- A fresh interpreter of the command line in one of the modes. -/
def freshMode (strict : Bool) : Interpreter := { freshCommand.1 with settings := ⟨strict⟩ }

/-- In strict mode the list is reported; in lenient mode the definition is evaluated first. -/
theorem evalSource_modes_unclosedList :
    (∃ place, evalSource (freshMode true) unclosedList freshCommand.2 =
      .error (.failed ⟨.malformed 10 15 "(oops", place⟩) freshCommand.2) ∧
    evalSource (freshMode true) "(def a 1)" freshCommand.2 = evalSource (freshMode false) "(def a 1)" freshCommand.2 ∧
    ∃ root bad, root = (Document.read 0 unclosedList : Document Value).root ∧ root.children[1]? = some bad ∧
      bad.kind = .syntaxError ∧ 3 ≤ freshCommand.1.levels ∧
      evalSource (freshMode false) unclosedList freshCommand.2 = Eval.haltAt root bad
        (Eval.inTurn (Eval.run freshCommand.1.host (freshCommand.1.levels - 2)) freshCommand.1.scope
          (root.children.take 1) { freshCommand.2 with documents := 0 + 1 }) := by
  have hcheck : freshCommand.2.documents = 0 ∧ Eval.meansDo freshCommand.2 freshCommand.1.scope = true ∧
      3 ≤ freshCommand.1.levels ∧ (Document.read 0 "(def a 1)" : Document Value).errors.length = 0 ∧
      (Document.read 0 unclosedList : Document Value).errors.map (fun error => (error.metadata.start,
        error.metadata.stop)) = [(some 10, some 15)] ∧ sliceText unclosedList.toList 10 15 = "(oops" ∧
      (Document.read 0 unclosedList : Document Value).root.children.map Form.kind = [.list, .syntaxError] := by
    decide +kernel
  obtain ⟨hdocuments, hdo, hlevels, hclean, herrors, htext, hkinds⟩ := hcheck
  obtain ⟨identity, hdo⟩ := Eval.exists_of_meansDo hdo
  obtain ⟨hrefused, -, hlenient⟩ := evalSource_modes freshCommand.1 hdo unclosedList
  obtain ⟨-, hsame, -⟩ := evalSource_modes freshCommand.1 hdo "(def a 1)"
  rw [hdocuments] at hrefused hsame hlenient
  refine ⟨?_, hsame (List.length_eq_zero_iff.mp hclean), ?_⟩
  · generalize (Document.read 0 unclosedList : Document Value).errors = errors at hrefused herrors
    have hne : errors ≠ [] := fun hnil => by simp [hnil] at herrors
    obtain ⟨error, herror, start, stop, hmetadata, -, hstrict⟩ := hrefused hne
    have hspan := List.mem_map_of_mem (f := fun error : Code => (error.metadata.start, error.metadata.stop)) herror
    rw [herrors, List.mem_singleton, hmetadata] at hspan
    obtain ⟨rfl, rfl⟩ : start = 10 ∧ stop = 15 := by simpa [Metadata.spanned] using hspan
    rw [htext] at hstrict
    exact ⟨_, hstrict⟩
  · generalize (Document.read 0 unclosedList : Document Value).root = root at hlenient hkinds ⊢
    obtain ⟨first, bad, hchildren⟩ : ∃ first bad, root.children = [first, bad] := by
      have hlength := congrArg List.length hkinds
      rw [List.length_map] at hlength
      exact List.length_eq_two.mp hlength
    rw [hchildren] at hkinds
    have hbad : bad.kind = .syntaxError := by simpa using (List.cons.inj hkinds).2
    have hk : root.children[1]? = some bad := by rw [hchildren]; rfl
    exact ⟨root, bad, rfl, hk, hbad, hlevels, (hlenient 1 bad hk hbad).1 hlevels⟩

end Interpreter

end Lisplet
