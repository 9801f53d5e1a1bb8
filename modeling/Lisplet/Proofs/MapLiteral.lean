import Lisplet.Proofs.Entries
import Lisplet.Proofs.InOrder
import Lisplet.Proofs.Sequence

/-! # Map literals

The parts of a map form are keys and values in turn. If their number is odd, none of them is evaluated. Otherwise all of
them are evaluated before any key is looked at. If all keys are strings and keywords, the map has an entry for each of
them, with the value that was written last for it; if not, the first one that is neither is what the failure is about. -/

namespace Lisplet

open EStateM (Result)

/-- Whether a value can be the key of a map. -/
def Value.isKey : Value → Bool
  | string _ | keyword _ => true
  | _ => false

theorem Value.asKey_of_not_isKey {v : Value} (h : v.isKey = false) : v.asKey = .error (.badKey v.print) := by
  cases v with
  | string | keyword => cases h
  | _ => rfl

theorem Value.exists_toValue {v : Value} (h : v.isKey = true) : ∃ key : Key, v = key.toValue := by
  cases v with
  | string text => exact ⟨.string text, rfl⟩
  | keyword name => exact ⟨.keyword name, rfl⟩
  | _ => cases h

/-- Keys and values in turn. -/
def alternate (pairs : List (Value × Value)) : List Value :=
  pairs.flatMap fun pair => [pair.1, pair.2]

theorem exists_alternate : (values : List Value) → values.length % 2 = 0 → ∃ pairs, values = alternate pairs
  | [], _ => ⟨[], rfl⟩
  | [_], h => by simp at h
  | key :: v :: rest, h => by
    obtain ⟨pairs, hpairs⟩ := exists_alternate rest (by simp only [List.length_cons] at h; omega)
    exact ⟨(key, v) :: pairs, by rw [hpairs]; rfl⟩

/-! ### The entries of a map -/

/-- The value that was written last for a key. -/
def lastValue? (written : List (Key × Value)) (key : Key) : Option Value :=
  (written.filter (·.1 = key)).getLast?.map Prod.snd

/-- The entries are those of a map that was written: there are as many as different keys, and under every key that a
    value may stand for, `core/get` finds what was written last for it, or else gives `nil`. -/
structure Entries.Collects (entries : Entries Key Value) (written : List (Key × Value)) : Prop where
  count : entries.length = (written.map Prod.fst).dedup.length
  found : ∀ (key : Key) (host : Host) (levels : Nat) (s : Store),
    Eval.run host (levels + 1) (.call (.builtin .get) [.map entries, key.toValue]) s =
      .ok ((lastValue? written key).getD .nil) s

theorem Entries.get?_reverse (written : List (Key × Value)) (key : Key) :
    get? written.reverse key = lastValue? written key := by
  induction written with
  | nil => rfl
  | cons entry rest ih =>
    rw [List.reverse_cons, get?_append, ih, get?_cons]
    unfold lastValue?
    by_cases h : entry.1 = key
    · rw [List.filter_cons_of_pos (by simpa using h), List.getLast?_cons, if_pos h.symm]
      cases (rest.filter (·.1 = key)).getLast? <;> rfl
    · rw [List.filter_cons_of_neg (by simpa using h), if_neg (Ne.symm h)]
      exact Option.or_none

theorem Entries.collects_overlay (written : List (Key × Value)) : Collects (overlay [] written) written where
  count := length_overlay_nil written
  found key host levels s := by
    have hget : get? (overlay [] written) key = lastValue? written key := by
      rw [get?_overlay, get?_reverse]
      exact Option.or_none
    show Eval.callBuiltin host .get [.map (overlay [] written), key.toValue] s = _
    simp only [Eval.callBuiltin, Value.entry?, Key.asKey_toValue, hget]
    cases lastValue? written key <;> rfl

/-- What becomes of keys and values: a map, if all keys are strings and keywords, or a failure about the first that is
    neither. -/
inductive Eval.Maps (pairs : List (Value × Value)) : Except Cause Value → Prop
  | made {written : List (Key × Value)} {entries : Entries Key Value}
      (keys : pairs = written.map fun entry => (entry.1.toValue, entry.2)) (collects : entries.Collects written) :
      Maps pairs (.ok (.map entries))
  | refused {before after : List (Value × Value)} {bad v : Value} (first : pairs = before ++ (bad, v) :: after)
      (keys : ∀ pair ∈ before, pair.1.isKey = true) (neither : bad.isKey = false) :
      Maps pairs (.error (.badKey bad.print))

namespace Eval

theorem mapEntries_made (entries : Entries Key Value) (written : List (Key × Value)) (rest : List (Value × Value)) :
    mapEntries entries (alternate (written.map (fun entry => (entry.1.toValue, entry.2)) ++ rest)) =
      mapEntries (entries.overlay written) (alternate rest) := by
  induction written generalizing entries with
  | nil => rfl
  | cons entry written ih =>
    show mapEntries entries (entry.1.toValue :: entry.2 ::
      alternate (written.map (fun entry => (entry.1.toValue, entry.2)) ++ rest)) = _
    rw [mapEntries, Key.asKey_toValue]
    exact ih _

/-- The keys up to the first that is no key, if there is one. -/
theorem exists_written (pairs : List (Value × Value)) :
    (∃ written : List (Key × Value), pairs = written.map fun entry => (entry.1.toValue, entry.2)) ∨
    ∃ (written : List (Key × Value)) (bad v : Value) (after : List (Value × Value)), bad.isKey = false ∧
      pairs = (written.map fun entry => (entry.1.toValue, entry.2)) ++ (bad, v) :: after := by
  induction pairs with
  | nil => exact .inl ⟨[], rfl⟩
  | cons pair rest ih =>
    obtain ⟨first, w⟩ := pair
    cases hfirst : first.isKey with
    | false => exact .inr ⟨[], first, w, rest, hfirst, rfl⟩
    | true =>
      obtain ⟨key, rfl⟩ := Value.exists_toValue hfirst
      rcases ih with ⟨written, rfl⟩ | ⟨written, bad, v, after, hbad, rfl⟩
      · exact .inl ⟨(key, w) :: written, rfl⟩
      · exact .inr ⟨(key, w) :: written, bad, v, after, hbad, rfl⟩

theorem maps_mapEntries (pairs : List (Value × Value)) :
    Maps pairs ((mapEntries [] (alternate pairs)).map .map) := by
  rcases exists_written pairs with ⟨written, rfl⟩ | ⟨written, bad, v, after, hbad, rfl⟩
  · have hmade := mapEntries_made [] written []
    rw [List.append_nil] at hmade
    rw [hmade]
    exact .made rfl (Entries.collects_overlay written)
  · rw [mapEntries_made]
    show Maps _ ((mapEntries _ (bad :: v :: alternate after)).map .map)
    rw [mapEntries, Value.asKey_of_not_isKey hbad]
    refine .refused rfl (fun pair hpair => ?_) hbad
    obtain ⟨entry, -, rfl⟩ := List.mem_map.mp hpair
    cases entry.1 <;> rfl

variable {host : Host} {scope : Scope} {s : Store} {node : Code}

theorem run_evaluate_map_eq (hkind : node.kind = .map) {identity : Nat}
    (hmap : s.get scope "internal/map" = .ok (.function identity (.special .map))) (levels : Nat) :
    run host (levels + 2) (.evaluate node scope) s =
      through node (attributed node (evalMap (run host levels) node scope)) s := by
  have hstands : node.kind.callable? = some (.special .map) := by
    rw [hkind]
    rfl
  rw [run_evaluate_node hstands hmap]
  rfl

/-- A map form whose parts are odd in number fails in the store it began in. If their number is even, either one of the
    parts stops after those before it, or all of them give values, from left to right, and what becomes of these is the
    outcome, in the store that the last part has left. -/
theorem run_evaluate_map (host : Host) {s : Store} {scope : Scope} {node : Code} (hkind : node.kind = .map)
    {identity : Nat} (hmap : s.get scope "internal/map" = .ok (.function identity (.special .map))) (levels : Nat) :
    (node.children.length % 2 = 1 → run host (levels + 2) (.evaluate node scope) s =
      .error (Stop.outOf node (.failed (.ofCause
        (.badArguments "internal/map" "a map literal needs an even number of forms")))) s) ∧
    (node.children.length % 2 = 0 →
      (∃ stop t, Halts (run host levels) scope s node.children stop t ∧
        run host (levels + 2) (.evaluate node scope) s = .error (stop.outOf node) t) ∨
      (∃ pairs t v, Yields (run host levels) scope s node.children (alternate pairs) t ∧ Maps pairs (.ok v) ∧
        run host (levels + 2) (.evaluate node scope) s = .ok v t) ∨
      ∃ pairs t cause, Yields (run host levels) scope s node.children (alternate pairs) t ∧ Maps pairs (.error cause) ∧
        run host (levels + 2) (.evaluate node scope) s = .error (Stop.outOf node (.failed (.ofCause cause))) t) := by
  have harguments : node.arguments = node.children := by simp only [Form.arguments, hkind]
  rw [run_evaluate_map_eq hkind hmap, through_attributed]
  constructor
  · intro hodd
    rw [evalMap, harguments, if_neg (by omega)]
    rfl
  · intro heven
    have heval : evalMap (run host levels) node scope s = (do
        let values ← evaluateAll (run host levels) scope node.children
        let entries ← ofExcept (mapEntries [] values)
        return Value.map entries) s := by
      rw [evalMap, harguments, if_pos heven]
    rcases yields_or_halts (run host levels) scope s node.children with ⟨values, t, hyields⟩ | ⟨stop, t, hhalts⟩
    · obtain ⟨pairs, rfl⟩ := exists_alternate values (hyields.length_eq ▸ heven)
      rw [bind_ok hyields.evaluateAll] at heval
      have hmaps := maps_mapEntries pairs
      cases hentries : mapEntries [] (alternate pairs) with
      | ok entries =>
        rw [hentries] at hmaps heval
        exact .inr (.inl ⟨pairs, t, _, hyields, hmaps, congrArg (outOf node) heval⟩)
      | error cause =>
        rw [hentries] at hmaps heval
        exact .inr (.inr ⟨pairs, t, cause, hyields, hmaps, congrArg (outOf node) heval⟩)
    · refine .inl ⟨stop, t, hhalts, ?_⟩
      rw [heval, bind_error hhalts.evaluateAll]
      rfl

/-- A map in which one key is written twice, and another has the same name. -/
def repeatedKey : Code := sourceForm "\x7b:a 1 \"a\" 2 :a (def x 3)\x7d"

theorem run_evaluate_map_repeatedKey :
    printed (freshOutcome repeatedKey) = some "\x7b:a #'x \"a\" 2\x7d" ∧
    ∃ pairs t v, Yields (run Command.host 9) freshCommand.1.scope freshCommand.2 repeatedKey.children (alternate pairs) t ∧
      Maps pairs (.ok v) ∧ freshOutcome repeatedKey = .ok v t := by
  have hcheck : repeatedKey.kind = .map ∧ repeatedKey.children.length % 2 = 0 ∧
      printed (freshOutcome repeatedKey) = some "\x7b:a #'x \"a\" 2\x7d" := by decide +kernel
  obtain ⟨hkind, heven, hprinted⟩ := hcheck
  obtain ⟨identity, hmap⟩ := exists_get_special (Store.names_inBase.1 .map (by simp [Special.ofData]))
  refine ⟨hprinted, ?_⟩
  rcases (run_evaluate_map Command.host hkind hmap 9).2 heven with ⟨stop, t, -, hstop⟩ | hmade | ⟨_, t, cause, -, -, hcause⟩
  · simp [freshOutcome, hstop, printed] at hprinted
  · exact hmade
  · simp [freshOutcome, hcause, printed] at hprinted

end Eval

end Lisplet
