import Lisplet.Command
import Lisplet.Proofs.Headed

/-! # Properties of values that pass between wholes and parts

A property of values is hereditary if plain values have it and vectors, sets and methods have it exactly if all values
in them do. The values in a map have it if the map does, and a map has it that is built up from such values; it may say
more of a map than of its values. Whatever the evaluator takes out of values or makes of them has the property again:
items, entries, members, sets, maps and the results of methods. -/

namespace Lisplet

/-- Whether a value holds no other value and cannot be called. -/
def Value.isPlain : Value → Bool
  | nil | bool _ | int _ | double _ | string _ | keyword _ | form _ => true
  | _ => false

/-- What was found has `P`, be it a value or a function that is made by finding it. -/
def Member.Has (P : Value → Prop) : Member → Prop
  | .value v => P v
  | .procedure p => ∀ identity, P (.function identity (.procedure p))

/-- A property that plain values have, that collections and methods share with the values in them, and that maps keep
    when entries are put in. -/
structure Value.Hereditary (P : Value → Prop) : Prop where
  plain : ∀ {v : Value}, v.isPlain = true → P v
  vector : ∀ {items : List Value}, P (.vector items) ↔ ∀ item ∈ items, P item
  set : ∀ {items : List Value}, P (.set items) ↔ ∀ item ∈ items, P item
  map : ∀ {entries : List (Key × Value)}, P (.map entries) → ∀ entry ∈ entries, P entry.2
  noEntries : P (.map [])
  insert : ∀ {entries : Entries Key Value} {v : Value}, P (.map entries) → P v → ∀ key, P (.map (entries.insert key v))
  method : ∀ {identity : Nat} {m : Method Value},
    P (.function identity (.procedure (.method m))) ↔ ∀ item ∈ m.items, P item

namespace Value.Hereditary

variable {P : Value → Prop} {fields : Fields} {v target key : Value} {name : String} {m : Member}

/-! ### Collections -/

theorem firstArgument (hP : Hereditary P) {args : List Value} (h : ∀ arg ∈ args, P arg) : P (firstArgument args) := by
  cases args with
  | nil => exact hP.plain rfl
  | cons v rest => exact h v (by simp)

theorem toSeq (hP : Hereditary P) (h : P v) {items : List Value} (hs : v.toSeq = .ok items) :
    ∀ item ∈ items, P item := by
  cases v with
  | nil =>
    obtain rfl := Except.ok.inj hs
    simp
  | vector all =>
    obtain rfl := Except.ok.inj hs
    exact hP.vector.mp h
  | set all =>
    obtain rfl := Except.ok.inj hs
    exact hP.set.mp h
  | _ => cases hs

theorem mem_of_distinctOnto {kept rest : List Value} (h : v ∈ Value.distinctOnto kept rest) : v ∈ kept ∨ v ∈ rest := by
  induction rest generalizing kept with
  | nil => exact .inl h
  | cons u rest ih =>
    rw [Value.distinctOnto] at h
    split at h
    · exact (ih h).imp_right (List.mem_cons_of_mem u)
    · rcases ih h with hkept | hrest
      · rcases List.mem_append.mp hkept with hkept | hu
        · exact .inl hkept
        · exact .inr (by simp [List.mem_singleton.mp hu])
      · exact .inr (List.mem_cons_of_mem u hrest)

theorem ofItems (hP : Hereditary P) {values : List Value} (h : ∀ v ∈ values, P v) : P (Value.ofItems values) := by
  refine hP.set.mpr fun item hitem => ?_
  rcases mem_of_distinctOnto hitem with hnil | hmem
  · cases hnil
  · exact h item hmem

theorem mapEntries (hP : Hereditary P) {values : List Value} (h : ∀ v ∈ values, P v) {entries : Entries Key Value}
    (he : Eval.mapEntries [] values = .ok entries) : P (.map entries) := by
  -- the induction has to know the entries made so far
  suffices hall : ∀ before : Entries Key Value, P (.map before) → Eval.mapEntries before values = .ok entries →
      P (.map entries) from hall [] hP.noEntries he
  clear he
  intro before hbefore he
  fun_induction Eval.mapEntries before values with
  | case1 before key value rest k hk ih =>
    exact ih (fun v hv => h v (by simp [hv])) (hP.insert hbefore (h value (by simp)) k) he
  | case2 before key value rest cause hk => cases he
  | case3 values before hshort =>
    obtain rfl := Except.ok.inj he
    exact hbefore

/-! ### Members -/

theorem has_of_get? {κ : Type} [BEq κ] {entries : Entries κ Value} {key : κ} (h : ∀ entry ∈ entries, P entry.2)
    (hm : (entries.get? key).map Member.value = some m) : m.Has P := by
  obtain ⟨v, hv, rfl⟩ := Option.map_eq_some_iff.mp hm
  obtain ⟨entry, hentry, rfl⟩ := Entries.mem_of_get? hv
  exact h entry hentry

theorem property? (hP : Hereditary P) (hm : target.property? name = some m) : m.Has P := by
  unfold Value.property? at hm
  split at hm
  case h_5 => cases hm
  all_goals
    split at hm
    · obtain rfl := Option.some.inj hm
      exact hP.plain rfl
    · cases hm

theorem method? (hP : Hereditary P) (h : P target) (hm : target.method? name = some m) : m.Has P := by
  obtain ⟨found, hfound, rfl⟩ := Option.map_eq_some_iff.mp hm
  refine fun identity => hP.method.mpr ?_
  rcases List.mem_cons.mp (List.mem_of_find?_eq_some hfound) with rfl | hmem
  · simp [Method.items]
  · cases target with
    | string text =>
      obtain ⟨method, -, rfl⟩ := List.mem_map.mp hmem
      simp [Method.items]
    | vector items =>
      obtain ⟨method, -, rfl⟩ := List.mem_map.mp hmem
      exact hP.vector.mp h
    | set items =>
      obtain rfl := List.mem_singleton.mp hmem
      exact hP.set.mp h
    | map entries =>
      obtain rfl := List.mem_singleton.mp hmem
      intro item hitem
      obtain ⟨entry, hentry, rfl⟩ := List.mem_map.mp hitem
      exact hP.map h entry hentry
    | _ => cases hmem

theorem dataMember? (hP : Hereditary P) (hf : ∀ o name m, fields o name = some m → m.Has P) (h : P target)
    (hm : target.dataMember? fields name = some m) : m.Has P := by
  cases target with
  | map entries => exact has_of_get? (hP.map h) hm
  | object o => exact hf _ _ m hm
  | _ => cases hm

theorem keywordMember? (hP : Hereditary P) (hf : ∀ o name m, fields o name = some m → m.Has P) (h : P target)
    (hm : target.keywordMember? fields name = some m) : m.Has P := by
  cases target with
  | map entries => exact has_of_get? (hP.map h) hm
  | object o => exact hf _ _ m hm
  | _ => cases hm

theorem member? (hP : Hereditary P) (hf : ∀ o name m, fields o name = some m → m.Has P) (h : P target)
    (hm : target.member? fields name = some m) : m.Has P := by
  simp only [Value.member?, Option.orElse_eq_orElse, Option.orElse_eq_or, Option.or_eq_some_iff] at hm
  rcases hm with hdata | ⟨-, hkeyword | ⟨-, hproperty | ⟨-, hmethod⟩⟩⟩
  · exact hP.dataMember? hf h hdata
  · exact hP.keywordMember? hf h hkeyword
  · exact hP.property? hproperty
  · exact hP.method? h hmethod

theorem entry? (hP : Hereditary P) (hf : ∀ o name m, fields o name = some m → m.Has P) (h : P target)
    (hm : target.entry? fields key = some m) : m.Has P := by
  unfold Value.entry? at hm
  split at hm
  · split at hm
    · exact has_of_get? (hP.map h) hm
    · cases hm
  · split at hm
    · obtain ⟨v, hv, rfl⟩ := Option.map_eq_some_iff.mp hm
      exact hP.vector.mp h v (List.mem_of_getElem? hv)
    · cases hm
  · exact hf _ _ m hm
  · exact hf _ _ m hm
  · cases hm

/-! ### Methods -/

theorem of_cut (hP : Hereditary P) {text : String} {args : List Value} (h : StringMethod.cut text args = .ok v) :
    P v := by
  obtain ⟨start, h⟩ := exists_of_bind_eq_ok h
  dsimp only at h
  split at h <;>
  · obtain ⟨stop, h⟩ := exists_of_bind_eq_ok h
    obtain rfl := Except.ok.inj h
    exact hP.plain rfl

theorem of_map_eq_ok {x : Except Cause String} {f : String → Value} (hf : ∀ part, P (f part)) (h : x.map f = .ok v) :
    P v := by
  cases x with
  | error cause => cases h
  | ok part =>
    obtain rfl := Except.ok.inj h
    exact hf part

theorem of_stringMethod (hP : Hereditary P) {method : StringMethod} {text : String} {args : List Value}
    (h : method.run text args = .ok v) : P v := by
  cases method with
  | toUpperCase | toLowerCase | trim =>
    obtain rfl := Except.ok.inj h
    exact hP.plain rfl
  | includes | startsWith | endsWith => exact of_map_eq_ok (fun _ => hP.plain rfl) h
  | split =>
    refine of_map_eq_ok (fun separator => hP.vector.mpr ?_) h
    intro item hitem
    obtain ⟨part, -, rfl⟩ := List.mem_map.mp hitem
    exact hP.plain rfl
  | substring => exact hP.of_cut h

/-- What a method gives is plain, or a vector of strings. -/
theorem of_run (hP : Hereditary P) {method : Method Value} {args : List Value} (h : method.run args = .ok v) : P v := by
  cases method with
  | ofString method text => exact hP.of_stringMethod h
  | toString _ | hasItem _ | hasKey _ =>
    obtain rfl := Except.ok.inj h
    exact hP.plain rfl
  | ofVector method items =>
    obtain rfl := Except.ok.inj h
    cases method with
    | includes => exact hP.plain rfl
    | indexOf =>
      simp only [VectorMethod.run]
      split
      · exact hP.plain rfl
      · exact hP.plain rfl
    | join => exact hP.plain rfl

end Value.Hereditary

/-! ### Stores and hosts -/

/-- Every var of the store holds a value that has `P`. -/
def Store.Holds (P : Value → Prop) (s : Store) : Prop :=
  ∀ cell ∈ s.cells, P cell.value

/-- Everything that the host gives has `P`, if what it was given has. -/
structure Host.Gives (P : Value → Prop) (host : Host) : Prop where
  call : ∀ {s : Store} {f : HostFunction} {args : List Value} {v : Value}, s.Holds P → (∀ arg ∈ args, P arg) →
    host.call f args s = .ok v → P v
  invoke : ∀ {s : Store} {name : String} {form : Code} {scope : Scope} {v : Value}, s.Holds P →
    host.invoke name form scope s = .ok v → P v
  fields : ∀ (o : HostObject) (name : String) (m : Member), host.fields o name = some m → m.Has P

namespace Store.Holds

variable {P : Value → Prop} {s t : Store} {v : Value}

theorem of_eq (hs : s.Holds P) (h : t.cells = s.cells) : t.Holds P := by
  intro cell hcell
  exact hs cell (h ▸ hcell)

theorem held (hP : Value.Hereditary P) (hs : s.Holds P) (var : Var) : P (s.held var) := by
  unfold Store.held
  split
  · next cell hcell => exact hs cell (Array.mem_of_getElem? hcell)
  · exact hP.plain rfl

theorem newVar (hs : s.Holds P) (name : String) (hv : P v) (m : Metadata Value) : (s.newVar name v m).2.Holds P := by
  intro cell hcell
  rcases Array.mem_push.mp hcell with hcell | rfl
  · exact hs cell hcell
  · exact hv

theorem define (hs : s.Holds P) (scope : Scope) (name : String) (hv : P v) (m : Metadata Value) :
    (s.define scope name v m).2.Holds P :=
  (hs.newVar name hv m).of_eq rfl

theorem get (hP : Value.Hereditary P) (hs : s.Holds P) {scope : Scope} {name : String}
    (h : s.get scope name = .ok v) : P v := by
  unfold Store.get at h
  split at h
  · obtain rfl := Except.ok.inj h
    exact hs.held hP _
  · cases h

theorem newNumber (hP : Value.Hereditary P) (hs : s.Holds P) : s.newNumber.2.Holds P :=
  hs.newVar "" (hP.plain rfl) .empty

theorem snapshot (hP : Value.Hereditary P) (hs : s.Holds P) (scope : Scope) (name : String) :
    (s.snapshot scope name).2.Holds P := by
  unfold Store.snapshot
  split
  · exact hs.newVar _ (hs.held hP _) _
  · exact hs.newVar _ (hP.plain rfl) _

theorem expand (hP : Value.Hereditary P) (hs : s.Holds P) (scope : Scope) (form : Code) :
    (s.expand scope form).2.Holds P := by
  rcases s.expand_rules scope form with h | ⟨name, -, -, h⟩ | ⟨call, -, -, h⟩
  · rwa [h]
  · rw [h]
    exact hs.snapshot hP scope name
  · rw [h]
    exact hs.newNumber hP

theorem expandAll (hP : Value.Hereditary P) (hs : s.Holds P) (scope : Scope) (forms : List Code) :
    (s.expandAll scope forms).2.Holds P := by
  induction forms generalizing s with
  | nil => exact hs
  | cons form rest ih => exact ih (hs.expand hP scope form)

/-- A fresh root scope binds values of the property, if special forms and the functions of the language have it. -/
theorem founding (hP : Value.Hereditary P) (special : ∀ identity special, P (.function identity (.special special)))
    (builtin : ∀ identity builtin, P (.function identity (.procedure (.builtin builtin)))) :
    Founding (Store.Holds P) P where
  nil := hP.plain rfl
  bool _ := hP.plain rfl
  special := special
  builtin := builtin
  newRoot hs := hs.of_eq rfl
  newIdentity hs := hs.of_eq rfl
  define hs scope name _ hv := hs.define scope name hv .empty

end Store.Holds

/-- The host of the command line gives `nil` or fails. -/
theorem Command.gives_host {P : Value → Prop} (hP : Value.Hereditary P) : Command.host.Gives P where
  call {s f args v} _ _ h := by
    unfold Command.host at h
    dsimp only at h
    split at h
    · split at h
      · obtain rfl := Except.ok.inj h
        exact hP.plain rfl
      · cases h
    · obtain rfl := Except.ok.inj h
      exact hP.plain rfl
  invoke _ h := nomatch h
  fields _ _ _ h := nomatch h

end Lisplet
