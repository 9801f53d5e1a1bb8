import Lisplet.Proofs.Shape
import Lisplet.Proofs.Source

/-! # Headed code

A `#()` function evaluates its head in the scope it was made in, so a head that is a form of its own could change that
scope. Code is headed if every `#()` form in it has a symbol for its head. This module follows headed code through
values, members, metadata and the store. -/

namespace Lisplet

/-- Whether a `#()` form has a symbol for its head, if it has parts at all. -/
def Form.isHeaded {α : Type} (form : Form α) : Bool :=
  form.kind != .lambda || form.children.head?.all (·.kind == .symbol)

/-- The values that a method was found with. -/
def Method.items {α : Type} : Method α → List α
  | ofVector _ items | hasItem items => items
  | hasKey entries => entries.map (·.2)
  | toString _ | ofString _ _ => []

mutual

/-- A form in which every `#()` form has a symbol for its head, and so has everything that is known about it. -/
inductive Form.Headed : Code → Prop
  | mk {form : Code} (hhead : form.isHeaded = true) (hparts : ∀ part ∈ form.children, Form.Headed part)
      (hentries : ∀ entry ∈ form.metadata.entries, Value.Headed entry.2) : Form.Headed form

/-- A value in which all code is headed. -/
inductive Value.Headed : Value → Prop
  | nil : Value.Headed .nil
  | bool (b : Bool) : Value.Headed (.bool b)
  | int (n : Int64) : Value.Headed (.int n)
  | double (d : Double) : Value.Headed (.double d)
  | string (text : String) : Value.Headed (.string text)
  | keyword (name : String) : Value.Headed (.keyword name)
  | vector {items : List Value} (h : ∀ item ∈ items, Value.Headed item) : Value.Headed (.vector items)
  | set {items : List Value} (h : ∀ item ∈ items, Value.Headed item) : Value.Headed (.set items)
  | map {entries : List (Key × Value)} (h : ∀ entry ∈ entries, Value.Headed entry.2) : Value.Headed (.map entries)
  | form {form : Code} (h : Form.Headed form) : Value.Headed (.form form)
  | var (var : Var) : Value.Headed (.var var)
  | special (identity : Nat) (special : Special) : Value.Headed (.function identity (.special special))
  | hostForm (identity : Nat) (name : String) : Value.Headed (.function identity (.hostForm name))
  | procedure (identity : Nat) {p : Procedure Value} (h : Procedure.Headed p) :
      Value.Headed (.function identity (.procedure p))
  | object (o : HostObject) : Value.Headed (.object o)

/-- A procedure of headed code; the head of a `#()` function is a symbol. -/
inductive Procedure.Headed : Procedure Value → Prop
  | builtin (function : Builtin) : Procedure.Headed (.builtin function)
  | method {m : Method Value} (h : ∀ item ∈ m.items, Value.Headed item) : Procedure.Headed (.method m)
  | closure (name : Option String) (params : List String) {body : Code} (h : Form.Headed body) (scope : Scope) :
      Procedure.Headed (.closure name params body scope)
  | anonymous {form head : Code} {args : List Code} (hform : Form.Headed form) (hhead : Form.Headed head)
      (hsymbol : head.kind = .symbol) (hargs : ∀ arg ∈ args, Form.Headed arg) (params : Nat) (scope : Scope) :
      Procedure.Headed (.anonymous form head args params scope)
  | host (function : HostFunction) : Procedure.Headed (.host function)

end

/-- What is known is headed. -/
def Metadata.Headed (m : Metadata Value) : Prop := ∀ entry ∈ m.entries, entry.2.Headed

/-- A member of headed code. -/
inductive Member.Headed : Member → Prop
  | value {v : Value} (h : v.Headed) : Member.Headed (.value v)
  | procedure {p : Procedure Value} (h : p.Headed) : Member.Headed (.procedure p)

/-- A store whose vars hold headed code only. -/
structure Store.Headed (s : Store) : Prop where
  value : ∀ (i : Nat) (cell : Cell), s.cells[i]? = some cell → cell.value.Headed
  metadata : ∀ (i : Nat) (cell : Cell), s.cells[i]? = some cell → cell.metadata.Headed

/-- A host that makes no code which is not headed out of code that is. -/
structure Host.Headed (host : Host) : Prop where
  call : ∀ (f : HostFunction) (args : List Value) (s : Store) (v : Value), (∀ arg ∈ args, arg.Headed) → s.Headed →
    host.call f args s = .ok v → v.Headed
  invoke : ∀ (name : String) (form : Code) (scope : Scope) (s : Store) (v : Value), form.Headed → s.Headed →
    host.invoke name form scope s = .ok v → v.Headed
  fields : ∀ (o : HostObject) (name : String) (m : Member), host.fields o name = some m → m.Headed

/-! ### Forms -/

namespace Form.Headed

variable {form : Code}

theorem head (h : form.Headed) : form.isHeaded = true := by
  cases h with
  | mk hhead _ _ => exact hhead

theorem parts (h : form.Headed) : ∀ part ∈ form.children, part.Headed := by
  cases h with
  | mk _ hparts _ => exact hparts

theorem entries (h : form.Headed) : ∀ entry ∈ form.metadata.entries, entry.2.Headed := by
  cases h with
  | mk _ _ hentries => exact hentries

theorem kind_of_head? (h : form.Headed) (hk : form.kind = .lambda) :
    ∀ head ∈ form.children.head?, head.kind = .symbol := by
  intro head hhead
  have hheaded := h.head
  rw [Option.mem_def] at hhead
  simpa [Form.isHeaded, hk, hhead] using hheaded

theorem arguments (h : form.Headed) : ∀ part ∈ form.arguments, part.Headed := by
  intro part hpart
  unfold Form.arguments at hpart
  split at hpart
  · exact h.parts part (List.mem_of_mem_tail hpart)
  · exact h.parts part (List.mem_of_mem_tail hpart)
  · exact h.parts part hpart

theorem symbol (id : FormId) (name : String) : (Form.symbol id name : Code).Headed :=
  .mk rfl (by simp [Form.symbol]) (by simp [Form.symbol, Metadata.withText])

theorem implicitDo (number : Nat) {body : List Code} (h : form.Headed) (hb : ∀ part ∈ body, part.Headed) :
    (form.implicitDo number body).Headed := by
  refine .mk rfl ?_ h.entries
  intro part hpart
  rcases List.mem_cons.mp hpart with rfl | hpart
  · exact .symbol _ _
  · exact hb part hpart

theorem memberCall? {number : Nat} {call : Code} (h : form.Headed) (hc : form.memberCall? number = some call) :
    call.Headed := by
  obtain ⟨head, target, args, text, member, hchildren, -, -, -, rfl⟩ := Form.exists_of_memberCall? hc
  have hparts := h.parts
  rw [hchildren] at hparts
  refine .mk rfl ?_ h.entries
  intro part hpart
  simp only [List.mem_cons] at hpart
  rcases hpart with rfl | rfl | rfl | hpart
  · exact .symbol _ _
  · exact hparts _ (by simp)
  · exact .symbol _ _
  · exact hparts _ (by simp [hpart])

end Form.Headed

/-! ### Metadata -/

namespace Metadata.Headed

variable {m other : Metadata Value} {v : Value}

theorem empty : (Metadata.empty : Metadata Value).Headed := by
  simp [Metadata.Headed, Metadata.empty]

theorem insert (h : m.Headed) (name : String) (hv : v.Headed) : (m.insert name v).Headed := by
  intro entry hentry
  rcases Entries.mem_insert hentry with rfl | hentry
  · exact hv
  · exact h entry hentry

theorem merge (h : m.Headed) (ho : other.Headed) : (m.merge other).Headed := by
  intro entry hentry
  rcases Entries.mem_overlay hentry with hentry | hentry
  · exact h entry hentry
  · exact ho entry hentry

end Metadata.Headed

/-! ### Values -/

namespace Value.Headed

variable {v : Value}

theorem ofNumber (number : Literal.Number) : (Value.ofNumber number).Headed := by
  cases number with
  | int n => exact .int n
  | double d => exact .double d

theorem toSeq {items : List Value} (h : v.Headed) (hs : v.toSeq = .ok items) : ∀ item ∈ items, item.Headed := by
  cases h with
  | nil =>
    obtain rfl := Except.ok.inj hs
    simp
  | vector hitems =>
    obtain rfl := Except.ok.inj hs
    exact hitems
  | set hitems =>
    obtain rfl := Except.ok.inj hs
    exact hitems
  | _ => cases hs

theorem asMetadata {m : Metadata Value} (h : v.Headed) (hm : v.asMetadata = .ok m) : m.Headed := by
  cases h with
  | nil =>
    obtain rfl := Except.ok.inj hm
    exact .empty
  | @map entries hentries =>
    obtain rfl := Except.ok.inj hm
    refine List.foldlRecOn (motive := Metadata.Headed) entries _ .empty fun start hstart entry hentry => ?_
    have hvalue := hentries entry hentry
    obtain ⟨key, v⟩ := entry
    cases key with
    | keyword name => exact hstart.insert _ hvalue
    | string text => exact hstart.insert _ hvalue
  | _ => cases hm

theorem firstArgument {args : List Value} (h : ∀ arg ∈ args, arg.Headed) : (firstArgument args).Headed := by
  cases args with
  | nil => exact .nil
  | cons v rest => exact h v (by simp)

theorem ofItems {values : List Value} (h : ∀ v ∈ values, v.Headed) : (Value.ofItems values).Headed := by
  have hdistinct : ∀ (rest kept : List Value), (∀ v ∈ kept, v.Headed) → (∀ v ∈ rest, v.Headed) →
      ∀ v ∈ Value.distinctOnto kept rest, v.Headed := by
    intro rest
    induction rest with
    | nil => exact fun kept hkept _ => hkept
    | cons u rest ih =>
      intro kept hkept hrest
      have hmore : ∀ v ∈ rest, v.Headed := fun v hv => hrest v (List.mem_cons_of_mem _ hv)
      rw [Value.distinctOnto]
      split
      · exact ih kept hkept hmore
      · refine ih (kept ++ [u]) ?_ hmore
        intro v hv
        rcases List.mem_append.mp hv with hv | hv
        · exact hkept v hv
        · obtain rfl := List.mem_singleton.mp hv
          exact hrest v (by simp)
  exact .set (hdistinct values [] (by simp) h)

theorem mapEntries {values : List Value} {entries all : Entries Key Value} (h : ∀ v ∈ values, v.Headed)
    (he : ∀ entry ∈ entries, entry.2.Headed) (hm : Eval.mapEntries entries values = .ok all) :
    ∀ entry ∈ all, entry.2.Headed := by
  fun_induction Eval.mapEntries entries values with
  | case1 entries key value rest k hk ih =>
    refine ih (fun v hv => h v (by simp [hv])) ?_ hm
    intro entry hentry
    rcases Entries.mem_insert hentry with rfl | hentry
    · exact h value (by simp)
    · exact he entry hentry
  | case2 entries key value rest cause hk => cases hm
  | case3 values entries hshort =>
    obtain rfl := Except.ok.inj hm
    exact he

end Value.Headed

/-! ### Members -/

namespace Member.Headed

variable {fields : Fields} {target key : Value} {name : String} {m : Member}

theorem of_get? {κ : Type} [BEq κ] {entries : Entries κ Value} {key : κ} (h : ∀ entry ∈ entries, entry.2.Headed)
    (hm : (entries.get? key).map Member.value = some m) : m.Headed := by
  obtain ⟨v, hv, rfl⟩ := Option.map_eq_some_iff.mp hm
  obtain ⟨entry, hentry, rfl⟩ := Entries.mem_of_get? hv
  exact .value (h entry hentry)

theorem dataMember? (hf : ∀ o name m, fields o name = some m → m.Headed) (h : target.Headed)
    (hm : target.dataMember? fields name = some m) : m.Headed := by
  cases h with
  | map hentries => exact of_get? hentries hm
  | object o => exact hf o name m hm
  | _ => cases hm

theorem keywordMember? (hf : ∀ o name m, fields o name = some m → m.Headed) (h : target.Headed)
    (hm : target.keywordMember? fields name = some m) : m.Headed := by
  cases h with
  | map hentries => exact of_get? hentries hm
  | object o => exact hf o _ m hm
  | _ => cases hm

theorem property? (hm : target.property? name = some m) : m.Headed := by
  have hlength : ∀ n : Nat, (Member.value (.ofLength n)).Headed := fun n => .value (.int _)
  unfold Value.property? at hm
  split at hm
  case h_5 => cases hm
  all_goals
    split at hm
    · obtain rfl := Option.some.inj hm
      exact hlength _
    · cases hm

theorem method? (h : target.Headed) (hm : target.method? name = some m) : m.Headed := by
  obtain ⟨found, hfound, rfl⟩ := Option.map_eq_some_iff.mp hm
  have hmem := List.mem_of_find?_eq_some hfound
  refine .procedure (.method ?_)
  rcases List.mem_cons.mp hmem with rfl | hmem
  · simp [Method.items]
  · cases h with
    | string text =>
      obtain ⟨method, -, rfl⟩ := List.mem_map.mp hmem
      simp [Method.items]
    | vector hitems =>
      obtain ⟨method, -, rfl⟩ := List.mem_map.mp hmem
      exact hitems
    | set hitems =>
      obtain rfl := List.mem_singleton.mp hmem
      exact hitems
    | map hentries =>
      obtain rfl := List.mem_singleton.mp hmem
      intro item hitem
      obtain ⟨entry, hentry, rfl⟩ := List.mem_map.mp hitem
      exact hentries entry hentry
    | _ => cases hmem

theorem member? (hf : ∀ o name m, fields o name = some m → m.Headed) (h : target.Headed)
    (hm : target.member? fields name = some m) : m.Headed := by
  unfold Value.member? at hm
  cases hdata : target.dataMember? fields name with
  | some found =>
    rw [hdata] at hm
    obtain rfl := Option.some.inj hm
    exact dataMember? hf h hdata
  | none =>
    rw [hdata] at hm
    cases hkeyword : target.keywordMember? fields name with
    | some found =>
      rw [hkeyword] at hm
      obtain rfl := Option.some.inj hm
      exact keywordMember? hf h hkeyword
    | none =>
      rw [hkeyword] at hm
      cases hproperty : target.property? name with
      | some found =>
        rw [hproperty] at hm
        obtain rfl := Option.some.inj hm
        exact property? hproperty
      | none =>
        rw [hproperty] at hm
        exact method? h hm

theorem entry? (hf : ∀ o name m, fields o name = some m → m.Headed) (h : target.Headed)
    (hm : target.entry? fields key = some m) : m.Headed := by
  unfold Value.entry? at hm
  split at hm
  · next entries key =>
    cases h with
    | map hentries =>
      split at hm
      · exact of_get? hentries hm
      · cases hm
  · cases h with
    | vector hitems =>
      split at hm
      · obtain ⟨v, hv, rfl⟩ := Option.map_eq_some_iff.mp hm
        exact .value (hitems v (List.mem_of_getElem? hv))
      · cases hm
  · exact hf _ _ m hm
  · exact hf _ _ m hm
  · cases hm

end Member.Headed

/-! ### Methods -/

theorem exists_of_bind_eq_ok {α β : Type} {x : Except Cause α} {f : α → Except Cause β} {b : β}
    (h : x >>= f = .ok b) : ∃ a, f a = .ok b := by
  cases x with
  | error cause => cases h
  | ok a => exact ⟨a, h⟩

theorem StringMethod.headed_cut {text : String} {args : List Value} {v : Value} (h : cut text args = .ok v) :
    v.Headed := by
  obtain ⟨start, h⟩ := exists_of_bind_eq_ok h
  dsimp only at h
  split at h <;>
  · obtain ⟨stop, h⟩ := exists_of_bind_eq_ok h
    obtain rfl := Except.ok.inj h
    exact .string _

theorem StringMethod.headed_run {method : StringMethod} {text : String} {args : List Value} {v : Value}
    (h : method.run text args = .ok v) : v.Headed := by
  have hmap : ∀ {x : Except Cause String} {f : String → Value}, (∀ part, (f part).Headed) → x.map f = .ok v →
      v.Headed := by
    intro x f hf hx
    cases x with
    | error cause => cases hx
    | ok part =>
      obtain rfl := Except.ok.inj hx
      exact hf part
  cases method with
  | toUpperCase | toLowerCase | trim =>
    obtain rfl := Except.ok.inj h
    exact .string _
  | includes | startsWith | endsWith => exact hmap (fun _ => .bool _) h
  | split =>
    refine hmap (fun separator => .vector ?_) h
    intro item hitem
    obtain ⟨part, -, rfl⟩ := List.mem_map.mp hitem
    exact .string _
  | substring => exact headed_cut h

/-- What a method gives holds no code. -/
theorem Method.headed_run {m : Method Value} {args : List Value} {v : Value} (h : m.run args = .ok v) : v.Headed := by
  cases m with
  | ofString method text => exact StringMethod.headed_run h
  | toString text =>
    obtain rfl := Except.ok.inj h
    exact .string _
  | ofVector method items =>
    obtain rfl := Except.ok.inj h
    cases method with
    | includes => exact .bool _
    | indexOf =>
      simp only [VectorMethod.run]
      cases Value.position? items (firstArgument args) with
      | none => exact .int _
      | some i => exact .int _
    | join => exact .string _
  | hasItem items =>
    obtain rfl := Except.ok.inj h
    exact .bool _
  | hasKey entries =>
    obtain rfl := Except.ok.inj h
    exact .bool _

/-! ### The store -/

namespace Store.Headed

variable {s : Store} {scope : Scope} {v : Value} {m : Metadata Value}

theorem of_cells {t : Store} (h : s.Headed) (hc : t.cells = s.cells) : t.Headed :=
  ⟨hc ▸ h.value, hc ▸ h.metadata⟩

theorem held (h : s.Headed) (var : Var) : (s.held var).Headed := by
  unfold Store.held
  split
  · next cell hcell => exact h.value _ cell hcell
  · exact .nil

theorem known (h : s.Headed) (var : Var) : (s.metadata var).Headed := by
  unfold Store.metadata
  split
  · next cell hcell => exact h.metadata _ cell hcell
  · exact .empty

theorem get (h : s.Headed) {name : String} (hv : s.get scope name = .ok v) : v.Headed := by
  unfold Store.get at hv
  split at hv
  · obtain rfl := Except.ok.inj hv
    exact h.held _
  · cases hv

theorem deref {target : Value} (h : s.Headed) (hv : s.deref target = .ok v) : v.Headed := by
  cases target with
  | var var =>
    obtain rfl := Except.ok.inj hv
    exact h.held var
  | _ => cases hv

theorem newVar (h : s.Headed) (name : String) (hv : v.Headed) (hm : m.Headed) : (s.newVar name v m).2.Headed := by
  have hcells : ∀ (i : Nat) (cell : Cell), (s.cells.push ⟨v, m⟩)[i]? = some cell →
      s.cells[i]? = some cell ∨ cell = ⟨v, m⟩ := by
    intro i cell hcell
    rw [Array.getElem?_push] at hcell
    split at hcell
    · exact .inr (Option.some.inj hcell).symm
    · exact .inl hcell
  refine ⟨fun i cell hcell => ?_, fun i cell hcell => ?_⟩
  · rcases hcells i cell hcell with hold | rfl
    · exact h.value i cell hold
    · exact hv
  · rcases hcells i cell hcell with hold | rfl
    · exact h.metadata i cell hold
    · exact hm

theorem newNumber (h : s.Headed) : s.newNumber.2.Headed := h.newVar "" .nil .empty

theorem define (h : s.Headed) (scope : Scope) (name : String) (hv : v.Headed) (hm : m.Headed) :
    (s.define scope name v m).2.Headed :=
  (h.newVar name hv hm).of_cells rfl

theorem snapshot (h : s.Headed) (scope : Scope) (name : String) : (s.snapshot scope name).2.Headed := by
  unfold Store.snapshot
  split
  · exact h.newVar _ (h.held _) (h.known _)
  · exact h.newVar _ .nil .empty

theorem expand {form : Code} (h : s.Headed) (scope : Scope) (hf : form.Headed) :
    (s.expand scope form).1.Headed ∧ (s.expand scope form).2.Headed := by
  rcases s.expand_rules scope form with hsame | ⟨name, -, -, hvar⟩ | ⟨call, -, hcall, hmade⟩
  · rw [hsame]
    exact ⟨hf, h⟩
  · rw [hvar]
    exact ⟨.mk rfl (by simp) hf.entries, h.snapshot scope name⟩
  · rw [hmade]
    exact ⟨hf.memberCall? hcall, h.newNumber⟩

theorem expandAll {forms : List Code} (h : s.Headed) (scope : Scope) (hf : ∀ form ∈ forms, form.Headed) :
    (∀ form ∈ (s.expandAll scope forms).1, form.Headed) ∧ (s.expandAll scope forms).2.Headed := by
  induction forms generalizing s with
  | nil => exact ⟨hf, h⟩
  | cons form rest ih =>
    obtain ⟨hfirst, hs⟩ := h.expand scope (hf form (by simp))
    obtain ⟨hrest, ht⟩ := ih hs fun part hp => hf part (List.mem_cons_of_mem _ hp)
    refine ⟨?_, ht⟩
    intro part hpart
    rcases List.mem_cons.mp hpart with rfl | hpart
    · exact hfirst
    · exact hrest part hpart

end Store.Headed

end Lisplet
