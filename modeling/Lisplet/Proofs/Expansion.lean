import Lisplet.Expansion

/-! # What the rules of expansion make

A form stays as it is, or it is a var quote and becomes a var, or it is a list that calls a member and becomes a member
form with a number of its own. This is told once with all that is made, so that nothing else has to look into the
rules. -/

namespace Lisplet

theorem memberName?_eq_some_iff {text member : String} :
    memberName? text = some member ↔ text = "." ++ member ∧ member ≠ "" := by
  have hpoint : ("." ++ member).toList = '.' :: member.toList := by
    rw [String.toList_append]
    rfl
  constructor
  · intro h
    unfold memberName? at h
    split at h
    · next c rest htext =>
      obtain rfl := Option.some.inj h
      refine ⟨String.toList_inj.mp ?_, fun hempty => ?_⟩
      · rw [hpoint, htext, String.toList_ofList]
      · simpa using congrArg String.toList hempty
    · cases h
  · rintro ⟨rfl, hne⟩
    obtain ⟨c, rest, hmember⟩ := List.exists_cons_of_ne_nil fun hnil => hne (String.toList_inj.mp hnil)
    rw [memberName?, hpoint, hmember]
    simp only [Option.some.injEq]
    rw [← hmember, String.ofList_toList]

/-- The parts of a list that calls a member, and the member form that it stands for. -/
theorem Form.exists_of_memberCall? {form call : Code} {number : Nat} (h : form.memberCall? number = some call) :
    ∃ head target args text member, form.children = head :: target :: args ∧ head.kind = .symbol ∧
      head.text? = some text ∧ memberName? text = some member ∧
      call = ⟨.derived form.id number 0, .list,
        symbol (.derived form.id number 1) "." :: target :: symbol (.derived form.id number 2) member :: args, none,
        form.metadata⟩ := by
  unfold memberCall? at h
  split at h
  · next head target args hchildren =>
    split at h
    · next hsymbol =>
      obtain ⟨member, hmember, rfl⟩ := Option.map_eq_some_iff.mp h
      obtain ⟨text, htext, hname⟩ := Option.bind_eq_some_iff.mp hmember
      exact ⟨head, target, args, text, member, hchildren, hsymbol, htext, hname, rfl⟩
    · cases h
  · cases h

/-- Whether a list calls a member does not depend on the number. -/
theorem Form.memberCall?_eq_none {form : Code} {number : Nat} (h : form.memberCall? number = none) (other : Nat) :
    form.memberCall? other = none := by
  cases hcall : form.memberCall? other with
  | none => rfl
  | some call =>
    obtain ⟨head, target, args, text, member, hchildren, hsymbol, htext, hname, -⟩ := exists_of_memberCall? hcall
    simp [memberCall?, hchildren, hsymbol, htext, hname] at h

/-- What a list that calls a member stands for calls none. -/
theorem Form.memberCall?_of_memberCall? {form call : Code} {number : Nat} (h : form.memberCall? number = some call)
    (other : Nat) : call.kind = .list ∧ call.memberCall? other = none := by
  obtain ⟨head, target, args, text, member, -, -, -, -, rfl⟩ := exists_of_memberCall? h
  exact ⟨rfl, rfl⟩

namespace Store

variable {scope : Scope} {form : Code}

theorem expandOnce?_of_varQuote (s : Store) (scope : Scope) (h : form.kind = .varQuote) :
    s.expandOnce? scope form = form.quotedName?.map fun name =>
      (⟨.derived form.id (s.snapshot scope name).1.index 0, .var, [], some (s.snapshot scope name).1, form.metadata⟩,
        (s.snapshot scope name).2) := by
  rw [expandOnce?, h]

theorem expandOnce?_of_list (s : Store) (scope : Scope) (h : form.kind = .list) :
    s.expandOnce? scope form = (form.memberCall? s.newNumber.1).map fun call => (call, s.newNumber.2) := by
  rw [expandOnce?, h]

/-- There is a rule for var quotes and one for lists. -/
theorem of_expandOnce? {s t : Store} {next : Code} (h : s.expandOnce? scope form = some (next, t)) :
    (∃ name, form.kind = .varQuote ∧ form.quotedName? = some name ∧
      next = ⟨.derived form.id (s.snapshot scope name).1.index 0, .var, [], some (s.snapshot scope name).1,
        form.metadata⟩ ∧
      t = (s.snapshot scope name).2) ∨
    (form.kind = .list ∧ form.memberCall? s.newNumber.1 = some next ∧ t = s.newNumber.2) := by
  cases hkind : form.kind with
  | varQuote =>
    rw [expandOnce?_of_varQuote s scope hkind] at h
    obtain ⟨name, hname, hmade⟩ := Option.map_eq_some_iff.mp h
    obtain ⟨rfl, rfl⟩ := Prod.mk.inj hmade
    exact .inl ⟨name, rfl, hname, rfl, rfl⟩
  | list =>
    rw [expandOnce?_of_list s scope hkind] at h
    obtain ⟨call, hcall, hmade⟩ := Option.map_eq_some_iff.mp h
    obtain ⟨rfl, rfl⟩ := Prod.mk.inj hmade
    exact .inr ⟨rfl, hcall, rfl⟩
  | _ => simp [expandOnce?, hkind] at h

theorem expandOnce?_eq_none (s : Store) (scope : Scope) (hq : form.kind ≠ .varQuote) (hl : form.kind ≠ .list) :
    s.expandOnce? scope form = none := by
  unfold expandOnce?
  split
  · exact absurd ‹_› hq
  · exact absurd ‹_› hl
  · rfl

theorem expand_eq_self (s : Store) (h : s.expandOnce? scope form = none) : s.expand scope form = (form, s) := by
  rw [expand, expandWithin, h]

theorem expand_of_some {s t : Store} {next : Code} (h : s.expandOnce? scope form = some (next, t)) :
    s.expand scope form = (next, t) := by
  rw [expand, expandWithin, h]
  rfl

/-- No rule applies to what a rule makes. -/
theorem expandOnce?_of_expandOnce? {s t : Store} {next : Code} (h : s.expandOnce? scope form = some (next, t))
    (u : Store) (inner : Scope) : u.expandOnce? inner next = none := by
  rcases of_expandOnce? h with ⟨name, -, -, rfl, -⟩ | ⟨-, hcall, -⟩
  · rfl
  · obtain ⟨hlist, hdone⟩ := Form.memberCall?_of_memberCall? hcall u.newNumber.1
    rw [u.expandOnce?_of_list inner hlist, hdone]
    rfl

/-- Whether there is a rule for a form does not depend on the store. -/
theorem expandOnce?_eq_none_of_eq_none {s : Store} (h : s.expandOnce? scope form = none) (u : Store) (inner : Scope) :
    u.expandOnce? inner form = none := by
  by_cases hquote : form.kind = .varQuote
  · rw [expandOnce?_of_varQuote _ _ hquote, Option.map_eq_none_iff] at h ⊢
    exact h
  by_cases hlist : form.kind = .list
  · rw [expandOnce?_of_list _ _ hlist, Option.map_eq_none_iff] at h ⊢
    exact Form.memberCall?_eq_none h _
  · exact u.expandOnce?_eq_none inner hquote hlist

/-- No rule applies to what was expanded. -/
theorem expandOnce?_expand (s : Store) (scope : Scope) (form : Code) (u : Store) (inner : Scope) :
    u.expandOnce? inner (s.expand scope form).1 = none := by
  cases h : s.expandOnce? scope form with
  | none =>
    rw [s.expand_eq_self h]
    exact expandOnce?_eq_none_of_eq_none h u inner
  | some made =>
    rw [expand_of_some h]
    exact expandOnce?_of_expandOnce? h u inner

theorem expand_rules (s : Store) (scope : Scope) (form : Code) :
    s.expand scope form = (form, s) ∨
    (∃ name, form.kind = .varQuote ∧ form.quotedName? = some name ∧ s.expand scope form =
      (⟨.derived form.id (s.snapshot scope name).1.index 0, .var, [], some (s.snapshot scope name).1, form.metadata⟩,
        (s.snapshot scope name).2)) ∨
    ∃ call, form.kind = .list ∧ form.memberCall? s.newNumber.1 = some call ∧
      s.expand scope form = (call, s.newNumber.2) := by
  cases h : s.expandOnce? scope form with
  | none => exact .inl (s.expand_eq_self h)
  | some made =>
    rw [expand_of_some h]
    rcases of_expandOnce? h with ⟨name, hkind, hname, hnext, hstore⟩ | ⟨hkind, hcall, hstore⟩
    · exact .inr (.inl ⟨name, hkind, hname, Prod.ext hnext hstore⟩)
    · exact .inr (.inr ⟨made.1, hkind, hcall, Prod.ext rfl hstore⟩)

/-- A new var holds what it was made for. -/
theorem held_newVar (s : Store) (name : String) (v : Value) (m : Metadata Value) :
    (s.newVar name v m).2.held (s.newVar name v m).1 = v ∧
      (s.newVar name v m).2.metadata (s.newVar name v m).1 = m := by
  simp [newVar, held, metadata]

/-- A number is taken as if it were for a var that holds nothing. -/
theorem newNumber_eq (s : Store) : s.newNumber.2 = (s.newVar "" .nil .empty).2 := rfl

/-- All that an expansion does to the store is to make a var, or to take the number of one. -/
theorem expand_cases (s : Store) (scope : Scope) (form : Code) :
    (s.expand scope form).2 = s ∨ ∃ name v m, (s.expand scope form).2 = (s.newVar name v m).2 := by
  rcases s.expand_rules scope form with h | ⟨name, -, -, h⟩ | ⟨call, -, -, h⟩
  · exact .inl (by rw [h])
  · right
    rw [h]
    show ∃ other v m, (s.snapshot scope name).2 = (s.newVar other v m).2
    unfold snapshot
    split
    · exact ⟨_, _, _, rfl⟩
    · exact ⟨_, _, _, rfl⟩
  · exact .inr ⟨"", .nil, .empty, by rw [h, newNumber_eq]⟩

/-- What holds however many vars are made holds after expansions. -/
theorem expand_induction {P : Store → Prop} {s : Store} (hs : P s)
    (hnew : ∀ {t : Store}, P t → ∀ name v m, P (t.newVar name v m).2) (scope : Scope) (form : Code) :
    P (s.expand scope form).2 := by
  rcases s.expand_cases scope form with h | ⟨name, v, m, h⟩
  · rwa [h]
  · rw [h]
    exact hnew hs name v m

theorem expandAll_induction {P : Store → Prop} {s : Store} (hs : P s)
    (hnew : ∀ {t : Store}, P t → ∀ name v m, P (t.newVar name v m).2) (scope : Scope) (forms : List Code) :
    P (s.expandAll scope forms).2 := by
  induction forms generalizing s with
  | nil => exact hs
  | cons form rest ih => exact ih (expand_induction hs hnew scope form)

theorem size_le_newVar (s : Store) (name : String) (v : Value) (m : Metadata Value) :
    s.cells.size ≤ (s.newVar name v m).2.cells.size := by
  simp [newVar]

theorem size_le_expand (s : Store) (scope : Scope) (form : Code) :
    s.cells.size ≤ (s.expand scope form).2.cells.size :=
  expand_induction (P := fun t => s.cells.size ≤ t.cells.size) (Nat.le_refl _)
    (fun {t} ht name v m => Nat.le_trans ht (t.size_le_newVar name v m)) scope form

theorem size_le_expandAll (s : Store) (scope : Scope) (forms : List Code) :
    s.cells.size ≤ (s.expandAll scope forms).2.cells.size :=
  expandAll_induction (P := fun t => s.cells.size ≤ t.cells.size) (Nat.le_refl _)
    (fun {t} ht name v m => Nat.le_trans ht (t.size_le_newVar name v m)) scope forms

/-- Expansion changes a form, but not what is known about it. -/
theorem metadata_expand (s : Store) (scope : Scope) (form : Code) :
    (s.expand scope form).1.metadata = form.metadata := by
  rcases s.expand_rules scope form with h | ⟨name, -, -, h⟩ | ⟨call, -, hcall, h⟩
  · rw [h]
  · rw [h]
  · obtain ⟨head, target, args, text, member, -, -, -, -, rfl⟩ := Form.exists_of_memberCall? hcall
    rw [h]

end Store

end Lisplet
