import Lisplet.Proofs.Course
import Lisplet.Proofs.Reached

/-! # Code that keeps away from special forms

If no form of a source is written with the name of a special form, also after expansion, the source cannot get hold of
that special form: names are the only way to the vars that hold it. A `Reserve` says which names and vars these are.
With `fn` among them and without `#()`, no function can be made. -/

namespace Lisplet

/-- Names of special forms that are not to be used, and the vars that hold them. -/
structure Reserve where
  names : List String
  cells : List Nat

/-- The reserve holds `fn`, and nothing that forms without a name stand for. -/
structure Reserve.IsUsable (R : Reserve) : Prop where
  function : "fn" ∈ R.names
  unnamed : "" ∉ R.names
  targets : ∀ {kind : FormKind} {name : String}, kind.sugarTarget? = some name → name ∉ R.names

variable {R : Reserve}

/-! ### Forms -/

namespace Form

variable {names : List String} {form : Code}

/-- Whether a form is written with none of the names. -/
def avoidsText (names : List String) (form : Code) : Bool :=
  form.text?.all (· ∉ names)

/-- Whether a form makes no function, and neither it nor a part that expansion gives it is written with one of the
    names. -/
def avoids (names : List String) (form : Code) : Bool :=
  form.kind != .lambda && form.avoidsText names &&
    (form.kind != .list || (form.memberCall? 0).all (·.children.all (avoidsText names)))

theorem avoids_iff : form.avoids names = true ↔
    form.kind ≠ .lambda ∧ form.avoidsText names = true ∧
      (form.kind = .list → ∀ call, form.memberCall? 0 = some call →
        ∀ part ∈ call.children, part.avoidsText names = true) := by
  simp only [avoids, Bool.and_eq_true, Bool.or_eq_true, bne_iff_ne, Option.all_eq_true, List.all_eq_true, and_assoc,
    ne_eq, Decidable.imp_iff_not_or]

theorem avoidsText_symbol (id : FormId) (name : String) :
    (symbol id name : Code).avoidsText names = true ↔ name ∉ names := by
  simp [avoidsText, symbol, text?, Metadata.withText]

/-- Code that keeps away from a reserve. -/
structure Clear (R : Reserve) (form : Code) : Prop where
  avoids : form.all (avoids R.names) = true
  unbound : form.all (·.binding.all (·.index ∉ R.cells)) = true

namespace Clear

theorem part (h : form.Clear R) {part : Code} (hpart : part ∈ form.children) : part.Clear R :=
  ⟨(all_iff.mp h.avoids).2 part hpart, (all_iff.mp h.unbound).2 part hpart⟩

theorem of_parts (hform : form.avoids R.names = true) (hbinding : form.binding.all (·.index ∉ R.cells) = true)
    (h : ∀ part ∈ form.children, part.Clear R) : form.Clear R :=
  ⟨all_iff.mpr ⟨hform, fun part hpart => (h part hpart).avoids⟩,
    all_iff.mpr ⟨hbinding, fun part hpart => (h part hpart).unbound⟩⟩

theorem kind (h : form.Clear R) : form.kind ≠ .lambda := (avoids_iff.mp (all_iff.mp h.avoids).1).1

theorem text (h : form.Clear R) : form.avoidsText R.names = true := (avoids_iff.mp (all_iff.mp h.avoids).1).2.1

theorem text_not_mem (h : form.Clear R) (hR : R.IsUsable) : form.text ∉ R.names := by
  have htext := h.text
  rw [Form.text]
  cases hform : form.text? with
  | none => exact hR.unnamed
  | some text => simpa [avoidsText, hform] using htext

theorem binding (h : form.Clear R) {var : Var} (hvar : form.binding = some var) : var.index ∉ R.cells := by
  simpa [hvar] using (all_iff.mp h.unbound).1

theorem symbol {id : FormId} {name : String} (h : (Form.symbol id name).avoidsText R.names = true) :
    (Form.symbol id name).Clear R := by
  refine of_parts (avoids_iff.mpr ⟨?_, h, ?_⟩) rfl ?_
  · simp [Form.symbol]
  · simp [Form.symbol]
  · simp [Form.symbol]

/-- A list with a head that names no member keeps away if its parts do. -/
theorem list {id : FormId} {head : Code} {parts : List Code} {metadata : Metadata Value}
    (hhead : head.text?.bind memberName? = none) (hform : form.Clear R) (hmetadata : metadata = form.metadata)
    (h : ∀ part ∈ head :: parts, part.Clear R) : Clear R ⟨id, .list, head :: parts, none, metadata⟩ := by
  refine of_parts (avoids_iff.mpr ⟨by simp, ?_, fun _ call hcall => ?_⟩) rfl h
  · rw [hmetadata]
    exact hform.text
  · obtain ⟨first, target, args, text, member, hchildren, -, htext, hname, -⟩ := exists_of_memberCall? hcall
    obtain ⟨rfl, -⟩ := List.cons.inj hchildren
    simp [htext, hname] at hhead

theorem implicitDo (h : form.Clear R) (hR : R.IsUsable) {body : List Code} (hbody : ∀ part ∈ body, part.Clear R)
    (number : Nat) : (form.implicitDo number body).Clear R := by
  have hdo : "do" ∉ R.names := hR.targets (show FormKind.document.sugarTarget? = some "do" from rfl)
  refine list rfl h rfl fun part hpart => ?_
  rcases List.mem_cons.mp hpart with rfl | hpart
  · exact .symbol ((avoidsText_symbol _ _).mpr hdo)
  · exact hbody part hpart

/-- The member form that a list stands for keeps away as well, whatever its number is. -/
theorem memberCall? (h : form.Clear R) (hkind : form.kind = .list) {number : Nat} {call : Code}
    (hcall : form.memberCall? number = some call) : call.Clear R := by
  obtain ⟨head, target, args, text, member, hchildren, hsymbol, htext, hname, rfl⟩ := exists_of_memberCall? hcall
  have hnames : "." ∉ R.names ∧ target.avoidsText R.names = true ∧ member ∉ R.names ∧
      ∀ arg ∈ args, arg.avoidsText R.names = true := by
    have htexts := (avoids_iff.mp (all_iff.mp h.avoids).1).2.2 hkind
    simpa [Form.memberCall?, hchildren, hsymbol, htext, hname, avoidsText_symbol] using htexts
  obtain ⟨hpoint, -, hmember, -⟩ := hnames
  have hpart : ∀ part ∈ target :: args, part.Clear R := fun part hpart => h.part (by simp [hchildren, hpart])
  refine list rfl h rfl fun part hmem => ?_
  simp only [List.mem_cons] at hmem
  rcases hmem with rfl | rfl | rfl | hmem
  · exact .symbol ((avoidsText_symbol _ _).mpr hpoint)
  · exact hpart _ (by simp)
  · exact .symbol ((avoidsText_symbol _ _).mpr hmember)
  · exact hpart _ (by simp [hmem])

end Clear

end Form

/-! ### Values -/

/-- Values that give no way to what is reserved: they hold no special form of a reserved name, no var that holds one,
    and no function made by a script. -/
inductive Value.Clear (R : Reserve) : Value → Prop
  | plain {v : Value} (h : v.isPlain = true) : Clear R v
  | vector {items : List Value} (h : ∀ item ∈ items, Clear R item) : Clear R (.vector items)
  | set {items : List Value} (h : ∀ item ∈ items, Clear R item) : Clear R (.set items)
  | map {entries : List (Key × Value)} (h : ∀ entry ∈ entries, Clear R entry.2) : Clear R (.map entries)
  | var {var : Var} (h : var.index ∉ R.cells) : Clear R (.var var)
  | object (o : HostObject) : Clear R (.object o)
  | special (identity : Nat) {special : Special} (h : special.name ∉ R.names) :
    Clear R (.function identity (.special special))
  | hostForm (identity : Nat) (name : String) : Clear R (.function identity (.hostForm name))
  | builtin (identity : Nat) (function : Builtin) : Clear R (.function identity (.procedure (.builtin function)))
  | host (identity : Nat) (function : HostFunction) : Clear R (.function identity (.procedure (.host function)))
  | method (identity : Nat) {m : Method Value} (h : ∀ item ∈ m.items, Clear R item) :
    Clear R (.function identity (.procedure (.method m)))

namespace Value.Clear

theorem hereditary (R : Reserve) : Value.Hereditary (Value.Clear R) where
  plain h := .plain h
  vector := by
    refine ⟨fun h => ?_, .vector⟩
    cases h with
    | plain h => cases h
    | vector h => exact h
  set := by
    refine ⟨fun h => ?_, .set⟩
    cases h with
    | plain h => cases h
    | set h => exact h
  map h := by
    cases h with
    | plain h => cases h
    | map h => exact h
  noEntries := .map (by simp)
  insert {entries v} h hv key := by
    cases h with
    | plain h => cases h
    | map h =>
      refine .map fun entry hentry => ?_
      rcases Entries.mem_insert hentry with rfl | hentry
      · exact hv
      · exact h entry hentry
  method {identity m} := by
    refine ⟨fun h => ?_, .method identity⟩
    cases h with
    | plain h => cases h
    | method _ h => exact h

theorem index {var : Var} (h : Value.Clear R (.var var)) : var.index ∉ R.cells := by
  cases h with
  | plain h => cases h
  | var h => exact h

theorem name {identity : Nat} {special : Special} (h : Value.Clear R (.function identity (.special special))) :
    special.name ∉ R.names := by
  cases h with
  | plain h => cases h
  | special _ h => exact h

theorem again {identity : Nat} {callable : Callable Value} (h : Value.Clear R (.function identity callable))
    (other : Nat) : Value.Clear R (.function other callable) := by
  cases h with
  | plain h => cases h
  | special _ h => exact .special other h
  | hostForm _ name => exact .hostForm other name
  | builtin _ function => exact .builtin other function
  | host _ function => exact .host other function
  | method _ h => exact .method other h

theorem isScripted {identity : Nat} {p : Procedure Value} (h : Value.Clear R (.function identity (.procedure p))) :
    p.isScripted = false := by
  cases h with
  | plain h => cases h
  | builtin _ _ | host _ _ | method _ _ => rfl

end Value.Clear

/-! ### Stores -/

/-- What is reserved is in its vars, no other var gives a way to it, and only reserved names are bound to its vars. -/
structure Store.Clear (R : Reserve) (s : Store) : Prop where
  size : ∀ index ∈ R.cells, index < s.cells.size
  cells : ∀ {index : Nat} {cell : Cell}, s.cells[index]? = some cell → index ∉ R.cells → cell.value.Clear R
  bindings : ∀ scope, ∀ entry ∈ s.bindings scope, entry.2.index ∈ R.cells → entry.1 ∈ R.names

namespace Store.Clear

variable {s t : Store} {scope : Scope} {name : String} {var : Var} {v : Value}

theorem lookup (hs : s.Clear R) (hname : name ∉ R.names) (h : s.lookup scope name = some var) :
    var.index ∉ R.cells := by
  obtain ⟨frame, -, hget⟩ := List.exists_of_findSome?_eq_some h
  obtain ⟨before, after, heq, -⟩ := List.lookup_eq_some_iff.mp hget
  exact fun hcell => hname (hs.bindings frame (name, var) (by simp [heq]) hcell)

theorem held (hs : s.Clear R) (hvar : var.index ∉ R.cells) : (s.held var).Clear R := by
  unfold Store.held
  split
  · next cell hcell => exact hs.cells hcell hvar
  · exact .plain rfl

theorem get (hs : s.Clear R) (hname : name ∉ R.names) (h : s.get scope name = .ok v) : v.Clear R := by
  unfold Store.get at h
  split at h
  · next var hvar =>
    obtain rfl := Except.ok.inj h
    exact hs.held (hs.lookup hname hvar)
  · cases h

theorem fresh (hs : s.Clear R) : s.cells.size ∉ R.cells := fun h => Nat.lt_irrefl _ (hs.size _ h)

theorem of_eq (hs : s.Clear R) (hframes : t.frames = s.frames) (hcells : t.cells = s.cells) : t.Clear R where
  size := hcells ▸ hs.size
  cells := hcells ▸ hs.cells
  bindings scope := by
    have h := hs.bindings scope
    unfold Store.bindings at h ⊢
    rwa [hframes]

theorem newChild (hs : s.Clear R) (scope : Scope) : (s.newChild scope).2.Clear R where
  size := hs.size
  cells := hs.cells
  bindings other entry hentry := by
    refine hs.bindings other entry ?_
    simp only [Store.newChild, Store.bindings, Array.getElem?_push] at hentry
    split at hentry
    · next frame hframe =>
      split at hframe
      · cases hframe
        cases hentry
      · simpa only [Store.bindings, hframe] using hentry
    · cases hentry

theorem newVar (hs : s.Clear R) (name : String) (hv : v.Clear R) (m : Metadata Value) :
    (s.newVar name v m).2.Clear R where
  size index h := by
    have := hs.size index h
    simp only [Store.newVar, Array.size_push]
    omega
  cells {index cell} hcell h := by
    simp only [Store.newVar, Array.getElem?_push] at hcell
    split at hcell
    · cases hcell
      exact hv
    · exact hs.cells hcell h
  bindings := hs.bindings

theorem bind (hs : s.Clear R) (scope : Scope) (name : String) (hvar : var.index ∉ R.cells) :
    (s.bind scope name var).Clear R where
  size := hs.size
  cells := hs.cells
  bindings other entry hentry hcell := by
    refine hs.bindings other entry ?_ hcell
    unfold Store.bindings at hentry ⊢
    simp only [Store.bind, Array.getElem?_modify] at hentry
    split at hentry
    · next frame hframe =>
      split at hframe
      · obtain ⟨earlier, hearlier, rfl⟩ := Option.map_eq_some_iff.mp hframe
        rcases Entries.mem_insert hentry with rfl | hentry
        · exact absurd hcell hvar
        · simpa only [hearlier] using hentry
      · simpa only [hframe] using hentry
    · cases hentry

theorem define (hs : s.Clear R) (scope : Scope) (name : String) (hv : v.Clear R) (m : Metadata Value) :
    (s.define scope name v m).2.Clear R :=
  (hs.newVar name hv m).bind scope name hs.fresh

theorem newNumber (hs : s.Clear R) : s.newNumber.2.Clear R := hs.newVar "" (.plain rfl) .empty

theorem snapshot (hs : s.Clear R) (scope : Scope) (hname : name ∉ R.names) :
    (s.snapshot scope name).1.index ∉ R.cells ∧ (s.snapshot scope name).2.Clear R := by
  unfold Store.snapshot
  split
  · next var hvar => exact ⟨hs.fresh, hs.newVar _ (hs.held (hs.lookup hname hvar)) _⟩
  · exact ⟨hs.fresh, hs.newVar _ (.plain rfl) _⟩

theorem expand (hs : s.Clear R) (scope : Scope) {form : Code} (hform : form.Clear R) :
    (s.expand scope form).1.Clear R ∧ (s.expand scope form).2.Clear R := by
  rcases s.expand_rules scope form with h | ⟨name, -, hname, h⟩ | ⟨call, hkind, hcall, h⟩
  · rw [h]
    exact ⟨hform, hs⟩
  · -- the var is new, and what it holds was found under a name that is not reserved
    obtain ⟨operand, hfirst, htext⟩ := Option.bind_eq_some_iff.mp hname
    have hoperand : name ∉ R.names := by
      simpa [Form.avoidsText, htext] using (hform.part (List.mem_of_getElem? hfirst)).text
    obtain ⟨hindex, ht⟩ := hs.snapshot scope hoperand
    rw [h]
    refine ⟨.of_parts (Form.avoids_iff.mpr ⟨by simp, hform.text, by simp⟩) ?_ (by simp), ht⟩
    simpa using hindex
  · rw [h]
    exact ⟨hform.memberCall? hkind hcall, hs.newNumber⟩

end Store.Clear

/-! ### Evaluation -/

namespace Eval

/-- To keep away from what is reserved. -/
def reserving (R : Reserve) : Discipline where
  store := Store.Clear R
  failure _ _ := True
  value := Value.Clear R
  form := Form.Clear R
  name _ := True
  fails _ _ := trivial
  passes _ _ := trivial

theorem lawful_reserving (hR : R.IsUsable) : (reserving R).Lawful Host.bare where
  values := Value.Clear.hereditary R
  function h := h.again _
  get hform hs hv := hs.get (hform.text_not_mem hR) hv
  target htarget hs hv := hs.get (hR.targets htarget) hv
  lookup hform hs hvar := .var (hs.lookup (hform.text_not_mem hR) hvar)
  held hs hvar := hs.held hvar.index
  identity hs := hs.of_eq rfl rfl
  number hs := hs.newNumber
  newChild hs scope := hs.newChild scope
  define hs hv _ scope m := ⟨.var hs.fresh, hs.define scope _ hv m⟩
  openCall hs hargs scope count := Store.openCall_of_define (Value.Clear.hereditary R) (hs.newChild scope) hargs
    (fun ht hv inner name => ht.define inner name hv .empty) count
  expand hs hform scope := hs.expand scope hform
  called hs _ _ _ := hs.of_eq rfl rfl
  refused _ _ _ _ := trivial
  binding hform hvar := .var (hform.binding hvar)
  part hform hpart := hform.part hpart
  symbol _ _ := trivial
  implicitDo hform hbody := hform.implicitDo hR hbody
  closure hfn _ _ _ _ _ := absurd hR.function hfn.name
  body h := nomatch h.isScripted
  anonymous hkind hform _ _ _ _ _ := absurd hkind hform.kind
  forms h := nomatch h.isScripted
  call _ _ hv := nomatch hv
  invoke _ _ hv := nomatch hv
  fields _ _ _ hm := nomatch hm

end Eval

/-! ### Fresh root scopes -/

/-- Whether a value that holds no others gives no way to what is reserved. -/
def Value.isClear (R : Reserve) : Value → Bool
  | function _ (.special special) => special.name ∉ R.names
  | function _ (.procedure (.builtin _)) => true
  | v => v.isPlain

theorem Value.Clear.of_isClear {v : Value} (h : v.isClear R = true) : v.Clear R := by
  unfold Value.isClear at h
  split at h
  · exact .special _ (by simpa using h)
  · exact .builtin _ _
  · exact .plain h

/-- Whether a store of such values is clear. -/
def Store.isClear (R : Reserve) (s : Store) : Bool :=
  R.cells.all (· < s.cells.size) &&
    s.cells.toList.zipIdx.all (fun cell => R.cells.contains cell.2 || cell.1.value.isClear R) &&
    s.frames.all (·.bindings.all fun entry => !R.cells.contains entry.2.index || R.names.contains entry.1)

theorem Store.Clear.of_isClear {s : Store} (h : s.isClear R = true) : s.Clear R := by
  simp only [Store.isClear, Bool.and_eq_true, List.all_eq_true, decide_eq_true_eq, Array.all_eq_true_iff_forall_mem,
    Bool.or_eq_true, Bool.not_eq_true', List.contains_eq_mem, decide_eq_false_iff_not] at h
  obtain ⟨⟨hsize, hcells⟩, hbindings⟩ := h
  refine ⟨hsize, fun {index cell} hcell hindex => ?_, fun scope entry hentry hcell => ?_⟩
  · have hmem : (cell, index) ∈ s.cells.toList.zipIdx := by
      rw [List.mem_zipIdx_iff_getElem?]
      simpa using hcell
    exact .of_isClear ((hcells _ hmem).resolve_left hindex)
  · unfold Store.bindings at hentry
    split at hentry
    · next frame hframe =>
      exact (hbindings frame (Array.mem_of_getElem? hframe) entry hentry).resolve_left fun hn => hn hcell
    · cases hentry

end Lisplet
