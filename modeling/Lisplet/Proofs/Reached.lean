import Lisplet.Command
import Lisplet.Proofs.FrameEffect

/-! # Scopes of reached states

Headed sources read headed forms, and a fresh root scope holds headed values, so a store that evaluations of headed
sources lead to holds headed code only. From there evaluation writes only the scope it runs in. -/

namespace Lisplet

/-! ### Forms that were read -/

/-- Whether an identity is that of a form that was read. -/
def FormId.isRead : FormId → Bool
  | .read _ _ => true
  | .derived _ _ _ => false

namespace Form

/-- A form stands somewhere in another, or is it. -/
inductive Within {α : Type} : Form α → Form α → Prop
  | refl (form : Form α) : Within form form
  | part {node part form : Form α} (hpart : part ∈ form.children) (h : Within node part) : Within node form

/-- Whether nothing is known about a form but where it was read. -/
def isPlain {α : Type} (form : Form α) : Bool :=
  form.metadata.entries.isEmpty

/-- Whether a form is as reading makes it: it has the identity of its place and no binding, and nothing is known about
    it but where it was read. -/
def isBare {α : Type} (form : Form α) : Bool :=
  form.id.isRead && form.binding.isNone && form.isPlain

theorem isBare_iff {α : Type} {form : Form α} :
    form.isBare = true ↔ form.id.isRead = true ∧ form.binding = none ∧ form.metadata.entries = [] := by
  simp [isBare, isPlain, and_assoc]

theorem all_imp {α : Type} {p q : Form α → Bool} (hpq : ∀ form, p form = true → q form = true) {form : Form α}
    (h : form.all p = true) : form.all q = true := by
  induction form using parts_induction with
  | step form ih =>
    obtain ⟨hp, hparts⟩ := all_iff.mp h
    exact all_iff.mpr ⟨hpq form hp, fun part hpart => ih part hpart (hparts part hpart)⟩

theorem Headed.of_all {form : Code} (h : form.all isHeaded = true) (hp : form.all isPlain = true) : form.Headed := by
  induction form using parts_induction with
  | step form ih =>
    obtain ⟨hhead, hparts⟩ := all_iff.mp h
    obtain ⟨hplain, hplains⟩ := all_iff.mp hp
    refine .mk hhead (fun part hpart => ih part hpart (hparts part hpart) (hplains part hpart)) ?_
    simp [List.isEmpty_iff.mp hplain]

theorem Headed.within {node form : Code} (h : form.Headed) (hw : node.Within form) : node.Headed := by
  induction hw with
  | refl => exact h
  | part hpart _ ih => exact ih (h.parts _ hpart)

end Form

namespace Document

variable {α : Type} {source : List Char} {number : Nat}

mutual

theorem isBare_formOf (path : List Nat) : (tree : Tree) →
    (formOf source number path tree : Form α).all Form.isBare = true
  | .node kind start stop children => by
    rw [formOf]
    split
    · exact Form.all_iff.mpr ⟨rfl, by simp [malformed]⟩
    · exact Form.all_iff.mpr ⟨rfl, isBare_formsOf path 0 children⟩

theorem isBare_formsOf (path : List Nat) (position : Nat) : (trees : List Tree) →
    ∀ part ∈ (formsOf source number path position trees : List (Form α)), part.all Form.isBare = true
  | [] => by simp [formsOf]
  | tree :: rest => by
    rw [formsOf]
    split
    · exact isBare_formsOf path position rest
    · simpa using ⟨isBare_formOf (position :: path) tree, isBare_formsOf path (position + 1) rest⟩

end

theorem isBare_read (number : Nat) (source : String) :
    (read number source : Document α).root.all Form.isBare = true := by
  have hroot : (formOf source.toList number [] (Scan.ofSource source.toList).root : Form α).all Form.isBare = true :=
    isBare_formOf [] _
  unfold read ofScan
  split
  · obtain ⟨hbare, hparts⟩ := Form.all_iff.mp hroot
    refine Form.all_iff.mpr ⟨hbare, fun part hpart => ?_⟩
    rcases List.mem_append.mp hpart with hpart | hpart
    · exact hparts part hpart
    · obtain rfl := List.mem_singleton.mp hpart
      exact Form.all_iff.mpr ⟨rfl, by simp [malformed]⟩
  · exact hroot

theorem isPlain_read (number : Nat) (source : String) :
    (read number source : Document α).root.all Form.isPlain = true :=
  Form.all_imp (fun _ h => (Bool.and_eq_true_iff.mp h).2) (isBare_read number source)

theorem headed_read {source : String} (h : (read number source : Document Value).root.all Form.isHeaded = true) :
    (read number source : Document Value).root.Headed :=
  .of_all h (isPlain_read number source)

end Document

/-! ### Fresh root scopes -/

theorem Store.Headed.founding : Store.Founding Store.Headed Value.Headed where
  nil := .nil
  bool := .bool
  special := .special
  builtin identity builtin := .procedure identity (.builtin builtin)
  newRoot hs := hs.of_cells rfl
  newIdentity hs := hs.of_cells rfl
  define hs scope name _ hv := hs.define scope name hv .empty

theorem Store.Headed.newBase {s : Store} (hs : s.Headed) {extra : Library} (h : ∀ entry ∈ extra, entry.2.Headed) :
    (s.newBase extra).2.Headed :=
  founding.newBase hs h

/-! ### Reached stores -/

/-- The store that a process leaves, whether it succeeds or fails. -/
def Eval.left {α : Type} (p : Eval α) (s : Store) : Store :=
  match p s with
  | .ok _ t => t
  | .error _ t => t

namespace Eval.Ends

variable {α : Type} {W : Scope → Prop} {P : α → Prop} {p : Eval α} {s : Store}

theorem headed (h : Ends W P s (p s)) : (p.left s).Headed := by
  unfold Eval.left
  generalize p s = result at h ⊢
  cases h with
  | ok _ ht _ => exact ht
  | error ht _ => exact ht

theorem bindings (h : Ends W P s (p s)) {f : Scope} (hf : f < s.frames.size) (hW : ¬W f) :
    (p.left s).bindings f = s.bindings f := by
  unfold Eval.left
  generalize p s = result at h ⊢
  cases h with
  | ok _ _ hk => exact hk.bindings hf hW
  | error _ hk => exact hk.bindings hf hW

theorem given (h : Ends W P s (p s)) {a : α} {t : Store} (he : p s = .ok a t) : P a := by
  rw [he] at h
  cases h with
  | ok ha _ _ => exact ha

end Eval.Ends

/-- The stores that evaluations of headed sources lead to from a fresh root scope, in any scope and with any settings,
    whether they succeed or fail. -/
inductive Reached (host : Host) : Store → Prop
  | fresh {s : Store} (hframes : s.frames = #[]) (hcells : s.cells = #[]) (settings : Settings) {library : Library}
      (hlibrary : ∀ entry ∈ library, entry.2.Headed) :
      Reached host (Interpreter.create host settings library s).2
  | evaluated {s : Store} (h : Reached host s) {i : Interpreter} (hi : i.host = host) {source : String}
      (hsource : (Document.read s.documents source : Document Value).root.all Form.isHeaded = true) :
      Reached host ((i.evalSource source).left s)

theorem Reached.headed {host : Host} (hhost : host.Headed) {s : Store} (h : Reached host s) : s.Headed := by
  induction h with
  | fresh hframes hcells settings hlibrary =>
    refine Store.Headed.newBase ⟨fun i cell hcell => ?_, fun i cell hcell => ?_⟩ hlibrary
    · simp [hcells] at hcell
    · simp [hcells] at hcell
  | @evaluated s _ i hi source hsource ih =>
    subst hi
    -- a source that is refused leaves the store as it was
    rcases i.evalSource_cases source s with ⟨error, herror⟩ | hevaluate
    · simpa [Eval.left, herror] using ih
    · have hnext : ({ s with documents := s.documents + 1 } : Store).Headed := ih.of_cells rfl
      have hend := Eval.obeys_run hhost i.levels (.evaluate (Document.headed_read hsource) i.scope) _ hnext
      have hleft : (i.evalSource source).left s =
          (i.evaluate (Document.read s.documents source).root).left { s with documents := s.documents + 1 } := by
        simp only [Eval.left, hevaluate]
      rw [hleft]
      exact hend.headed

/-- In a store that headed sources lead to, every var holds headed code. A form of a headed source gives a headed value
    and changes no scope but the one it is evaluated in; one that calls `let` changes none, and neither does a call of a
    function on values. -/
theorem Reached.bindings_run {host : Host} (hhost : host.Headed) {s : Store} (h : Reached host s) (levels : Nat) :
    (∀ var, (s.held var).Headed) ∧
    (∀ (number : Nat) (source : String) (node : Code) (scope : Scope),
      (Document.read number source : Document Value).root.all Form.isHeaded = true →
      node.Within (Document.read number source).root →
      (∀ v t, Eval.run host levels (.evaluate node scope) s = .ok v t → v.Headed) ∧
      (∀ other < s.frames.size, other ≠ scope →
        ((Eval.run host levels (.evaluate node scope)).left s).bindings other = s.bindings other) ∧
      (node.callsLet s scope = true → ∀ other < s.frames.size,
        ((Eval.run host levels (.evaluate node scope)).left s).bindings other = s.bindings other)) ∧
    (∀ (identity : Nat) (p : Procedure Value) (args : List Value), (Value.function identity (.procedure p)).Headed →
      (∀ arg ∈ args, arg.Headed) → (∀ v t, Eval.run host levels (.call p args) s = .ok v t → v.Headed) ∧
      ∀ other < s.frames.size, ((Eval.run host levels (.call p args)).left s).bindings other = s.bindings other) := by
  have hs := h.headed hhost
  have hrun := Eval.obeys_run hhost levels
  refine ⟨hs.held, ?_, ?_⟩
  · intro number source node scope hsource hwithin
    have hnode := (Document.headed_read hsource).within hwithin
    have hend := hrun (.evaluate hnode scope) s hs
    refine ⟨fun v t he => hend.given he, fun other ho hne => hend.bindings ho fun hw => hne hw.1, fun hlet other ho => ?_⟩
    have hend := Eval.ends_run_let (W := fun _ => False) hhost levels hs hnode hlet
    exact hend.bindings ho id
  · intro identity p args hp hargs
    cases hp with
    | procedure _ hp =>
      have hend := hrun (.call hp hargs) s hs
      exact ⟨fun v t he => hend.given he, fun other ho => hend.bindings ho id⟩

/-- The functions of the command line give `nil`, and it has no objects. -/
theorem Command.headed_host : Command.host.Headed where
  call f args s v _ _ h := by
    simp only [Command.host] at h
    split at h
    · split at h
      · obtain rfl := Except.ok.inj h
        exact .nil
      · cases h
    · obtain rfl := Except.ok.inj h
      exact .nil
  invoke name form scope s v _ _ h := by cases h
  fields o name m h := by cases h

/-- A `let` that calls a `#()` function, which defines a name. -/
def letSource : String := "(let [f #(def x %)] (f 1))"

/-- What is read from `letSource`. -/
def letRoot : Code := (Document.read 0 letSource).root

/-- A fresh interpreter of the command line, and its store. -/
def freshCommand : Interpreter × Store := Interpreter.create Command.host ⟨true⟩ .empty .empty

/-- The store after `letSource` was evaluated once: the root scope, that of `let` and that of the call. -/
def letStore : Store := (freshCommand.1.evalSource letSource).left freshCommand.2

theorem Reached.bindings_run_letStore :
    Reached Command.host letStore ∧ letStore.frames.size = 3 ∧ letRoot.children.length = 1 ∧
    ∀ node ∈ letRoot.children, node.callsLet letStore 0 = true ∧
      ∀ other < 3, ((Eval.run Command.host 100 (.evaluate node 0)).left letStore).bindings other =
        letStore.bindings other := by
  have hcheck : letRoot.all Form.isHeaded = true ∧ freshCommand.2.documents = 0 ∧ letStore.frames.size = 3 ∧
      letRoot.children.length = 1 ∧ letRoot.children.all (·.callsLet letStore 0) = true := by decide +kernel
  obtain ⟨hheaded, hdocuments, hsize, hlength, hlet⟩ := hcheck
  have hfresh : Reached Command.host freshCommand.2 := .fresh rfl rfl ⟨true⟩ (by simp [Library.empty])
  have hreached : Reached Command.host letStore := hfresh.evaluated rfl (by rw [hdocuments]; exact hheaded)
  refine ⟨hreached, hsize, hlength, fun node hnode => ⟨List.all_eq_true.mp hlet node hnode, fun other ho => ?_⟩⟩
  have hrun := (Reached.bindings_run Command.headed_host hreached 100).2.1 0 letSource node 0 hheaded
    (.part hnode (.refl node))
  exact hrun.2.2 (List.all_eq_true.mp hlet node hnode) other (hsize ▸ ho)

end Lisplet
