import Lisplet.Proofs.Skeleton

/-! # Renaming vars and made forms

The number of a var tells it from other vars and means nothing else, and so does the number of a form that was made.
Renaming numbers both anew wherever a value or a form mentions one, in bindings, identities and metadata too. As long as
different numbers stay different, the functions on values and forms that evaluation is made of do not see it: they give
the renamed result for renamed arguments, and the same texts, names and causes. -/

namespace Lisplet

open Function (Injective)

/-- The var with its number changed by `f`. -/
def Var.rename (f : Nat → Nat) (var : Var) : Var := { var with index := f var.index }

/-- The identity with the numbers of made forms changed by `f`. What was read has no number. -/
def FormId.rename (f : Nat → Nat) : FormId → FormId
  | .read document path => .read document path
  | .derived source number part => .derived (source.rename f) (f number) part

mutual

/-- The value with its vars and made forms numbered by `f`. -/
def Value.rename (f : Nat → Nat) : Value → Value
  | .vector items => .vector (Value.renameAll f items)
  | .set items => .set (Value.renameAll f items)
  | .map entries => .map (Value.renameEntries f entries)
  | .form code => .form (Form.rename f code)
  | .var var => .var (var.rename f)
  | .function identity callable => .function identity (Callable.rename f callable)
  | v => v

/-- Each of the values, renamed. -/
def Value.renameAll (f : Nat → Nat) : List Value → List Value
  | [] => []
  | v :: rest => Value.rename f v :: Value.renameAll f rest

/-- The entries of a map with their values renamed; keys mention no numbers. -/
def Value.renameEntries (f : Nat → Nat) : List (Key × Value) → List (Key × Value)
  | [] => []
  | (key, v) :: rest => (key, Value.rename f v) :: Value.renameEntries f rest

/-- The form with its vars and made forms numbered by `f`. -/
def Form.rename (f : Nat → Nat) : Code → Code
  | ⟨id, kind, children, binding, metadata⟩ =>
    ⟨id.rename f, kind, Form.renameAll f children, binding.map (Var.rename f), Metadata.rename f metadata⟩

/-- Each of the forms, renamed. -/
def Form.renameAll (f : Nat → Nat) : List Code → List Code
  | [] => []
  | form :: rest => Form.rename f form :: Form.renameAll f rest

/-- The metadata with the values of its entries renamed. -/
def Metadata.rename (f : Nat → Nat) : Metadata Value → Metadata Value
  | ⟨start, stop, text, entries⟩ => ⟨start, stop, text, Metadata.renameEntries f entries⟩

/-- The entries of metadata with their values renamed. -/
def Metadata.renameEntries (f : Nat → Nat) : List (String × Value) → List (String × Value)
  | [] => []
  | (name, v) :: rest => (name, Value.rename f v) :: Metadata.renameEntries f rest

/-- The callable with the code and the values that it keeps renamed. -/
def Callable.rename (f : Nat → Nat) : Callable Value → Callable Value
  | .procedure p => .procedure (Procedure.rename f p)
  | callable => callable

/-- The procedure with its code and the values of its method renamed. -/
def Procedure.rename (f : Nat → Nat) : Procedure Value → Procedure Value
  | .method m => .method (Method.rename f m)
  | .closure name params body scope => .closure name params (Form.rename f body) scope
  | .anonymous form head args params scope =>
    .anonymous (Form.rename f form) (Form.rename f head) (Form.renameAll f args) params scope
  | p => p

/-- The method with the values it was found on renamed. -/
def Method.rename (f : Nat → Nat) : Method Value → Method Value
  | .ofVector method items => .ofVector method (Value.renameAll f items)
  | .hasItem items => .hasItem (Value.renameAll f items)
  | .hasKey entries => .hasKey (Value.renameEntries f entries)
  | m => m

end

variable {f : Nat → Nat}

/-! ### Entries -/

namespace Entries

variable {κ α β : Type}

theorem get?_map [BEq κ] (r : α → β) (entries : Entries κ α) (key : κ) :
    Entries.get? (entries.map fun entry => (entry.1, r entry.2)) key = (entries.get? key).map r := by
  induction entries with
  | nil => rfl
  | cons entry rest ih =>
    simp only [Entries.get?] at ih ⊢
    rw [List.map_cons, List.lookup_cons, List.lookup_cons, ih]
    cases key == entry.1 <;> rfl

theorem insert_map [Ord κ] (r : α → β) (entries : Entries κ α) (key : κ) (v : α) :
    Entries.insert key (r v) (entries.map fun entry => (entry.1, r entry.2)) =
      (entries.insert key v).map fun entry => (entry.1, r entry.2) := by
  induction entries with
  | nil => rfl
  | cons entry rest ih =>
    rw [List.map_cons, Entries.insert, Entries.insert]
    cases compare key entry.1 with
    | lt => rfl
    | eq => rfl
    | gt => exact congrArg _ ih

theorem overlay_map [Ord κ] (r : α → β) (entries other : Entries κ α) :
    Entries.overlay (entries.map fun entry => (entry.1, r entry.2)) (other.map fun entry => (entry.1, r entry.2)) =
      (entries.overlay other).map fun entry => (entry.1, r entry.2) := by
  unfold Entries.overlay
  induction other generalizing entries with
  | nil => rfl
  | cons entry rest ih =>
    rw [List.map_cons, List.foldl_cons, List.foldl_cons, ← ih]
    dsimp only
    rw [insert_map]

end Entries

/-! ### Identities -/

theorem FormId.rename_injective (hf : Injective f) : Injective (FormId.rename f) := by
  intro id
  induction id with
  | read document path =>
    intro other h
    cases other with
    | read _ _ => exact h
    | derived _ _ _ => cases h
  | derived source number part ih =>
    intro other h
    cases other with
    | read _ _ => cases h
    | derived source' number' part' =>
      obtain ⟨hsource, hnumber, rfl⟩ := FormId.derived.inj h
      rw [ih hsource, hf hnumber]

/-! ### Forms -/

namespace Metadata

theorem renameEntries_eq_map (entries : List (String × Value)) :
    renameEntries f entries = entries.map fun entry => (entry.1, entry.2.rename f) := by
  induction entries with
  | nil => rfl
  | cons entry rest ih => rw [renameEntries, ih, List.map_cons]

theorem rename_eq (m : Metadata Value) :
    m.rename f = { m with entries := m.entries.map fun entry => (entry.1, entry.2.rename f) } := by
  cases m with
  | mk start stop text entries => rw [rename, renameEntries_eq_map]

@[simp] theorem text_rename (m : Metadata Value) : (m.rename f).text = m.text := by
  rw [rename_eq]

theorem insert_rename (name : String) (v : Value) (m : Metadata Value) :
    (m.rename f).insert name (v.rename f) = (m.insert name v).rename f := by
  simp only [rename_eq, Metadata.insert, Entries.insert_map (Value.rename f)]

theorem merge_rename (m other : Metadata Value) : (m.rename f).merge (other.rename f) = (m.merge other).rename f := by
  simp only [rename_eq, Metadata.merge, Entries.overlay_map (Value.rename f)]

end Metadata

namespace Form

theorem renameAll_eq_map (forms : List Code) : renameAll f forms = forms.map (rename f) := by
  induction forms with
  | nil => rfl
  | cons form rest ih => rw [renameAll, ih, List.map_cons]

theorem rename_eq (form : Code) :
    form.rename f = ⟨form.id.rename f, form.kind, form.children.map (rename f), form.binding.map (Var.rename f),
      form.metadata.rename f⟩ := by
  cases form with
  | mk id kind children binding metadata => rw [rename, renameAll_eq_map]

variable (form : Code)

@[simp] theorem id_rename : (form.rename f).id = form.id.rename f := by rw [rename_eq]

@[simp] theorem kind_rename : (form.rename f).kind = form.kind := by rw [rename_eq]

@[simp] theorem children_rename : (form.rename f).children = form.children.map (rename f) := by rw [rename_eq]

@[simp] theorem binding_rename : (form.rename f).binding = form.binding.map (Var.rename f) := by rw [rename_eq]

@[simp] theorem metadata_rename : (form.rename f).metadata = form.metadata.rename f := by rw [rename_eq]

@[simp] theorem text?_rename : (form.rename f).text? = form.text? := by
  rw [text?, metadata_rename, Metadata.text_rename, text?]

@[simp] theorem text_rename : (form.rename f).text = form.text := by rw [text, text?_rename, text]

@[simp] theorem first?_rename : (form.rename f).first? = form.first?.map (rename f) := by
  rw [first?, children_rename, List.getElem?_map, first?]

@[simp] theorem arguments_rename : (form.rename f).arguments = form.arguments.map (rename f) := by
  simp only [arguments, kind_rename, children_rename]
  split <;> simp

@[simp] theorem quotedName?_rename : (form.rename f).quotedName? = form.quotedName? := by
  rw [quotedName?, first?_rename, quotedName?]
  cases form.first? with
  | none => rfl
  | some part => exact text?_rename part

theorem rename_symbol (id : FormId) (name : String) :
    (symbol id name : Code).rename f = symbol (id.rename f) name := rfl

theorem implicitDo_rename (number : Nat) (body : List Code) :
    (form.rename f).implicitDo (f number) (body.map (rename f)) = (form.implicitDo number body).rename f := by
  rw [implicitDo, implicitDo, rename_eq ⟨_, _, _, _, _⟩]
  simp [FormId.rename, rename_symbol]

theorem memberCall?_rename (number : Nat) :
    (form.rename f).memberCall? (f number) = (form.memberCall? number).map (rename f) := by
  simp only [memberCall?, children_rename, id_rename, metadata_rename]
  match form.children with
  | [] | [_] => rfl
  | head :: target :: args =>
    simp only [List.map_cons, kind_rename, text?_rename]
    split
    · rw [Option.map_map]
      refine Option.map_congr fun member _ => ?_
      rw [Function.comp_apply, rename_eq ⟨_, _, _, _, _⟩]
      simp [FormId.rename, rename_symbol]
    · rfl

theorem print_rename : (form.rename f).print = form.print := by
  induction form using parts_induction with
  | step form ih =>
    have hparts : printAll (form.children.map (rename f)) = printAll form.children := by
      rw [printAll_eq_map, printAll_eq_map, List.map_map]
      exact List.map_congr_left ih
    have halone : ∀ text, printAlone form.kind (form.binding.map (Var.rename f)) text =
        printAlone form.kind form.binding text := by
      intro text
      cases form.binding <;> rfl
    have htext := form.text?_rename (f := f)
    rw [rename_eq] at htext ⊢
    obtain ⟨id, kind, children, binding, metadata⟩ := form
    simp only [text?] at htext
    simp only [print, hparts, halone, htext]

end Form

namespace Eval

theorem maxParams_rename {forms : List Code} (h : ∀ form ∈ forms, maxParam (form.rename f) = maxParam form) :
    maxParams (forms.map (Form.rename f)) = maxParams forms := by
  induction forms with
  | nil => rfl
  | cons form rest ih =>
    rw [List.map_cons, maxParams, maxParams, h form (by simp), ih fun part hp => h part (List.mem_cons_of_mem _ hp)]

theorem maxParam_rename (form : Code) : maxParam (form.rename f) = maxParam form := by
  induction form using Form.parts_induction with
  | step form ih =>
    have hparts := maxParams_rename ih
    have htext := form.text?_rename (f := f)
    rw [Form.rename_eq] at htext ⊢
    obtain ⟨id, kind, children, binding, metadata⟩ := form
    simp only [Form.text?] at htext
    simp only [maxParam, hparts, htext]

end Eval

/-! ### Values -/

namespace Value

theorem renameAll_eq_map (vs : List Value) : renameAll f vs = vs.map (rename f) := by
  induction vs with
  | nil => rfl
  | cons v rest ih => rw [renameAll, ih, List.map_cons]

theorem renameEntries_eq_map (entries : List (Key × Value)) :
    renameEntries f entries = entries.map fun entry => (entry.1, entry.2.rename f) := by
  induction entries with
  | nil => rfl
  | cons entry rest ih => rw [renameEntries, ih, List.map_cons]

@[simp] theorem rename_vector (items : List Value) : (vector items).rename f = vector (items.map (rename f)) := by
  rw [rename, renameAll_eq_map]

@[simp] theorem rename_set (items : List Value) : (set items).rename f = set (items.map (rename f)) := by
  rw [rename, renameAll_eq_map]

@[simp] theorem rename_map (entries : List (Key × Value)) :
    (map entries).rename f = map (entries.map fun entry => (entry.1, entry.2.rename f)) := by
  rw [rename, renameEntries_eq_map]

@[simp] theorem rename_form (code : Code) : (form code).rename f = form (code.rename f) := by rw [rename]

@[simp] theorem rename_var (v : Var) : (var v).rename f = var (v.rename f) := by rw [rename]

@[simp] theorem rename_function (identity : Nat) (callable : Callable Value) :
    (function identity callable).rename f = function identity (callable.rename f) := by rw [rename]

end Value

@[simp] theorem Callable.name_rename (c : Callable Value) : (c.rename f).name = c.name := by
  cases c with
  | procedure p =>
    cases p with
    | method m => cases m <;> rfl
    | _ => rfl
  | _ => rfl

@[simp] theorem Callable.isSpecial_rename (c : Callable Value) : (c.rename f).isSpecial = c.isSpecial := by
  cases c <;> rfl

@[simp] theorem Method.name_rename (m : Method Value) : (m.rename f).name = m.name := by
  cases m <;> rfl

namespace Value

@[simp] theorem typeName_rename (v : Value) : (v.rename f).typeName = v.typeName := by
  cases v with
  | function identity callable => simp [typeName]
  | _ => rfl

@[simp] theorem isTruthy_rename (v : Value) : (v.rename f).isTruthy = v.isTruthy := by
  cases v <;> rfl

mutual

theorem print_rename : (v : Value) → (v.rename f).print = v.print
  | vector items => by rw [rename, print, print, printAll_rename items]
  | set items => by rw [rename, print, print, printAll_rename items]
  | map entries => by rw [rename, print, print, printEntries_rename entries]
  | form code => by rw [rename, print, print, Form.print_rename]
  | function _ callable => by rw [rename, print, print, Callable.name_rename]
  | nil | bool _ | int _ | double _ | string _ | keyword _ | var _ | object _ => rfl

theorem printAll_rename : (vs : List Value) → printAll (renameAll f vs) = printAll vs
  | [] => rfl
  | v :: rest => by rw [renameAll, printAll, printAll, print_rename v, printAll_rename rest]

theorem printEntries_rename :
    (entries : List (Key × Value)) → printEntries (renameEntries f entries) = printEntries entries
  | [] => rfl
  | (key, v) :: rest => by
    rw [renameEntries, printEntries, printEntries, print_rename v, printEntries_rename rest]

end

@[simp] theorem display_rename (v : Value) : (v.rename f).display = v.display := by
  have hprint := v.print_rename (f := f)
  cases v with
  | nil => rfl
  | string text => rfl
  | _ => exact hprint

theorem map_display_rename (vs : List Value) : (vs.map (rename f)).map display = vs.map display := by
  rw [List.map_map]
  exact List.map_congr_left fun v _ => display_rename v

@[simp] theorem asKey_rename (v : Value) : (v.rename f).asKey = v.asKey := by
  have hprint := v.print_rename (f := f)
  cases v with
  | keyword name => rfl
  | string text => rfl
  | _ => exact congrArg (fun text => Except.error (Cause.badKey text)) hprint

@[simp] theorem asInt_rename (v : Value) : (v.rename f).asInt = v.asInt := by
  have htype := v.typeName_rename (f := f)
  cases v with
  | int n => rfl
  | double d => rfl
  | _ => exact congrArg (fun name => Except.error (Cause.unexpected "int" name)) htype

theorem toSeq_rename (v : Value) : (v.rename f).toSeq = v.toSeq.map (List.map (rename f)) := by
  have htype := v.typeName_rename (f := f)
  cases v with
  | nil => rfl
  | vector items => rw [rename_vector]; rfl
  | set items => rw [rename_set]; rfl
  | _ => exact congrArg (fun name => Except.error (Cause.unexpected "vector" name)) htype

theorem asMetadata_rename (v : Value) : (v.rename f).asMetadata = v.asMetadata.map (Metadata.rename f) := by
  have htype := v.typeName_rename (f := f)
  cases v with
  | nil => rfl
  | map entries =>
    clear htype
    rw [rename_map]
    refine congrArg Except.ok ?_
    -- the induction has to know what was said so far
    show List.foldl _ (Metadata.rename f .empty) _ = _
    generalize (Metadata.empty : Metadata Value) = m
    induction entries generalizing m with
    | nil => rfl
    | cons entry rest ih =>
      rw [List.map_cons, List.foldl_cons, List.foldl_cons, ← ih]
      congr 1
      dsimp only
      cases entry.1 with
      | keyword name => exact Metadata.insert_rename _ _ _
      | string text => exact Metadata.insert_rename _ _ _
  | _ => exact congrArg (fun name => Except.error (Cause.unexpected "metadata map" name)) htype

mutual

/-- Different numbers stay different, so what is equal stays equal and nothing else gets so. -/
theorem same_rename (hf : Injective f) (swapped : Bool) :
    (x : Value) → ∀ y : Value, same swapped (x.rename f) (y.rename f) = same swapped x y
  | vector xs => fun y => by
    rw [same.eq_def, same.eq_def swapped (vector xs)]
    cases y with
    | vector ys => exact sameAll_rename hf swapped xs ys
    | _ => rfl
  | set xs => fun y => by
    rw [same.eq_def, same.eq_def swapped (set xs)]
    cases y with
    | set ys =>
      have hany : ∀ y : Value, anySame false (renameAll f xs) (y.rename f) = anySame false xs y :=
        anySame_rename hf false xs
      have heach := eachIn_rename hf true xs ys
      simp only [renameAll_eq_map] at hany heach
      simp only [rename_set, List.length_map, List.all_map, Function.comp_def, hany, heach]
    | _ => rfl
  | map xs => fun y => by
    rw [same.eq_def, same.eq_def swapped (map xs)]
    cases y with
    | map ys => exact sameEntries_rename hf swapped xs ys
    | _ => rfl
  | form code => fun y => by
    rw [same.eq_def, same.eq_def swapped (form code)]
    cases y with
    | form other => simp [Bool.beq_eq_decide_eq, (FormId.rename_injective hf).eq_iff]
    | _ => rfl
  | var v => fun y => by
    rw [same.eq_def, same.eq_def swapped (var v)]
    cases y with
    | var w => simp [Var.rename, Bool.beq_eq_decide_eq, hf.eq_iff]
    | _ => rfl
  | nil | bool _ | int _ | double _ | string _ | keyword _ | function _ _ | object _ => fun y => by
    rw [same.eq_def, same.eq_def swapped _ y]
    cases y <;> rfl

theorem sameAll_rename (hf : Injective f) (swapped : Bool) :
    (xs : List Value) → ∀ ys, sameAll swapped (renameAll f xs) (renameAll f ys) = sameAll swapped xs ys
  | [] => fun ys => by cases ys <;> simp [renameAll, sameAll]
  | x :: xs => fun ys => by
    cases ys with
    | nil => simp [renameAll, sameAll]
    | cons y ys =>
      rw [renameAll, renameAll, sameAll, sameAll, same_rename hf swapped x y, sameAll_rename hf swapped xs ys]

theorem anySame_rename (hf : Injective f) (swapped : Bool) :
    (xs : List Value) → ∀ y : Value, anySame swapped (renameAll f xs) (y.rename f) = anySame swapped xs y
  | [] => fun y => by rw [renameAll, anySame, anySame]
  | x :: xs => fun y => by rw [renameAll, anySame, anySame, same_rename hf swapped x y, anySame_rename hf swapped xs y]

theorem eachIn_rename (hf : Injective f) (swapped : Bool) :
    (xs : List Value) → ∀ ys, eachIn swapped (renameAll f xs) (renameAll f ys) = eachIn swapped xs ys
  | [] => fun ys => by rw [renameAll, eachIn, eachIn]
  | x :: xs => fun ys => by
    have hsame : ∀ y : Value, same swapped (x.rename f) (y.rename f) = same swapped x y := same_rename hf swapped x
    have hany : (renameAll f ys).any (fun y => same swapped (x.rename f) y) = ys.any (fun y => same swapped x y) := by
      simp only [renameAll_eq_map, List.any_map, Function.comp_def, hsame]
    rw [renameAll, eachIn, eachIn, hany, eachIn_rename hf swapped xs ys]

theorem sameEntries_rename (hf : Injective f) (swapped : Bool) :
    (xs : List (Key × Value)) → ∀ ys,
      sameEntries swapped (renameEntries f xs) (renameEntries f ys) = sameEntries swapped xs ys
  | [] => fun ys => by cases ys <;> simp [renameEntries, sameEntries]
  | (k, x) :: xs => fun ys => by
    cases ys with
    | nil => simp [renameEntries, sameEntries]
    | cons entry ys =>
      rw [renameEntries, renameEntries, sameEntries, sameEntries, same_rename hf swapped x entry.2,
        sameEntries_rename hf swapped xs ys]

end

/-! ### Collections -/

theorem contains_rename (hf : Injective f) (items : List Value) (v : Value) :
    contains (items.map (rename f)) (v.rename f) = contains items v := by
  simp only [contains, List.any_map, Function.comp_def, equals, same_rename hf]

theorem position?_rename (hf : Injective f) (items : List Value) (v : Value) :
    position? (items.map (rename f)) (v.rename f) = position? items v := by
  simp only [position?, List.findIdx?_map, Function.comp_def, equals, same_rename hf]

theorem distinctOnto_rename (hf : Injective f) (kept vs : List Value) :
    distinctOnto (kept.map (rename f)) (vs.map (rename f)) = (distinctOnto kept vs).map (rename f) := by
  induction vs generalizing kept with
  | nil => rfl
  | cons v vs ih =>
    have hkept : kept.map (rename f) ++ [v.rename f] = (kept ++ [v]).map (rename f) := by simp
    rw [List.map_cons, distinctOnto, distinctOnto, contains_rename hf, hkept, ih, ih, apply_ite (List.map (rename f))]

theorem ofItems_rename (hf : Injective f) (vs : List Value) : ofItems (vs.map (rename f)) = (ofItems vs).rename f := by
  rw [ofItems, ofItems, rename_set, ← distinctOnto_rename hf]
  rfl

theorem mapEntries_rename : (vs : List Value) → ∀ entries : Entries Key Value,
    Eval.mapEntries (entries.map fun entry => (entry.1, entry.2.rename f)) (vs.map (rename f)) =
      (Eval.mapEntries entries vs).map (List.map fun entry => (entry.1, entry.2.rename f))
  | [] => fun _ => rfl
  | [_] => fun _ => rfl
  | k :: v :: rest => fun entries => by
    rw [List.map_cons, List.map_cons, Eval.mapEntries, Eval.mapEntries, asKey_rename]
    cases k.asKey with
    | ok key =>
      simp only [Entries.insert_map (rename f)]
      exact mapEntries_rename rest (Entries.insert key v entries)
    | error cause => rfl

@[simp] theorem firstArgument_rename (args : List Value) :
    firstArgument (args.map (rename f)) = (firstArgument args).rename f := by
  cases args <;> rfl

end Value

/-! ### Members -/

/-- The member with its value or its procedure renamed. -/
def Member.rename (f : Nat → Nat) : Member → Member
  | .value v => .value (v.rename f)
  | .procedure p => .procedure (p.rename f)

/-- Nothing in the fields of objects depends on the numbers of vars and made forms. -/
def Fields.Uniform (fields : Fields) : Prop :=
  ∀ f : Nat → Nat, Injective f → ∀ o name, (fields o name).map (Member.rename f) = fields o name

namespace Value

variable {fields : Fields}

theorem dataMember?_rename (hf : Injective f) (hfields : Fields.Uniform fields) (v : Value) (name : String) :
    (v.rename f).dataMember? fields name = (v.dataMember? fields name).map (Member.rename f) := by
  cases v with
  | map entries =>
    simp only [rename_map, dataMember?, Entries.get?_map (rename f), Option.map_map]
    rfl
  | object o => exact (hfields f hf o name).symm
  | _ => rfl

theorem keywordMember?_rename (hf : Injective f) (hfields : Fields.Uniform fields) (v : Value) (name : String) :
    (v.rename f).keywordMember? fields name = (v.keywordMember? fields name).map (Member.rename f) := by
  cases v with
  | map entries =>
    simp only [rename_map, keywordMember?, Entries.get?_map (rename f), Option.map_map]
    rfl
  | object o => exact (hfields f hf o _).symm
  | _ => rfl

theorem property?_rename (v : Value) (name : String) :
    (v.rename f).property? name = (v.property? name).map (Member.rename f) := by
  cases v with
  | string text => simp only [rename, property?]; split <;> rfl
  | vector items => simp only [rename_vector, property?, List.length_map]; split <;> rfl
  | set items => simp only [rename_set, property?, List.length_map]; split <;> rfl
  | map entries => simp only [rename_map, property?, List.length_map]; split <;> rfl
  | _ => rfl

theorem methods_rename (v : Value) : (v.rename f).methods = v.methods.map (Method.rename f) := by
  have hdisplay := v.display_rename (f := f)
  cases v <;> simp only [methods, hdisplay] <;> rfl

theorem method?_rename (v : Value) (name : String) :
    (v.rename f).method? name = (v.method? name).map (Member.rename f) := by
  simp only [method?, methods_rename, List.find?_map, Function.comp_def, Method.name_rename, Option.map_map]
  rfl

theorem member?_rename (hf : Injective f) (hfields : Fields.Uniform fields) (v : Value) (name : String) :
    (v.rename f).member? fields name = (v.member? fields name).map (Member.rename f) := by
  simp only [member?, dataMember?_rename hf hfields, keywordMember?_rename hf hfields, property?_rename,
    method?_rename]
  cases v.dataMember? fields name <;> cases v.keywordMember? fields name <;> cases v.property? name <;> rfl

theorem entry?_rename (hf : Injective f) (hfields : Fields.Uniform fields) (v key : Value) :
    Value.entry? fields (v.rename f) (key.rename f) = (v.entry? fields key).map (Member.rename f) := by
  cases v with
  | map entries =>
    simp only [rename_map, entry?, asKey_rename]
    cases key.asKey with
    | ok key => simp only [Entries.get?_map (rename f), Option.map_map]; rfl
    | error cause => rfl
  | vector items =>
    cases key with
    | int n =>
      rw [rename_vector]
      show (if 0 ≤ n.toInt then (items.map (rename f))[n.toInt.toNat]?.map Member.value else none) = _
      rw [List.getElem?_map, Option.map_map, entry?]
      split
      · rw [Option.map_map]
        rfl
      · rfl
    | _ => rfl
  | object o =>
    cases key with
    | string name => exact (hfields f hf o name).symm
    | keyword name => exact (hfields f hf o _).symm
    | _ => rfl
  | _ => cases key <;> rfl

end Value

/-! ### Methods -/

namespace StringMethod

theorem stringArgument_rename (method : StringMethod) (args : List Value) :
    method.stringArgument (args.map (Value.rename f)) = method.stringArgument args := by
  cases args with
  | nil => rfl
  | cons v rest => cases v <;> rfl

theorem cutEnd_rename (text : String) (arg : Option Value) :
    cutEnd text (arg.map (Value.rename f)) = cutEnd text arg := by
  cases arg with
  | none => rfl
  | some v =>
    have hint := v.asInt_rename (f := f)
    cases v with
    | nil => rfl
    | _ => exact congrArg (Except.map Int64.toInt) hint

theorem cut_rename (text : String) (args : List Value) :
    cut text (args.map (Value.rename f)) = (cut text args).map (Value.rename f) := by
  rw [cut_eq, cut_eq, Value.firstArgument_rename, Value.asInt_rename, List.getElem?_map, cutEnd_rename]
  cases (firstArgument args).asInt with
  | error cause => rfl
  | ok start => cases cutEnd text args[1]? <;> rfl

theorem run_rename (method : StringMethod) (text : String) (args : List Value) :
    method.run text (args.map (Value.rename f)) = (method.run text args).map (Value.rename f) := by
  have hargument := stringArgument_rename (f := f) method args
  cases method with
  | toUpperCase | toLowerCase | trim => rfl
  | includes | startsWith | endsWith =>
    simp only [run, hargument]
    cases stringArgument _ args <;> rfl
  | split =>
    simp only [run, hargument]
    cases stringArgument split args with
    | error cause => rfl
    | ok separator =>
      simp only [Except.map, Value.rename_vector, List.map_map]
      rfl
  | substring => exact cut_rename text args

end StringMethod

theorem VectorMethod.run_rename (hf : Injective f) (method : VectorMethod) (items args : List Value) :
    method.run (items.map (Value.rename f)) (args.map (Value.rename f)) = (method.run items args).rename f := by
  cases method with
  | includes => simp only [run, Value.firstArgument_rename, Value.contains_rename hf, Value.rename]
  | indexOf =>
    simp only [run, Value.firstArgument_rename, Value.position?_rename hf]
    cases Value.position? items (firstArgument args) <;> rfl
  | join =>
    have hseparator : separator (args.map (Value.rename f)) = separator args := by
      cases args with
      | nil => rfl
      | cons v rest => exact v.display_rename
    simp only [run, hseparator, Value.map_display_rename, Value.rename]

theorem Method.run_rename (hf : Injective f) (m : Method Value) (args : List Value) :
    (m.rename f).run (args.map (Value.rename f)) = (m.run args).map (Value.rename f) := by
  cases m with
  | toString text => rfl
  | ofString method text => exact method.run_rename text args
  | ofVector method items =>
    rw [rename, Value.renameAll_eq_map]
    exact congrArg Except.ok (method.run_rename hf items args)
  | hasItem items =>
    simp only [rename, run, Value.renameAll_eq_map, Value.firstArgument_rename, Value.contains_rename hf]
    rfl
  | hasKey entries =>
    have hkey : Lisplet.hasKey (entries.map fun entry => (entry.1, entry.2.rename f)) ((firstArgument args).rename f) =
        Lisplet.hasKey entries (firstArgument args) := by
      simp only [Lisplet.hasKey, Value.asKey_rename, Entries.contains, Entries.get?_map (Value.rename f),
        Option.isSome_map]
    simp only [rename, run, Value.renameEntries_eq_map, Value.firstArgument_rename, hkey]
    rfl

end Lisplet
