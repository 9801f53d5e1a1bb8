import Lisplet.Eval.Run
import Lisplet.Proofs.Shape
import Mathlib.Data.List.Forall2

/-! # Skeletons

What the evaluator can tell of a form is less than what the form holds: spans and the texts of forms with parts do not
matter to it. The skeleton of a form leaves them out, and the skeleton of a value does so in all code within the
value. This module shows that the functions on forms and values that evaluation is made of do not look further than
the skeleton: they give the same for two values with one skeleton, up to skeletons. -/

namespace Lisplet

namespace Form

variable {α : Type}

/-- The text by which a form takes part in evaluation: its own if it is a word, and its operand's if it is a var
    quote. Malformed text is printed, so it is kept too. -/
def keptText (kind : FormKind) (children : List (Form α)) (text : Option String) : Option String :=
  if kind.isWord ∨ kind = .syntaxError then text
  else if kind = .varQuote then children[0]?.bind (·.text?)
  else none

mutual

/-- The form without its layout. -/
def skeleton : Form α → Form α
  | ⟨id, kind, children, binding, metadata⟩ =>
    ⟨id, kind, skeletons children, binding, { text := keptText kind children metadata.text }⟩

/-- The forms without their layout. -/
def skeletons : List (Form α) → List (Form α)
  | [] => []
  | form :: rest => form.skeleton :: skeletons rest

end

theorem skeletons_eq_map (forms : List (Form α)) : skeletons forms = forms.map skeleton := by
  induction forms with
  | nil => rfl
  | cons form rest ih => rw [skeletons, ih, List.map_cons]

theorem skeleton_eq (form : Form α) :
    form.skeleton = ⟨form.id, form.kind, form.children.map skeleton, form.binding,
      { text := keptText form.kind form.children form.text? }⟩ := by
  cases form with
  | mk id kind children binding metadata => rw [skeleton, skeletons_eq_map]; rfl

end Form

mutual

/-- The value with the skeletons of all code in it. -/
def Value.skeleton : Value → Value
  | .vector items => .vector (Value.skeletons items)
  | .set items => .set (Value.skeletons items)
  | .map entries => .map (Value.skeletonEntries entries)
  | .form form => .form form.skeleton
  | .function identity callable => .function identity callable.skeleton
  | v => v

/-- The values with the skeletons of all code in them. -/
def Value.skeletons : List Value → List Value
  | [] => []
  | v :: rest => v.skeleton :: Value.skeletons rest

/-- The entries with the skeletons of all code in them. -/
def Value.skeletonEntries : List (Key × Value) → List (Key × Value)
  | [] => []
  | (key, v) :: rest => (key, v.skeleton) :: Value.skeletonEntries rest

/-- The same for what can be called. -/
def Callable.skeleton : Callable Value → Callable Value
  | .procedure p => .procedure p.skeleton
  | callable => callable

/-- The same for procedures. -/
def Procedure.skeleton : Procedure Value → Procedure Value
  | .method m => .method m.skeleton
  | .closure name params body scope => .closure name params body.skeleton scope
  | .anonymous form head args params scope =>
    .anonymous form.skeleton head.skeleton (args.map Form.skeleton) params scope
  | p => p

/-- The same for methods. -/
def Method.skeleton : Method Value → Method Value
  | .ofVector method items => .ofVector method (Value.skeletons items)
  | .hasItem items => .hasItem (Value.skeletons items)
  | .hasKey entries => .hasKey (Value.skeletonEntries entries)
  | m => m

end

/-! ### Forms -/

namespace Form

variable {α : Type} {form other : Form α}

/-- The text of a word is part of its skeleton. -/
theorem keptText_of_isWord {kind : FormKind} (h : kind.isWord = true) (children : List (Form α))
    (text : Option String) : keptText kind children text = text := by
  rw [keptText, if_pos (.inl h)]

theorem print_skeleton (form : Form α) : form.skeleton.print = form.print := by
  induction form using parts_induction with
  | step form ih =>
    have hparts : printAll (form.children.map skeleton) = printAll form.children := by
      rw [printAll_eq_map, printAll_eq_map, List.map_map]
      exact List.map_congr_left ih
    rw [skeleton_eq]
    obtain ⟨id, kind, children, binding, metadata⟩ := form
    simp only [print, hparts]
    cases kind <;> rfl

/-- Forms that differ in their layout only. -/
def Alike (form other : Form α) : Prop := form.skeleton = other.skeleton

/-- Lists of forms with the same skeletons, item by item. -/
theorem forall₂_of_map {forms others : List (Form α)} (h : forms.map skeleton = others.map skeleton) :
    List.Forall₂ Alike forms others := by
  rw [← List.forall₂_eq_eq_eq, List.forall₂_map_left_iff, List.forall₂_map_right_iff] at h
  exact h

theorem map_of_forall₂ {forms others : List (Form α)} (h : List.Forall₂ Alike forms others) :
    forms.map skeleton = others.map skeleton := by
  rw [← List.forall₂_eq_eq_eq, List.forall₂_map_left_iff, List.forall₂_map_right_iff]
  exact h

namespace Alike

theorem iff : form.Alike other ↔ form.id = other.id ∧ form.kind = other.kind ∧
    form.children.map skeleton = other.children.map skeleton ∧ form.binding = other.binding ∧
    keptText form.kind form.children form.text? = keptText other.kind other.children other.text? := by
  rw [Alike, skeleton_eq, skeleton_eq, Form.mk.injEq, Metadata.mk.injEq]
  simp only [true_and, and_true]

theorem skeleton (h : form.Alike other) : form.skeleton = other.skeleton := h

theorem id (h : form.Alike other) : form.id = other.id := (iff.mp h).1

theorem kind (h : form.Alike other) : form.kind = other.kind := (iff.mp h).2.1

theorem children (h : form.Alike other) : List.Forall₂ Alike form.children other.children :=
  forall₂_of_map (iff.mp h).2.2.1

theorem binding (h : form.Alike other) : form.binding = other.binding := (iff.mp h).2.2.2.1

theorem text? (h : form.Alike other) (hw : form.kind.isWord = true) : form.text? = other.text? := by
  have htext := (iff.mp h).2.2.2.2
  rwa [keptText_of_isWord hw, keptText_of_isWord (h.kind ▸ hw)] at htext

theorem text (h : form.Alike other) (hw : form.kind.isWord = true) : form.text = other.text := by
  rw [Form.text, Form.text, h.text? hw]

theorem arguments (h : form.Alike other) : List.Forall₂ Alike form.arguments other.arguments := by
  have hchildren := h.children
  have htail : List.Forall₂ Alike form.children.tail other.children.tail := by
    generalize form.children = children at hchildren ⊢
    generalize other.children = children' at hchildren ⊢
    cases hchildren with
    | nil => exact .nil
    | cons _ hrest => exact hrest
  unfold Form.arguments
  rw [h.kind]
  split
  · exact htail
  · exact htail
  · exact hchildren

end Alike

end Form

namespace Form.Alike

variable {form other : Code}

/-- A var quote quotes the same name as one that is alike. -/
theorem quotedName? (h : form.Alike other) (hq : form.kind = .varQuote) : form.quotedName? = other.quotedName? := by
  have htext := (iff.mp h).2.2.2.2
  rw [← h.kind, hq] at htext
  exact htext

theorem implicitDo (number : Nat) {body rest : List Code} (h : form.Alike other) (hb : List.Forall₂ Alike body rest) :
    (form.implicitDo number body).Alike (other.implicitDo number rest) := by
  refine iff.mpr ⟨?_, rfl, ?_, rfl, rfl⟩
  · rw [Form.implicitDo, Form.implicitDo, h.id]
  · simp only [Form.implicitDo, List.map_cons, map_of_forall₂ hb, h.id]

theorem memberCall? (h : form.Alike other) (number : Nat) :
    (form.memberCall? number).map Form.skeleton = (other.memberCall? number).map Form.skeleton := by
  have hchildren := h.children
  have hid := h.id
  unfold Form.memberCall?
  generalize form.children = children at hchildren ⊢
  generalize other.children = children' at hchildren ⊢
  cases hchildren with
  | nil => rfl
  | @cons head head' _ _ hhead hrest =>
    cases hrest with
    | nil => rfl
    | @cons target target' args args' htarget hargs =>
      by_cases hk : head.kind = .symbol
      · have htext : head.text? = head'.text? := hhead.text? (by rw [hk]; rfl)
        simp only [hk, ← hhead.kind, if_true, Option.map_map, htext, hid]
        refine Option.map_congr fun member _ => ?_
        refine iff.mpr ⟨rfl, rfl, ?_, rfl, rfl⟩
        simp only [List.map_cons, htarget.skeleton, map_of_forall₂ hargs]
      · simp only [hk, ← hhead.kind, if_false, Option.map_none]

end Form.Alike

namespace Eval

theorem maxParams_skeletons {forms : List Code} (h : ∀ form ∈ forms, maxParam form.skeleton = maxParam form) :
    maxParams (forms.map Form.skeleton) = maxParams forms := by
  induction forms with
  | nil => rfl
  | cons form rest ih =>
    rw [List.map_cons, maxParams, maxParams, h form (by simp), ih fun part hp => h part (List.mem_cons_of_mem _ hp)]

theorem maxParam_skeleton (form : Code) : maxParam form.skeleton = maxParam form := by
  induction form using Form.parts_induction with
  | step form ih =>
    have hparts := maxParams_skeletons ih
    rw [Form.skeleton_eq]
    obtain ⟨id, kind, children, binding, metadata⟩ := form
    simp only [maxParam, hparts]
    cases kind <;> rfl

end Eval

/-! ### Values -/

@[simp] theorem Callable.name_skeleton (c : Callable Value) : c.skeleton.name = c.name := by
  cases c with
  | procedure p =>
    cases p with
    | method m => cases m <;> rfl
    | _ => rfl
  | _ => rfl

@[simp] theorem Callable.isSpecial_skeleton (c : Callable Value) : c.skeleton.isSpecial = c.isSpecial := by
  cases c <;> rfl

namespace Value

theorem skeletons_eq_map (vs : List Value) : skeletons vs = vs.map skeleton := by
  induction vs with
  | nil => rfl
  | cons v rest ih => rw [skeletons, ih, List.map_cons]

theorem skeletonEntries_eq_map (entries : List (Key × Value)) :
    skeletonEntries entries = entries.map fun entry => (entry.1, entry.2.skeleton) := by
  induction entries with
  | nil => rfl
  | cons entry rest ih => rw [skeletonEntries, ih, List.map_cons]

@[simp] theorem typeName_skeleton (v : Value) : v.skeleton.typeName = v.typeName := by
  cases v with
  | function identity callable => simp [skeleton, typeName]
  | _ => rfl

@[simp] theorem isTruthy_skeleton (v : Value) : v.skeleton.isTruthy = v.isTruthy := by
  cases v <;> rfl

mutual

/-- The text of a value is that of its skeleton. -/
theorem print_skeleton : (v : Value) → v.skeleton.print = v.print
  | vector items => by rw [skeleton, print, print, printAll_skeletons items]
  | set items => by rw [skeleton, print, print, printAll_skeletons items]
  | map entries => by rw [skeleton, print, print, printEntries_skeletonEntries entries]
  | form f => by rw [skeleton, print, print, Form.print_skeleton]
  | function _ callable => by rw [skeleton, print, print, Callable.name_skeleton]
  | nil | bool _ | int _ | double _ | string _ | keyword _ | var _ | object _ => rfl

theorem printAll_skeletons : (vs : List Value) → printAll (skeletons vs) = printAll vs
  | [] => rfl
  | v :: rest => by rw [skeletons, printAll, printAll, print_skeleton v, printAll_skeletons rest]

theorem printEntries_skeletonEntries :
    (entries : List (Key × Value)) → printEntries (skeletonEntries entries) = printEntries entries
  | [] => rfl
  | (key, v) :: rest => by
    rw [skeletonEntries, printEntries, printEntries, print_skeleton v, printEntries_skeletonEntries rest]

end

@[simp] theorem display_skeleton (v : Value) : v.skeleton.display = v.display := by
  have hprint := print_skeleton v
  cases v with
  | nil => rfl
  | string text => rfl
  | _ => exact hprint

@[simp] theorem asKey_skeleton (v : Value) : v.skeleton.asKey = v.asKey := by
  have hprint := print_skeleton v
  cases v with
  | keyword name => rfl
  | string text => rfl
  | _ => exact congrArg (fun text => Except.error (Cause.badKey text)) hprint

@[simp] theorem asInt_skeleton (v : Value) : v.skeleton.asInt = v.asInt := by
  cases v with
  | function identity callable => simp [skeleton, asInt, typeName]
  | _ => rfl

theorem map_display_skeletons (vs : List Value) : (skeletons vs).map display = vs.map display := by
  rw [skeletons_eq_map, List.map_map]
  exact List.map_congr_left fun v _ => display_skeleton v

theorem toSeq_skeleton (v : Value) : v.skeleton.toSeq = v.toSeq.map skeletons := by
  cases v with
  | function identity callable => simp [skeleton, toSeq, typeName, Except.map]
  | _ => rfl

mutual

/-- Equality does not look further than skeletons. -/
theorem same_skeleton (swapped : Bool) : (x : Value) → ∀ y : Value, same swapped x.skeleton y.skeleton = same swapped x y
  | vector xs => fun y => by
    rw [same.eq_def, same.eq_def swapped (vector xs)]
    cases y with
    | vector ys => exact sameAll_skeletons swapped xs ys
    | _ => rfl
  | set xs => fun y => by
    rw [same.eq_def, same.eq_def swapped (set xs)]
    cases y with
    | set ys =>
      have hany : ∀ y : Value, anySame false (skeletons xs) y.skeleton = anySame false xs y := anySame_skeletons false xs
      have heach := eachIn_skeletons true xs ys
      simp only [skeletons_eq_map] at hany heach
      simp only [skeleton, skeletons_eq_map, List.length_map, List.all_map, Function.comp_def, hany, heach]
    | _ => rfl
  | map xs => fun y => by
    rw [same.eq_def, same.eq_def swapped (map xs)]
    cases y with
    | map ys => exact sameEntries_skeletonEntries swapped xs ys
    | _ => rfl
  | form f => fun y => by
    rw [same.eq_def, same.eq_def swapped (form f)]
    cases y with
    | form g => rw [skeleton, skeleton, Form.skeleton_eq, Form.skeleton_eq g]
    | _ => rfl
  | nil | bool _ | int _ | double _ | string _ | keyword _ | var _ | function _ _ | object _ => fun y => by
    rw [same.eq_def, same.eq_def swapped _ y]
    cases y <;> rfl

theorem sameAll_skeletons (swapped : Bool) :
    (xs : List Value) → ∀ ys, sameAll swapped (skeletons xs) (skeletons ys) = sameAll swapped xs ys
  | [] => fun ys => by cases ys <;> simp [skeletons, sameAll]
  | x :: xs => fun ys => by
    cases ys with
    | nil => simp [skeletons, sameAll]
    | cons y ys => rw [skeletons, skeletons, sameAll, sameAll, same_skeleton swapped x y, sameAll_skeletons swapped xs ys]

theorem anySame_skeletons (swapped : Bool) :
    (xs : List Value) → ∀ y : Value, anySame swapped (skeletons xs) y.skeleton = anySame swapped xs y
  | [] => fun y => by rw [skeletons, anySame, anySame]
  | x :: xs => fun y => by rw [skeletons, anySame, anySame, same_skeleton swapped x y, anySame_skeletons swapped xs y]

theorem eachIn_skeletons (swapped : Bool) :
    (xs : List Value) → ∀ ys, eachIn swapped (skeletons xs) (skeletons ys) = eachIn swapped xs ys
  | [] => fun ys => by rw [skeletons, eachIn, eachIn]
  | x :: xs => fun ys => by
    have hsame : ∀ y : Value, same swapped x.skeleton y.skeleton = same swapped x y := same_skeleton swapped x
    have hany : (skeletons ys).any (fun y => same swapped x.skeleton y) = ys.any (fun y => same swapped x y) := by
      simp only [skeletons_eq_map, List.any_map, Function.comp_def, hsame]
    rw [skeletons, eachIn, eachIn, hany, eachIn_skeletons swapped xs ys]

theorem sameEntries_skeletonEntries (swapped : Bool) :
    (xs : List (Key × Value)) → ∀ ys,
      sameEntries swapped (skeletonEntries xs) (skeletonEntries ys) = sameEntries swapped xs ys
  | [] => fun ys => by cases ys <;> simp [skeletonEntries, sameEntries]
  | (k, x) :: xs => fun ys => by
    cases ys with
    | nil => simp [skeletonEntries, sameEntries]
    | cons entry ys =>
      rw [skeletonEntries, skeletonEntries, sameEntries, sameEntries, same_skeleton swapped x entry.2,
        sameEntries_skeletonEntries swapped xs ys]

end

/-! ### Collections -/

theorem contains_skeletons (items : List Value) (v : Value) :
    contains (skeletons items) v.skeleton = contains items v := by
  simp only [contains, skeletons_eq_map, List.any_map, Function.comp_def, equals, same_skeleton]

theorem position?_skeletons (items : List Value) (v : Value) :
    position? (skeletons items) v.skeleton = position? items v := by
  simp only [position?, skeletons_eq_map, List.findIdx?_map, Function.comp_def, equals, same_skeleton]

theorem skeletons_append (xs ys : List Value) : skeletons (xs ++ ys) = skeletons xs ++ skeletons ys := by
  simp only [skeletons_eq_map, List.map_append]

theorem distinctOnto_skeletons (kept vs : List Value) :
    distinctOnto (skeletons kept) (skeletons vs) = skeletons (distinctOnto kept vs) := by
  induction vs generalizing kept with
  | nil => rfl
  | cons v vs ih =>
    have hkept : skeletons kept ++ [v.skeleton] = skeletons (kept ++ [v]) := by
      rw [skeletons_append]
      rfl
    rw [skeletons, distinctOnto, distinctOnto, contains_skeletons, hkept, ih, ih, apply_ite skeletons]

theorem ofItems_skeletons (vs : List Value) : ofItems (skeletons vs) = (ofItems vs).skeleton :=
  congrArg set (distinctOnto_skeletons [] vs)

theorem get?_skeletonEntries (entries : Entries Key Value) (key : Key) :
    Entries.get? (skeletonEntries entries) key = (Entries.get? entries key).map skeleton := by
  induction entries with
  | nil => rfl
  | cons entry rest ih =>
    simp only [Entries.get?] at ih ⊢
    rw [skeletonEntries, List.lookup_cons, List.lookup_cons, ih]
    cases key == entry.1 <;> rfl

theorem insert_skeletonEntries (entries : Entries Key Value) (key : Key) (v : Value) :
    Entries.insert key v.skeleton (skeletonEntries entries) = skeletonEntries (Entries.insert key v entries) := by
  induction entries with
  | nil => rfl
  | cons entry rest ih =>
    rw [skeletonEntries, Entries.insert, Entries.insert]
    cases compare key entry.1 with
    | lt => rfl
    | eq => rfl
    | gt => exact congrArg _ ih

theorem mapEntries_skeletons : (vs : List Value) → ∀ entries : Entries Key Value,
    Eval.mapEntries (skeletonEntries entries) (skeletons vs) = (Eval.mapEntries entries vs).map skeletonEntries
  | [] => fun _ => rfl
  | [_] => fun _ => rfl
  | k :: v :: rest => fun entries => by
    rw [skeletons, skeletons, Eval.mapEntries, Eval.mapEntries, asKey_skeleton]
    cases k.asKey with
    | ok key =>
      simp only [insert_skeletonEntries]
      exact mapEntries_skeletons rest (Entries.insert key v entries)
    | error cause => rfl

@[simp] theorem firstArgument_skeletons (args : List Value) : firstArgument (skeletons args) = (firstArgument args).skeleton := by
  cases args <;> rfl

end Value

/-! ### Members -/

/-- The member with the skeletons of all code in it. -/
def Member.skeleton : Member → Member
  | .value v => .value v.skeleton
  | .procedure p => .procedure p.skeleton

namespace Value

theorem dataMember?_skeleton (v : Value) (name : String) :
    v.skeleton.dataMember? Host.bare.fields name = (v.dataMember? Host.bare.fields name).map Member.skeleton := by
  cases v with
  | map entries =>
    simp only [skeleton, dataMember?, get?_skeletonEntries, Option.map_map]
    rfl
  | _ => rfl

theorem keywordMember?_skeleton (v : Value) (name : String) :
    v.skeleton.keywordMember? Host.bare.fields name = (v.keywordMember? Host.bare.fields name).map Member.skeleton := by
  cases v with
  | map entries =>
    simp only [skeleton, keywordMember?, get?_skeletonEntries, Option.map_map]
    rfl
  | _ => rfl

theorem property?_skeleton (v : Value) (name : String) :
    v.skeleton.property? name = (v.property? name).map Member.skeleton := by
  cases v with
  | string text => simp only [skeleton, property?]; split <;> rfl
  | vector items => simp only [skeleton, property?, skeletons_eq_map, List.length_map]; split <;> rfl
  | set items => simp only [skeleton, property?, skeletons_eq_map, List.length_map]; split <;> rfl
  | map entries => simp only [skeleton, property?, skeletonEntries_eq_map, List.length_map]; split <;> rfl
  | _ => rfl

theorem methods_skeleton (v : Value) : v.skeleton.methods = v.methods.map Method.skeleton := by
  have hdisplay := display_skeleton v
  cases v <;> simp only [methods, hdisplay] <;> rfl

theorem name_skeleton (m : Method Value) : m.skeleton.name = m.name := by
  cases m <;> rfl

theorem method?_skeleton (v : Value) (name : String) :
    v.skeleton.method? name = (v.method? name).map Member.skeleton := by
  simp only [method?, methods_skeleton, List.find?_map, Function.comp_def, name_skeleton, Option.map_map]
  rfl

/-- The members of a value are those of its skeleton. -/
theorem member?_skeleton (v : Value) (name : String) :
    v.skeleton.member? Host.bare.fields name = (v.member? Host.bare.fields name).map Member.skeleton := by
  simp only [member?, dataMember?_skeleton, keywordMember?_skeleton, property?_skeleton, method?_skeleton]
  cases v.dataMember? Host.bare.fields name <;> cases v.keywordMember? Host.bare.fields name <;>
    cases v.property? name <;> rfl

theorem entry?_skeleton (v key : Value) :
    v.skeleton.entry? Host.bare.fields key.skeleton = (v.entry? Host.bare.fields key).map Member.skeleton := by
  cases v with
  | map entries =>
    simp only [skeleton, entry?, asKey_skeleton]
    cases key.asKey with
    | ok key => simp only [get?_skeletonEntries, Option.map_map]; rfl
    | error cause => rfl
  | vector items =>
    cases key with
    | int n =>
      simp only [skeleton, entry?, skeletons_eq_map, List.getElem?_map, Option.map_map]
      split
      · simp only [Option.map_map]; rfl
      · rfl
    | _ => rfl
  | object o => cases key <;> rfl
  | _ => cases key <;> rfl

end Value

namespace StringMethod

theorem stringArgument_skeletons (method : StringMethod) (args : List Value) :
    method.stringArgument (Value.skeletons args) = method.stringArgument args := by
  cases args with
  | nil => rfl
  | cons v rest => cases v <;> rfl

/-- The second position of a cut. -/
def cutEnd (text : String) : Option Value → Except Cause Int
  | none | some .nil => .ok text.length
  | some v => v.asInt.map Int64.toInt

theorem cut_eq (text : String) (args : List Value) :
    cut text args = (firstArgument args).asInt.bind fun start => (cutEnd text args[1]?).map fun stop =>
      .string (String.ofList (Search.between start.toInt stop text.toList)) := by
  rw [cut]
  cases (firstArgument args).asInt with
  | error cause => rfl
  | ok start =>
    cases args[1]? with
    | none => rfl
    | some v => cases v <;> rfl

theorem cutEnd_skeleton (text : String) (arg : Option Value) : cutEnd text (arg.map Value.skeleton) = cutEnd text arg := by
  cases arg with
  | none => rfl
  | some v =>
    have hint := Value.asInt_skeleton v
    cases v with
    | nil => rfl
    | _ => exact congrArg (Except.map Int64.toInt) hint

theorem cut_skeletons (text : String) (args : List Value) :
    cut text (Value.skeletons args) = (cut text args).map Value.skeleton := by
  rw [cut_eq, cut_eq, Value.firstArgument_skeletons, Value.asInt_skeleton, Value.skeletons_eq_map, List.getElem?_map,
    cutEnd_skeleton]
  cases (firstArgument args).asInt with
  | error cause => rfl
  | ok start => cases cutEnd text args[1]? <;> rfl

theorem run_skeletons (method : StringMethod) (text : String) (args : List Value) :
    method.run text (Value.skeletons args) = (method.run text args).map Value.skeleton := by
  have hargument := stringArgument_skeletons method args
  cases method with
  | toUpperCase | toLowerCase | trim => rfl
  | includes | startsWith | endsWith =>
    simp only [run, hargument]
    cases stringArgument _ args <;> rfl
  | split =>
    simp only [run, hargument]
    cases stringArgument split args with
    | error cause => rfl
    | ok separator =>
      simp only [Except.map, Value.skeleton, Value.skeletons_eq_map, List.map_map]
      rfl
  | substring => exact cut_skeletons text args

end StringMethod

theorem VectorMethod.run_skeletons (method : VectorMethod) (items args : List Value) :
    method.run (Value.skeletons items) (Value.skeletons args) = (method.run items args).skeleton := by
  cases method with
  | includes => simp only [run, Value.firstArgument_skeletons, Value.contains_skeletons, Value.skeleton]
  | indexOf =>
    simp only [run, Value.firstArgument_skeletons, Value.position?_skeletons]
    cases Value.position? items (firstArgument args) <;> rfl
  | join =>
    have hseparator : separator (Value.skeletons args) = separator args := by
      cases args with
      | nil => rfl
      | cons v rest => exact Value.display_skeleton v
    simp only [run, hseparator, Value.map_display_skeletons, Value.skeleton]

/-- Methods do not look further than skeletons. -/
theorem Method.run_skeleton (m : Method Value) (args : List Value) :
    m.skeleton.run (Value.skeletons args) = (m.run args).map Value.skeleton := by
  cases m with
  | toString text => rfl
  | ofString method text => exact StringMethod.run_skeletons method text args
  | ofVector method items => exact congrArg Except.ok (VectorMethod.run_skeletons method items args)
  | hasItem items =>
    simp only [skeleton, run, Value.firstArgument_skeletons, Value.contains_skeletons]
    rfl
  | hasKey entries =>
    have hkey : Lisplet.hasKey (Value.skeletonEntries entries) (firstArgument args).skeleton =
        Lisplet.hasKey entries (firstArgument args) := by
      simp only [Lisplet.hasKey, Value.asKey_skeleton, Entries.contains, Value.get?_skeletonEntries, Option.isSome_map]
    simp only [skeleton, run, Value.firstArgument_skeletons, hkey]
    rfl

/-! ### Values that are alike -/

namespace Value

/-- Values that differ in the layout of code only. -/
def Alike (v w : Value) : Prop := v.skeleton = w.skeleton

namespace Alike

variable {v w : Value}

theorem skeleton (h : v.Alike w) : v.skeleton = w.skeleton := h

theorem print (h : v.Alike w) : v.print = w.print := by
  rw [← print_skeleton v, h.skeleton, print_skeleton]

theorem isTruthy (h : v.Alike w) : v.isTruthy = w.isTruthy := by
  rw [← isTruthy_skeleton v, h.skeleton, isTruthy_skeleton]

theorem asKey (h : v.Alike w) : v.asKey = w.asKey := by
  rw [← asKey_skeleton v, h.skeleton, asKey_skeleton]

theorem toSeq (h : v.Alike w) : v.toSeq.map skeletons = w.toSeq.map skeletons := by
  rw [← toSeq_skeleton, h.skeleton, toSeq_skeleton]

theorem member? (h : v.Alike w) (name : String) :
    (v.member? Host.bare.fields name).map Member.skeleton = (w.member? Host.bare.fields name).map Member.skeleton := by
  rw [← member?_skeleton, h.skeleton, member?_skeleton]

/-- What is alike to a function is the same function with code that is alike. -/
theorem eq_function {identity : Nat} {callable : Callable Value} (h : (function identity callable).Alike w) :
    ∃ other, w = function identity other ∧ callable.skeleton = other.skeleton := by
  cases w <;> simp only [Alike, Value.skeleton, function.injEq, reduceCtorEq] at h
  obtain ⟨rfl, hcallable⟩ := h
  exact ⟨_, rfl, hcallable⟩

/-- What is alike says something of a var, or nothing, for the same reason. -/
theorem asMetadata (h : v.Alike w) : v.asMetadata.map (fun _ => ()) = w.asMetadata.map (fun _ => ()) := by
  have hskeleton : ∀ u : Value, u.skeleton.asMetadata.map (fun _ => ()) = u.asMetadata.map (fun _ => ()) := by
    intro u
    have htype := typeName_skeleton u
    cases u with
    | nil => rfl
    | map entries => rfl
    | _ => exact congrArg (fun name => Except.error (Cause.unexpected "metadata map" name)) htype
  rw [← hskeleton v, h.skeleton, hskeleton]

theorem entry? {key other : Value} (h : v.Alike w) (hk : key.Alike other) :
    (v.entry? Host.bare.fields key).map Member.skeleton = (w.entry? Host.bare.fields other).map Member.skeleton := by
  rw [← entry?_skeleton, h.skeleton, hk.skeleton, entry?_skeleton]

theorem symm (h : v.Alike w) : w.Alike v := Eq.symm h

end Alike

theorem forall₂_of_skeletons {vs ws : List Value} (h : skeletons vs = skeletons ws) : List.Forall₂ Alike vs ws := by
  rw [skeletons_eq_map, skeletons_eq_map, ← List.forall₂_eq_eq_eq, List.forall₂_map_left_iff,
    List.forall₂_map_right_iff] at h
  exact h

end Value

namespace Callable

end Callable

end Lisplet
