import Lisplet.Proofs.IntegerLiteral
import Lisplet.Proofs.Tidy

/-! # Positional parameters

A `#()` function has as many parameters as the largest position that its body mentions, wherever it does so, but not in
a `#()` form inside it; and as many as there are arguments, if these are more. In the scopes inside that of the call a
parameter means its argument as long as nothing else has come to bind its name there, and only untidy code does that. -/

namespace Lisplet

open EStateM (Result)

namespace Form

variable {α : Type}

/-- A form stands in another, or is it, and in no `#()` form inside that one. -/
inductive Open : Form α → Form α → Prop
  | refl (form : Form α) : Open form form
  | part {node part form : Form α} (hkind : form.kind ≠ .lambda) (hpart : part ∈ form.children) (h : Open node part) :
    Open node form

theorem Open.within {node form : Form α} (h : node.Open form) : node.Within form := by
  induction h with
  | refl => exact .refl _
  | part _ hpart _ ih => exact .part hpart ih

end Form

namespace Eval

/-- The position of the parameter that is written so: the first for `%` alone, and for a percent sign with digits the
    number that these denote, if it has 64 bits. Anything else has position 0. -/
def position (text : List Char) : Nat :=
  match text with
  | ['%'] => 1
  | '%' :: digits =>
    if digits.all Char.isDigit ∧ Numeral.magnitude 10 digits < 2 ^ 64 then Numeral.magnitude 10 digits else 0
  | _ => 0

/-- The largest position of a parameter that the forms mention outside of `#()` forms, or 0. -/
def IsLargestPosition (forms : List Code) (largest : Nat) : Prop :=
  (∀ part ∈ forms, ∀ node : Code, node.Open part → node.kind = .paramName → position node.text.toList ≤ largest) ∧
  (largest = 0 ∨ ∃ part ∈ forms, ∃ node : Code, node.Open part ∧ node.kind = .paramName ∧
    position node.text.toList = largest)

/-! ### Positions -/

theorem paramIndex_eq {text : String} {cs : List Char} (htext : text.toList = '%' :: cs)
    (h : cs = ['&'] ∨ ∀ c ∈ cs, c.isDigit = true) : paramIndex text = position text.toList := by
  rw [paramIndex, htext]
  rcases h with rfl | hdigits
  · decide
  · cases cs with
    | nil => rfl
    | cons c cs =>
      have hplus : c ≠ '+' := by
        rintro rfl
        exact absurd (hdigits '+' (by simp)) (by decide)
      have hall : (c :: cs).all Char.isDigit = true := List.all_eq_true.mpr hdigits
      have hnumber : paramNumber (c :: cs) =
          if Literal.ofDigits (c :: cs) < 2 ^ 64 then Literal.ofDigits (c :: cs) else 0 := by
        unfold paramNumber
        dsimp only
        split
        · next heq => exact absurd (List.cons.inj heq).1 hplus
        · rw [hall]
          rfl
      rw [position]
      · simp only [hnumber, hall, true_and, Numeral.ofDigits_eq hdigits]
      · simp

theorem position_repr {n : Nat} (h : n < 2 ^ 64) : position ("%" ++ Nat.repr n).toList = n := by
  have htext : ("%" ++ Nat.repr n).toList = '%' :: Nat.toDigits 10 n := by
    rw [String.toList_append, Nat.toList_repr]
    rfl
  have hdigits : ∀ c ∈ Nat.toDigits 10 n, c.isDigit = true := (digits_toDigits n).isDigit
  have hvalue : Numeral.magnitude 10 (Nat.toDigits 10 n) = n := by
    rw [← Numeral.ofDigits_eq hdigits, ofDigits_toDigits]
  rw [htext, position]
  · rw [if_pos ⟨List.all_eq_true.mpr hdigits, by rwa [hvalue]⟩, hvalue]
  · simp

/-! ### The largest one -/

theorem maxParam_paramName {form : Code} (h : form.kind = .paramName) : maxParam form = paramIndex form.text := by
  cases form with
  | mk id kind children binding metadata =>
    obtain rfl : kind = .paramName := h
    rw [maxParam]
    rfl

theorem maxParam_lambda {form : Code} (h : form.kind = .lambda) : maxParam form = 0 := by
  cases form with
  | mk id kind children binding metadata =>
    obtain rfl : kind = .lambda := h
    rw [maxParam]

theorem maxParam_parts {form : Code} (hname : form.kind ≠ .paramName) (hlambda : form.kind ≠ .lambda) :
    maxParam form = maxParams form.children := by
  cases form with
  | mk id kind children binding metadata => rw [maxParam] <;> assumption

theorem maxParam_le_maxParams {part : Code} {forms : List Code} (h : part ∈ forms) : maxParam part ≤ maxParams forms := by
  induction forms with
  | nil => cases h
  | cons form rest ih =>
    rw [maxParams]
    rcases List.mem_cons.mp h with rfl | h
    · exact Nat.le_max_left _ _
    · exact Nat.le_trans (ih h) (Nat.le_max_right _ _)

theorem exists_maxParam_eq {forms : List Code} (h : maxParams forms ≠ 0) :
    ∃ part ∈ forms, maxParam part = maxParams forms := by
  induction forms with
  | nil => exact absurd rfl h
  | cons form rest ih =>
    rw [maxParams] at h ⊢
    rcases Nat.le_total (maxParams rest) (maxParam form) with hle | hle
    · exact ⟨form, by simp, (Nat.max_eq_left hle).symm⟩
    · rw [Nat.max_eq_right hle] at h ⊢
      obtain ⟨part, hpart, heq⟩ := ih h
      exact ⟨part, List.mem_cons_of_mem _ hpart, heq⟩

theorem exists_open_of_maxParam (form : Code) (h : maxParam form ≠ 0) :
    ∃ node : Code, node.Open form ∧ node.kind = .paramName ∧ paramIndex node.text = maxParam form := by
  induction form using Form.parts_induction with
  | step form ih =>
    by_cases hname : form.kind = .paramName
    · exact ⟨form, .refl form, hname, (maxParam_paramName hname).symm⟩
    · have hlambda : form.kind ≠ .lambda := fun hlambda => h (maxParam_lambda hlambda)
      rw [maxParam_parts hname hlambda] at h ⊢
      obtain ⟨part, hpart, heq⟩ := exists_maxParam_eq h
      obtain ⟨node, hopen, hkind, hindex⟩ := ih part hpart (heq ▸ h)
      exact ⟨node, .part hlambda hpart hopen, hkind, hindex.trans heq⟩

end Eval

/-! ### What was read -/

namespace Document

variable {number : Nat} {source : String} {form : Code}

/-- A parameter name that was read is a percent sign, with an ampersand or with digits, if there are any. -/
theorem exists_paramName (hw : form.Within (read number source : Document Value).root) (hk : form.kind = .paramName) :
    ∃ cs, form.text.toList = '%' :: cs ∧ (cs = ['&'] ∨ ∀ c ∈ cs, c.isDigit = true) := by
  have hatom : Lexeme.isAtom .paramName form.text.toList = true := isAtom_of_within hw (by rw [hk]; rfl)
  obtain ⟨c, cs, htext, hkind, hfirst⟩ := Lexeme.exists_cons_of_isAtom hatom
  rcases Lexeme.first_cases hfirst hkind with ⟨hk, -⟩ | ⟨hk, -⟩ | ⟨rfl, hpercent⟩ | ⟨-, hplain⟩
  · cases hk
  · cases hk
  · rcases Lexeme.ofPercent_cases hpercent with ⟨-, hname⟩ | ⟨hk, -⟩
    · exact ⟨cs, htext, hname⟩
    · cases hk
  · rcases Lexeme.ofPlain_cases hplain hkind with ⟨hk, -⟩ | ⟨hk, -⟩ | ⟨hk, -⟩ | ⟨hk, -⟩ <;> cases hk

theorem paramIndex_eq (hw : form.Within (read number source : Document Value).root) (hk : form.kind = .paramName) :
    Eval.paramIndex form.text = Eval.position form.text.toList := by
  obtain ⟨cs, htext, hcs⟩ := exists_paramName hw hk
  exact Eval.paramIndex_eq htext hcs

theorem paramIndex_le_maxParam {node : Code} (hw : form.Within (read number source : Document Value).root)
    (hopen : node.Open form) (hk : node.kind = .paramName) : Eval.paramIndex node.text ≤ Eval.maxParam form := by
  induction hopen with
  | refl => exact Nat.le_of_eq (Eval.maxParam_paramName hk).symm
  | @part part form hlambda hpart _ ih =>
    have hname : form.kind ≠ .paramName := fun hname => by
      rw [children_of_within hw (by rw [hname]; rfl)] at hpart
      cases hpart
    rw [Eval.maxParam_parts hname hlambda]
    exact Nat.le_trans (ih (.trans (.of_mem hpart) hw)) (Eval.maxParam_le_maxParams hpart)

/-- The number of parameters of a `#()` form is the largest position that its parts mention. -/
theorem isLargestPosition_maxParams (hw : form.Within (read number source : Document Value).root) :
    Eval.IsLargestPosition form.children (Eval.maxParams form.children) := by
  have hpart : ∀ part ∈ form.children, part.Within (read number source : Document Value).root :=
    fun part hpart => .trans (.of_mem hpart) hw
  refine ⟨fun part hmem node hopen hk => ?_, ?_⟩
  · rw [← paramIndex_eq (hopen.within.trans (hpart part hmem)) hk]
    exact Nat.le_trans (paramIndex_le_maxParam (hpart part hmem) hopen hk) (Eval.maxParam_le_maxParams hmem)
  · by_cases hzero : Eval.maxParams form.children = 0
    · exact .inl hzero
    · obtain ⟨part, hmem, heq⟩ := Eval.exists_maxParam_eq hzero
      obtain ⟨node, hopen, hk, hindex⟩ := Eval.exists_open_of_maxParam part (heq ▸ hzero)
      refine .inr ⟨part, hmem, node, hopen, hk, ?_⟩
      rw [← paramIndex_eq (hopen.within.trans (hpart part hmem)) hk, hindex, heq]

end Document

/-! ### Calls -/

namespace Store

/-- What a call on `args` inside `scope` opens in `s`: a new scope that binds the parameters, `count` of them. No other
    scope changes. -/
structure Opens (s : Store) (scope : Scope) (count : Nat) (args : List Value) (opened : Scope × Store) : Prop where
  fresh : opened.1 = s.frames.size
  outer : opened.2.outer opened.1 = scope :: s.outer scope
  others : ∀ frame, frame ≠ opened.1 →
    opened.2.outer frame = s.outer frame ∧ opened.2.bindings frame = s.bindings frame
  arguments : opened.2.BindsArguments opened.1 count args

theorem opens_openCall (s : Store) (scope : Scope) (count : Nat) (args : List Value) :
    s.Opens scope count args (s.openCall scope count args) where
  fresh := rfl
  outer := by rw [outer_openCall, if_pos rfl]
  others frame hne := by
    rw [outer_openCall, if_neg hne]
    exact ⟨rfl, s.bindings_openCall scope count args hne⟩
  arguments := s.bindsArguments_openCall scope count args

/-- The scope that a call of the function of a `#()` form opens on `args` in `s`, and the store with it. -/
def openLambda (s : Store) (form : Code) (scope : Scope) (args : List Value) : Scope × Store :=
  s.openCall scope (max args.length (Eval.maxParams form.children)) args

end Store

namespace Eval

/-- The names of the parameter in the `n`-th position. -/
def Names (n : Nat) (name : String) : Prop := name = "%" ++ Nat.repr n ∨ n = 1 ∧ name = "%"

theorem position_of_names {n : Nat} {name : String} (h : Names n name) (hn : n < 2 ^ 64) : position name.toList = n := by
  rcases h with rfl | ⟨rfl, rfl⟩
  · exact position_repr hn
  · decide

theorem isNumbered_of_names {n : Nat} {name : String} (h : Names n name) : isNumbered name = true := by
  rcases h with rfl | ⟨rfl, rfl⟩
  · exact isNumbered_repr n
  · decide

theorem mem_parameters_of_names {n count : Nat} {name : String} (h : Names n name) (hn : 1 ≤ n) (hle : n ≤ count)
    (args : List Value) : (name, args.getD (n - 1) .nil) ∈ parameters 1 count args := by
  rcases h with rfl | ⟨rfl, rfl⟩
  · exact numbered_mem_parameters hn hle args
  · exact first_mem_parameters hle args

theorem run_paramName {node : Code} (hk : node.kind = .paramName) {u : Store} {inside : Scope} {v : Value}
    (h : u.get inside node.text = .ok v) (host : Host) (levels : Nat) :
    run host (levels + 1) (.evaluate node inside) u = .ok v u := by
  refine run_evaluate_ok (by simp [hk]) (by simp [hk]) ?_
  simp only [evalForm, hk]
  show ofExcept (u.get inside node.text) u = _
  rw [h]
  rfl

section Parameter

variable {number : Nat} {source : String} {form part node : Code} {n : Nat} {u : Store} {inside : Scope}

/-- A parameter that the body of a `#()` form mentions has the value of its argument, or `nil`, wherever nothing has
    come to bind its name since the call opened its scope. -/
theorem run_parameter (hread : form.Within (Document.read number source : Document Value).root)
    (hpart : part ∈ form.children) (hopen : node.Open part) (hk : node.kind = .paramName) (hn : 1 ≤ n)
    (hbound : n < 2 ^ 64) (hname : Names n node.text) (before : Store) (scope : Scope) (args : List Value)
    (hafter : (before.openLambda form scope args).2.After u)
    (hseen : (before.openLambda form scope args).2.UnshadowedSince u (before.openLambda form scope args).1 node.text
      inside) (host : Host) (levels : Nat) :
    run host (levels + 1) (.evaluate node inside) u = .ok (args.getD (n - 1) .nil) u := by
  have hle : n ≤ maxParams form.children := by
    rw [← position_of_names hname hbound]
    exact (Document.isLargestPosition_maxParams hread).1 part hpart node hopen hk
  have hcount : n ≤ max args.length (maxParams form.children) := Nat.le_trans hle (Nat.le_max_right _ _)
  obtain ⟨var, hvar, hlt, hheld⟩ := before.exists_bindings_openCall scope (mem_parameters_of_names hname hn hcount args)
  have hget : u.get inside node.text = .ok (args.getD (n - 1) .nil) :=
    (hafter.get_of_unshadowed hvar hlt hseen).trans (congrArg Except.ok hheld)
  exact run_paramName hk hget host levels

/-- If only tidy code has run since the call, the parameter has that value in all scopes inside that of the call, up to
    the scope of the next call of a `#()` function. -/
theorem run_parameter_of_tidy (hread : form.Within (Document.read number source : Document Value).root)
    (hpart : part ∈ form.children) (hopen : node.Open part) (hk : node.kind = .paramName) (hn : 1 ≤ n)
    (hbound : n < 2 ^ 64) (hname : Names n node.text) {before : Store} (hbefore : before.Holds Value.Tidy)
    (scope : Scope) {args : List Value} (hargs : ∀ arg ∈ args, arg.Tidy)
    (hafter : (before.openLambda form scope args).2.AfterTidy u) {nearer farther : List Scope}
    (hway : inside :: u.outer inside = nearer ++ (before.openLambda form scope args).1 :: farther)
    (hnearer : ∀ frame ∈ nearer,
      (before.openLambda form scope args).2.frames.size ≤ frame ∧ "%" ∉ u.localNames frame)
    (host : Host) (levels : Nat) :
    run host (levels + 1) (.evaluate node inside) u = .ok (args.getD (n - 1) .nil) u := by
  have hopened : (before.openLambda form scope args).2.Holds Value.Tidy :=
    Store.openCall_of_define Value.Tidy.hereditary (hbefore.of_eq rfl) hargs
      (fun ht hv inner name => ht.define inner name hv .empty) _
  have hinner : (before.openLambda form scope args).1 < (before.openLambda form scope args).2.frames.size :=
    (Store.Extends.install _ _ _).lt_frames (before.lt_size_newChild scope)
  have hnumbered := (hafter.numberedSince hopened).2
  exact run_parameter hread hpart hopen hk hn hbound hname before scope args hafter.after
    (hnumbered.unshadowed (isNumbered_of_names hname) hinner hway hnearer) host levels

end Parameter

/-- A `#()` form that was read evaluates to a function of as many parameters as its body mentions. A call opens a scope
    with that many parameters, or with as many as there are arguments, finds the head where the form stands and applies
    it in that scope. From then on a parameter that the body mentions has the value of the argument in its position, or
    `nil`, wherever nothing has come to bind its name in between. No symbol that was read could bind it. -/
theorem run_lambda {number : Nat} {source : String} {form : Code}
    (hread : form.Within (Document.read number source : Document Value).root) (hkind : form.kind = .lambda)
    (hparts : form.children ≠ []) (scope : Scope) :
    IsLargestPosition form.children (maxParams form.children) ∧
    (∀ s : Store, ∃ head parts t, s.expandAll scope form.children = (head :: parts, t) ∧
      (∀ (host : Host) (levels : Nat), run host (levels + 1) (.evaluate form scope) s =
        .ok (t.newFunction (.procedure (.anonymous form head parts (maxParams form.children) scope))).1
          (t.newFunction (.procedure (.anonymous form head parts (maxParams form.children) scope))).2) ∧
      ∀ (args : List Value) (before : Store) (host : Host) (levels : Nat),
        run host (levels + 1) (.call (.anonymous form head parts (maxParams form.children) scope) args) before =
          through form (do
            let f ← run host levels (.evaluate head scope)
            applyToForms host (run host levels) form f (before.openLambda form scope args).1 parts)
          (before.openLambda form scope args).2) ∧
    (∀ (args : List Value) (before : Store),
      before.Opens scope (max args.length (maxParams form.children)) args (before.openLambda form scope args) ∧
      ∀ part ∈ form.children, ∀ node : Code, node.Open part → node.kind = .paramName →
      ∀ n, 1 ≤ n → n < 2 ^ 64 → Names n node.text →
      ∀ (u : Store) (inside : Scope), (before.openLambda form scope args).2.After u →
      (before.openLambda form scope args).2.UnshadowedSince u (before.openLambda form scope args).1 node.text inside →
      ∀ (host : Host) (levels : Nat),
        run host (levels + 1) (.evaluate node inside) u = .ok (args.getD (n - 1) .nil) u) ∧
    ∀ (number : Nat) (source : String) (symbol : Code),
      symbol.Within (Document.read number source : Document Value).root → symbol.kind = .symbol →
      ∀ n, ¬Names n symbol.text := by
  have hlargest := Document.isLargestPosition_maxParams hread
  refine ⟨hlargest, fun s => ?_, fun args before => ⟨before.opens_openCall scope _ args, ?_⟩, ?_⟩
  · obtain ⟨first, rest, hchildren⟩ := List.exists_cons_of_ne_nil hparts
    have hexpand : s.expandAll scope form.children =
        ((s.expand scope first).1 :: ((s.expand scope first).2.expandAll scope rest).1,
          ((s.expand scope first).2.expandAll scope rest).2) := by
      rw [hchildren]
      rfl
    refine ⟨_, _, _, hexpand, fun host levels => ?_, fun args before host levels => ?_⟩
    · refine run_evaluate_ok (by simp [hkind]) (by simp [hkind]) ?_
      have hparts : expandAll scope form.children s = .ok _ _ :=
        congrArg (fun p : List Code × Store => Result.ok p.1 p.2) hexpand
      simp only [evalForm, hkind]
      rw [evalLambda, bind_ok hparts]
      rfl
    · rw [run_call_anonymous, Nat.max_comm, Store.openLambda]
  · intro part hpart node hopen hk n hn hbound hname u inside hafter hseen
    exact run_parameter hread hpart hopen hk hn hbound hname before scope args hafter hseen
  · intro number source symbol hwithin hsymbol n hname
    have hnumbered := isNumbered_of_names hname
    rw [Document.isNumbered_symbol hwithin hsymbol] at hnumbered
    cases hnumbered

theorem getD_mem {forms : List Code} {n : Nat} (h : n < forms.length) : forms.getD n default ∈ forms := by
  rw [List.getD_eq_getElem?_getD, List.getElem?_eq_getElem h, Option.getD_some]
  exact List.getElem_mem h

/-- A `#()` form that mentions its first parameter, and its third one in the body of a closure. -/
def skippingLambda : Code := sourceForm "#(core/str % (fn [] %3))"

/-- The closure, as it is written there. -/
def skippingFn : Code := skippingLambda.children.getD 2 default

/-- The third parameter, as it is written there. -/
def thirdParameter : Code := skippingFn.children.getD 2 default

/-- The scope of a call of the function on one argument, and the store with it. -/
def openedSkipping : Scope × Store := freshCommand.2.openLambda skippingLambda freshCommand.1.scope [.int 7]

/-- The store after a call of the closure, whose scope is the newest one. -/
def enteredSkipping : Store :=
  (run Command.host 12 (.call (.closure none [] thirdParameter openedSkipping.1) [])).left openedSkipping.2

/-- In the scope of the closure, the parameter that is written there is `nil`. -/
theorem run_lambda_skipping :
    skippingLambda.Within (Document.read 0 "#(core/str % (fn [] %3))" : Document Value).root ∧
    skippingLambda.kind = .lambda ∧ maxParams skippingLambda.children = 3 ∧ thirdParameter.text = "%3" ∧
    enteredSkipping.outer openedSkipping.2.frames.size = openedSkipping.1 :: openedSkipping.2.outer openedSkipping.1 ∧
    ∀ (host : Host) (levels : Nat),
      run host (levels + 1) (.evaluate thirdParameter openedSkipping.2.frames.size) enteredSkipping =
        .ok .nil enteredSkipping := by
  have hcheck : (Document.read 0 "#(core/str % (fn [] %3))" : Document Value).root.children.isEmpty = false ∧
      skippingLambda.kind = .lambda ∧ skippingLambda.children.length = 3 ∧ maxParams skippingLambda.children = 3 ∧
      skippingFn.kind = .list ∧ skippingFn.children.length = 3 ∧ thirdParameter.kind = .paramName ∧
      thirdParameter.text = "%3" ∧ enteredSkipping.events.length = openedSkipping.2.events.length ∧
      enteredSkipping.outer openedSkipping.2.frames.size =
        openedSkipping.1 :: openedSkipping.2.outer openedSkipping.1 := by
    decide +kernel
  obtain ⟨hroot, hkind, hlength, hmax, hlist, hclosure, hname, htext, hevents, houter⟩ := hcheck
  have hwithin : skippingLambda.Within _ := within_sourceForm (List.isEmpty_eq_false_iff.mp hroot)
  have hparts : skippingLambda.children ≠ [] := by
    intro h
    simp [h] at hlength
  have hpart : skippingFn ∈ skippingLambda.children := getD_mem (by omega)
  have hopen : thirdParameter.Open skippingFn := .part (by simp [hlist]) (getD_mem (by omega)) (.refl _)
  -- nothing was bound since the call was opened
  have hnot : ∀ frame, ¬openedSkipping.2.BoundSince enteredSkipping frame thirdParameter.text := by
    rintro frame ⟨news, var, hnews, hmem⟩
    rw [hnews, List.length_append] at hevents
    have hnews : news = [] := List.length_eq_zero_iff.mp (by omega)
    rw [hnews] at hmem
    cases hmem
  have hseen : openedSkipping.2.UnshadowedSince enteredSkipping openedSkipping.1 thirdParameter.text
      openedSkipping.2.frames.size :=
    ⟨[openedSkipping.2.frames.size], openedSkipping.2.outer openedSkipping.1, by rw [houter]; rfl, by simp,
      fun frame _ => hnot frame⟩
  have hnames : Names 3 thirdParameter.text := .inl htext
  obtain ⟨-, -, hcalls, -⟩ := run_lambda hwithin hkind hparts freshCommand.1.scope
  exact ⟨hwithin, hkind, hmax, htext, houter, (hcalls [.int 7] freshCommand.2).2 _ hpart _ hopen hname 3 (by decide)
    (by decide) hnames _ _ (.ended (.refl) _ _ _) hseen⟩

/-- A call of what a `#()` function gives, which has its first parameter for the body of a closure of that name: the
    member form is a `let` form, and the sequence that stands for the body of this is an `fn` form. -/
def capturingCall : Code := sourceForm "((#(let [. let do fn] (.%1 [] [] %1)) 7))"

/-- The `#()` form. -/
def capturingLambda : Code := (capturingCall.children.getD 0 default).children.getD 0 default

/-- The member form in its body. -/
def capturingMember : Code := capturingLambda.children.tail.getD 1 default

/-- The parameter, as it is written there. -/
def capturedParameter : Code := capturingMember.children.getD 3 default

/-- The store after all, with the scope of the call of the `#()` function first and that of the closure last. -/
def capturedStore : Store := (run Command.host 20 (.evaluate capturingCall freshCommand.1.scope)).left freshCommand.2

/-- The scope of the call of the `#()` function. -/
def capturingScope : Scope := freshCommand.2.frames.size

/-- The scope of the call of the closure. -/
def capturedScope : Scope := capturedStore.frames.size - 1

/-- The parameter is bound to 7, but does not mean that where it is evaluated. -/
theorem not_positional_capturedParameter :
    capturingLambda.Within (Document.read 0 "((#(let [. let do fn] (.%1 [] [] %1)) 7))" : Document Value).root ∧
    capturingLambda.kind = .lambda ∧ capturingMember ∈ capturingLambda.children.tail ∧
    capturedParameter.Open capturingMember ∧ capturedParameter.kind = .paramName ∧ Names 1 capturedParameter.text ∧
    capturingScope ∈ capturedStore.outer capturedScope ∧
    printed (run Command.host 1 (.evaluate capturedParameter capturingScope) capturedStore) = some "7" ∧
    printed (run Command.host 1 (.evaluate capturedParameter capturedScope) capturedStore) = some "#<fn %1>" ∧
    printed (run Command.host 20 (.evaluate capturingCall freshCommand.1.scope) freshCommand.2) = some "#<fn %1>" := by
  have hcheck : (Document.read 0 "((#(let [. let do fn] (.%1 [] [] %1)) 7))" : Document Value).root.children.isEmpty =
        false ∧
      capturingCall.children.length = 1 ∧ (capturingCall.children.getD 0 default).children.length = 2 ∧
      capturingLambda.kind = .lambda ∧ capturingLambda.children.tail.length = 2 ∧ capturingMember.kind = .list ∧
      capturingMember.children.length = 4 ∧ capturedParameter.kind = .paramName ∧ capturedParameter.text = "%1" := by
    decide +kernel
  obtain ⟨hroot, hcall, hlambda, hkind, hbody, hlist, hmember, hname, htext⟩ := hcheck
  have hwithin : capturingCall.Within _ := within_sourceForm (List.isEmpty_eq_false_iff.mp hroot)
  have hpart : (capturingCall.children.getD 0 default).Within capturingCall := .of_mem (getD_mem (by omega))
  have hinner : capturingLambda.Within (capturingCall.children.getD 0 default) := .of_mem (getD_mem (by omega))
  have hopen : capturedParameter.Open capturingMember := .part (by simp [hlist]) (getD_mem (by omega)) (.refl _)
  have hrun : capturingScope ∈ capturedStore.outer capturedScope ∧
      printed (run Command.host 1 (.evaluate capturedParameter capturingScope) capturedStore) = some "7" ∧
      printed (run Command.host 1 (.evaluate capturedParameter capturedScope) capturedStore) = some "#<fn %1>" ∧
      printed (run Command.host 20 (.evaluate capturingCall freshCommand.1.scope) freshCommand.2) =
        some "#<fn %1>" := by
    decide +kernel
  exact ⟨hinner.trans (hpart.trans hwithin), hkind, getD_mem (by omega), hopen, hname, .inl htext, hrun⟩

end Eval

end Lisplet
