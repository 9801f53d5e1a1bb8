import Lisplet.Proofs.Literal
import Lisplet.Proofs.Printed
import Lisplet.Proofs.Source

/-! # Data evaluates to itself

The text that a value of plain data is printed as can be read without errors, and evaluating what was read gives the
value back. A scope that has the special forms, the plain functions and the literals of the language is enough for
this. What a form of data denotes depends on its shape only, so a value is matched with a form that is printed like
it, and the shape of that form is the shape that reading finds. -/

namespace Lisplet

/-! ### Plain data -/

/-- Whether a key is written so that it can be read again. -/
def Key.isReadable : Key → Bool
  | .keyword name => isKeywordName name
  | .string _ => true

/-- A value of plain data: sets have no equal items, and maps have increasing keys. -/
inductive Value.IsData : Value → Prop
  | nil : IsData .nil
  | bool (b : Bool) : IsData (.bool b)
  | int (n : Int64) : IsData (.int n)
  | string (text : String) : IsData (.string text)
  | keyword {name : String} (hname : isKeywordName name = true) : IsData (.keyword name)
  | vector {items : List Value} (hitems : ∀ item ∈ items, IsData item) : IsData (.vector items)
  | set {items : List Value} (hitems : ∀ item ∈ items, IsData item)
      (hdistinct : items.Pairwise fun a b => a.equals b = false) : IsData (.set items)
  | map {entries : List (Key × Value)} (hkeys : ∀ entry ∈ entries, entry.1.isReadable = true)
      (hvalues : ∀ entry ∈ entries, IsData entry.2)
      (hincreasing : entries.Pairwise fun a b => compare a.1 b.1 = .lt) : IsData (.map entries)

theorem Key.print_toValue (key : Key) : key.toValue.print = key.print := by
  cases key <;> simp [toValue, Value.print, print]

theorem Key.asKey_toValue (key : Key) : key.toValue.asKey = .ok key := by
  cases key <;> rfl

/-! ### Building sets and maps anew -/

namespace Value

theorem distinctOnto_of_pairwise {items : List Value} (kept : List Value)
    (h : (kept ++ items).Pairwise fun a b => a.equals b = false) : distinctOnto kept items = kept ++ items := by
  induction items generalizing kept with
  | nil => simp [distinctOnto]
  | cons item items ih =>
    have hnew : contains kept item = false := by
      simp only [contains, List.any_eq_false, Bool.not_eq_true]
      intro old hold
      exact (List.pairwise_append.mp h).2.2 old hold item (by simp)
    have hrest : (kept ++ [item] ++ items).Pairwise fun a b => a.equals b = false := by simpa using h
    rw [distinctOnto, hnew, if_neg (by decide), ih _ hrest]
    simp

theorem ofItems_of_pairwise {items : List Value} (h : items.Pairwise fun a b => a.equals b = false) :
    ofItems items = .set items := by
  rw [ofItems, distinctOnto_of_pairwise [] (by simpa using h), List.nil_append]

end Value

/-- Keys and values in turn, as a map is written. -/
def Value.flatten (entries : List (Key × Value)) : List Value :=
  entries.flatMap fun entry => [entry.1.toValue, entry.2]

theorem Key.compare_eq_gt {a b : Key} (h : compare a b = .lt) : compare b a = .gt := by
  cases a with
  | keyword a =>
    cases b with
    | keyword b => exact show compare b a = .gt from Std.OrientedCmp.gt_of_lt (show compare a b = .lt from h)
    | string b => rfl
  | string a =>
    cases b with
    | keyword b => cases h
    | string b => exact show compare b a = .gt from Std.OrientedCmp.gt_of_lt (show compare a b = .lt from h)

theorem Entries.insert_of_forall_lt {entries : Entries Key Value} {key : Key} (value : Value)
    (h : ∀ entry ∈ entries, compare entry.1 key = .lt) : entries.insert key value = entries ++ [(key, value)] := by
  induction entries with
  | nil => rfl
  | cons entry rest ih =>
    rw [Entries.insert, Key.compare_eq_gt (h entry (by simp)), ih fun e he => h e (List.mem_cons_of_mem _ he)]
    rfl

theorem Eval.mapEntries_flatten {entries : List (Key × Value)} (done : Entries Key Value)
    (h : (done ++ entries).Pairwise fun a b => compare a.1 b.1 = .lt) :
    mapEntries done (Value.flatten entries) = .ok (done ++ entries) := by
  induction entries generalizing done with
  | nil => simp [Value.flatten, mapEntries]
  | cons entry entries ih =>
    have hlast : ∀ e ∈ done, compare e.1 entry.1 = .lt :=
      fun e he => (List.pairwise_append.mp h).2.2 e he entry (by simp)
    have hrest : (done ++ [entry] ++ entries).Pairwise fun a b => compare a.1 b.1 = .lt := by simpa using h
    have hflat : Value.flatten (entry :: entries) = entry.1.toValue :: entry.2 :: Value.flatten entries := rfl
    rw [hflat, mapEntries, Key.asKey_toValue]
    simp only [Entries.insert_of_forall_lt entry.2 hlast, ih _ hrest, List.append_assoc, List.singleton_append]

theorem joinTexts_cons_cons (separator a b : String) (rest : List String) :
    joinTexts separator (a :: b :: rest) = a ++ separator ++ joinTexts separator (b :: rest) := rfl

/-- The text between the braces of a map is that of its keys and values in turn. -/
theorem Value.join_printEntries (entries : List (Key × Value)) :
    joinTexts " " (printEntries entries) = joinTexts " " (printAll (flatten entries)) := by
  induction entries with
  | nil => simp [printEntries, flatten, printAll]
  | cons entry rest ih =>
    have hflat : flatten (entry :: rest) = entry.1.toValue :: entry.2 :: flatten rest := rfl
    cases rest with
    | nil =>
      simp [printEntries, printAll, flatten, joinTexts, Key.print_toValue]
    | cons next rest =>
      have hnext : flatten (next :: rest) = next.1.toValue :: next.2 :: flatten rest := rfl
      rw [hnext, printAll] at ih
      rw [hflat, hnext, printAll, printAll, printAll, joinTexts_cons_cons, joinTexts_cons_cons, ← ih, printEntries,
        printEntries, joinTexts_cons_cons, Key.print_toValue]
      simp [String.append_assoc]

/-! ### Evaluation of words and groups -/

/-- The special forms that data and documents stand for calls of. -/
def Special.ofData : List Special := [.sequence, .keyword, .map]

/-- The plain functions that data stands for calls of. -/
def Builtin.ofData : List Builtin := [.vec, .set]

/-- A scope in which everything that data is written with has its own name. -/
structure Store.Standard (s : Store) (scope : Scope) : Prop where
  special : ∀ form ∈ Special.ofData, ∃ n, s.get scope form.name = .ok (.function n (.special form))
  builtin : ∀ f ∈ Builtin.ofData, ∃ n, s.get scope f.name = .ok (.function n (.procedure (.builtin f)))
  literal : ∀ entry ∈ literalValues, s.get scope entry.1 = .ok entry.2

/-- The kinds of forms of data, and of documents, that stand for a call. -/
def FormKind.isSugar : FormKind → Bool
  | keyword | vector | set | map | document => true
  | _ => false

namespace Eval

variable {α β : Type} {host : Host} {go : Task → Eval Value} {form : Code} {scope : Scope} {s s' : Store} {v : Value}

/-- A form that stands for a call has the value of the call. -/
theorem run_evaluate_sugar {levels : Nat} (hk : form.kind.isSugar = true)
    (h : evalSugar host (run host levels) form scope s = .ok v s') :
    run host (levels + 1) (.evaluate form scope) s = .ok v s' := by
  have hform : evalForm host (run host levels) form scope = evalSugar host (run host levels) form scope := by
    unfold evalForm
    generalize form.kind = kind at hk
    cases kind with
    | keyword | vector | set | map | document => rfl
    | _ => cases hk
  refine run_evaluate_ok ?_ ?_ (hform ▸ h)
  · intro hq
    rw [hq] at hk
    cases hk
  · intro hl
    rw [hl] at hk
    cases hk

theorem evalSugar_special {special : Special} {n : Nat} (hk : form.kind.sugarTarget? = some special.name)
    (hf : s.get scope special.name = .ok (.function n (.special special)))
    (hi : go (.invoke special form scope) s = .ok v s') : evalSugar host go form scope s = .ok v s' := by
  simp only [evalSugar, hk]
  rw [bind_ok (lookup_ok hf)]
  exact mapError_ok hi

theorem evalSugar_builtin {function : Builtin} {n : Nat} {values : List Value}
    (hk : form.kind.sugarTarget? = some function.name)
    (hf : s.get scope function.name = .ok (.function n (.procedure (.builtin function))))
    (ha : evaluateAll go scope form.children s = .ok values s)
    (hc : go (.call (.builtin function) values) s = .ok v s') : evalSugar host go form scope s = .ok v s' := by
  simp only [evalSugar, hk]
  rw [bind_ok (lookup_ok hf)]
  refine mapError_ok ?_
  show (evaluateAll go scope form.children >>= fun values => go (.call (.builtin function) values)) s = .ok v s'
  rw [bind_ok ha, hc]

end Eval

/-! ### What shapes denote -/

/-- With so many levels, every form of this shape evaluates to `v` in every standard scope and changes nothing. -/
def Shape.Denotes (shape : Shape) (levels : Nat) (v : Value) : Prop :=
  ∀ (form : Code) (host : Host) (s : Store) (scope : Scope) (n : Nat), form.shape = shape → s.Standard scope →
    levels ≤ n → Eval.run host n (.evaluate form scope) s = .ok v s

/-- The same of forms that are evaluated from left to right. -/
def Shape.DenoteAll (shapes : List Shape) (levels : Nat) (values : List Value) : Prop :=
  ∀ (forms : List Code) (host : Host) (s : Store) (scope : Scope) (n : Nat), forms.map Form.shape = shapes →
    s.Standard scope → levels ≤ n → Eval.evaluateAll (Eval.run host n) scope forms s = .ok values s

theorem Form.of_shape_eq {α : Type} {form : Form α} {kind : FormKind} {text : Option String} {parts : List Shape}
    (h : form.shape = .node kind text parts) :
    form.kind = kind ∧ (kind.isWord = true → text = some form.text) ∧ form.children.map shape = parts := by
  rw [shape_eq, Shape.node.injEq] at h
  obtain ⟨rfl, rfl, hparts⟩ := h
  exact ⟨rfl, fun hw => by rw [if_pos hw], hparts⟩

namespace Shape

open Eval

variable {shapes : List Shape} {values : List Value} {v : Value} {levels : Nat}

theorem denoteAll_nil : DenoteAll [] 0 [] := by
  intro forms host s scope n hforms _ _
  obtain rfl := List.map_eq_nil_iff.mp hforms
  rfl

theorem denoteAll_cons {shape : Shape} {more : Nat} (h : shape.Denotes levels v) (hs : DenoteAll shapes more values) :
    DenoteAll (shape :: shapes) (max levels more) (v :: values) := by
  intro forms host s scope n hforms hstd hn
  obtain ⟨form, rest, rfl, hform, hrest⟩ := List.map_eq_cons_iff.mp hforms
  show (run host n (.evaluate form scope) >>= fun value =>
    evaluateAll (run host n) scope rest >>= fun values => pure (value :: values)) s = _
  rw [bind_ok (h form host s scope n hform hstd (by omega)), bind_ok (hs rest host s scope n hrest hstd (by omega))]
  rfl

/-- A word whose value does not need a further level. -/
theorem denotes_word {kind : FormKind} {text : String} (hw : kind.isWord = true)
    (h : ∀ (form : Code) (host : Host) (go : Task → Eval Value) (s : Store) (scope : Scope), form.kind = kind →
      form.text = text → s.Standard scope → evalForm host go form scope s = .ok v s) :
    (Shape.node kind (some text) []).Denotes 1 v := by
  intro form host s scope n hshape hstd hn
  obtain ⟨hkind, htext, -⟩ := Form.of_shape_eq hshape
  obtain ⟨m, rfl⟩ := Nat.exists_eq_add_of_le' hn
  refine run_evaluate_ok ?_ ?_ (h form host _ s scope hkind (Option.some.inj (htext hw)).symm hstd)
  · rintro hq
    rw [hkind.symm.trans hq] at hw
    cases hw
  · rintro hl
    rw [hkind.symm.trans hl] at hw
    cases hw

theorem denotes_literal {name : String} (h : (name, v) ∈ literalValues) :
    (Shape.node .symbol (some name) []).Denotes 1 v := by
  refine denotes_word rfl fun form host go s scope hk ht hstd => ?_
  simp only [evalForm, hk, ht]
  exact lookup_ok (hstd.literal _ h)

theorem denotes_int (n : Int64) :
    (Shape.node (if n.toInt < 0 then .negNumber else .number) (some (printInt n)) []).Denotes 1 (.int n) := by
  refine denotes_word (by split <;> rfl) fun form host go s scope hk ht _ => ?_
  have hform : evalForm host go form scope = ofLiteral form ((Literal.number? form.text).map .ofNumber) := by
    unfold evalForm
    split at hk <;> rw [hk]
  rw [hform, ht, number?_printInt]
  rfl

theorem denotes_string (text : String) :
    (Shape.node .string (some (quoteText text)) []).Denotes 1 (.string text) := by
  refine denotes_word rfl fun form host go s scope hk ht _ => ?_
  simp only [evalForm, hk, ht, string?_quoteText]
  rfl

/-- A form that stands for a call of a special form. -/
theorem denotes_special {special : Special} (hm : special ∈ Special.ofData) {kind : FormKind} {text : Option String}
    (hk : kind.isSugar = true) (ht : kind.sugarTarget? = some special.name)
    (h : ∀ (form : Code) (host : Host) (s : Store) (scope : Scope) (n : Nat), form.shape = .node kind text shapes →
      s.Standard scope → levels ≤ n → invoke host (run host n) special form scope s = .ok v s) :
    (Shape.node kind text shapes).Denotes (levels + 2) v := by
  intro form host s scope n hshape hstd hn
  obtain ⟨hkind, -, -⟩ := Form.of_shape_eq hshape
  obtain ⟨m, rfl⟩ := Nat.exists_eq_add_of_le' hn
  obtain ⟨identity, hf⟩ := hstd.special special hm
  rw [← hkind] at hk ht
  -- one level is for the form itself and one for carrying out the special form
  exact run_evaluate_sugar hk (evalSugar_special ht hf (h form host s scope (m + levels) hshape hstd (by omega)))

/-- A form that stands for a call of a plain function. -/
theorem denotes_builtin {function : Builtin} (hm : function ∈ Builtin.ofData) {kind : FormKind}
    (hk : kind.isSugar = true) (ht : kind.sugarTarget? = some function.name) (hs : DenoteAll shapes levels values)
    (h : ∀ (host : Host) (s : Store), callBuiltin host function values s = .ok v s) :
    (Shape.node kind none shapes).Denotes (levels + 2) v := by
  intro form host s scope n hshape hstd hn
  obtain ⟨hkind, -, hparts⟩ := Form.of_shape_eq hshape
  obtain ⟨m, rfl⟩ := Nat.exists_eq_add_of_le' hn
  obtain ⟨identity, hf⟩ := hstd.builtin function hm
  rw [← hkind] at hk ht
  exact run_evaluate_sugar hk
    (evalSugar_builtin ht hf (hs _ host s scope (m + levels + 1) hparts hstd (by omega)) (h host s))

theorem denotes_keyword (name : String) :
    (Shape.node .keyword (some (":" ++ name)) []).Denotes 2 (.keyword name) := by
  refine denotes_special (show Special.keyword ∈ Special.ofData by decide) rfl rfl fun form host s scope n hshape _ _ => ?_
  obtain ⟨hkind, htext, -⟩ := Form.of_shape_eq hshape
  show evalKeyword (run host n) form scope s = _
  rw [evalKeyword, if_pos hkind, ← Option.some.inj (htext rfl), Value.ofKeyword, keywordName_colon]
  rfl

theorem denotes_vector (h : DenoteAll shapes levels values) :
    (Shape.node .vector none shapes).Denotes (levels + 2) (.vector values) :=
  denotes_builtin (show Builtin.vec ∈ Builtin.ofData by decide) rfl rfl h fun _ _ => rfl

theorem denotes_set (h : DenoteAll shapes levels values) (hd : values.Pairwise fun a b => a.equals b = false) :
    (Shape.node .set none shapes).Denotes (levels + 2) (.set values) := by
  refine denotes_builtin (show Builtin.set ∈ Builtin.ofData by decide) rfl rfl h fun host s => ?_
  rw [← Value.ofItems_of_pairwise hd]
  rfl

theorem denotes_map {entries : List (Key × Value)} (h : DenoteAll shapes levels (Value.flatten entries))
    (hi : entries.Pairwise fun a b => compare a.1 b.1 = .lt) (hl : shapes.length % 2 = 0) :
    (Shape.node .map none shapes).Denotes (levels + 2) (.map entries) := by
  refine denotes_special (show Special.map ∈ Special.ofData by decide) rfl rfl fun form host s scope n hshape hstd hn => ?_
  obtain ⟨hkind, -, hparts⟩ := Form.of_shape_eq hshape
  have hargs : form.arguments = form.children := by simp only [Form.arguments, hkind]
  have heven : form.children.length % 2 = 0 := by rw [← hl, ← hparts, List.length_map]
  show evalMap (run host n) form scope s = _
  rw [evalMap, hargs, if_pos heven, bind_ok (h _ host s scope n hparts hstd hn),
    Eval.mapEntries_flatten [] (by simpa using hi)]
  rfl

theorem denotes_document {shape : Shape} (h : shape.Denotes levels v) :
    (Shape.node .document none [shape]).Denotes (levels + 2) v := by
  have hall := denoteAll_cons h denoteAll_nil
  refine denotes_special (show Special.sequence ∈ Special.ofData by decide) rfl rfl fun form host s scope n hshape hstd hn => ?_
  obtain ⟨hkind, -, hparts⟩ := Form.of_shape_eq hshape
  have hargs : form.arguments = form.children := by simp only [Form.arguments, hkind]
  show evalDo (run host n) form scope s = _
  rw [evalDo, hargs, bind_ok (hall _ host s scope n hparts hstd (by omega))]
  rfl

end Shape

/-! ### Forms that are printed like data -/

/-- A form that is printed like `v`, can be read again, and denotes `v`. -/
def Value.HasForm (v : Value) : Prop :=
  ∃ form : Code, form.all Form.isWritten = true ∧ form.print = v.print ∧ ∃ levels, form.shape.Denotes levels v

namespace Value

variable {v : Value} {kind : FormKind}

theorem hasForm_word {tree : TreeKind} {text : String} {levels : Nat} (hl : kind.lexeme? = some (.leaf tree))
    (ha : Lexeme.isAtom tree text.toList = true) (hp : v.print = text)
    (hd : (Shape.node kind (some text) []).Denotes levels v) : v.HasForm := by
  have hword : kind.isWord = true := FormKind.isWord_iff.mpr ⟨tree, hl⟩
  refine ⟨⟨.read 0 [], kind, [], none, .withText text⟩, ?_, ?_, levels, ?_⟩
  · refine Form.all_iff.mpr ⟨?_, by simp⟩
    simp only [Form.isWritten, hl]
    exact ha
  · rw [hp]
    exact Form.print_of_isWord hword
  · rw [Form.shape_eq]
    simp only [hword, if_true]
    exact hd

theorem exists_forms {items : List Value} (h : ∀ item ∈ items, item.HasForm) :
    ∃ (forms : List Code) (levels : Nat), (∀ form ∈ forms, form.all Form.isWritten = true) ∧
      Form.printAll forms = printAll items ∧ forms.length = items.length ∧
      Shape.DenoteAll (forms.map Form.shape) levels items := by
  induction items with
  | nil => exact ⟨[], 0, by simp, by simp [Form.printAll, printAll], rfl, Shape.denoteAll_nil⟩
  | cons item items ih =>
    obtain ⟨form, hw, hp, n, hd⟩ := h item (by simp)
    obtain ⟨forms, m, hws, hps, hlen, hds⟩ := ih fun other ho => h other (List.mem_cons_of_mem _ ho)
    refine ⟨form :: forms, max n m, ?_, ?_, ?_, Shape.denoteAll_cons hd hds⟩
    · simpa using ⟨hw, hws⟩
    · rw [Form.printAll, printAll, hp, hps]
    · rw [List.length_cons, List.length_cons, hlen]

theorem hasForm_group {tree : TreeKind} {closer : Bracket} {before after : String} {items : List Value}
    (hl : kind.lexeme? = some (.opening tree closer)) (hf : kind.frame? = some (before, after))
    (hp : v.print = before ++ joinTexts " " (printAll items) ++ after) (hitems : ∀ item ∈ items, item.HasForm)
    (hd : ∀ shapes levels, shapes.length = items.length → Shape.DenoteAll shapes levels items →
      (Shape.node kind none shapes).Denotes (levels + 2) v) : v.HasForm := by
  obtain ⟨forms, levels, hw, hprint, hlen, hds⟩ := exists_forms hitems
  refine ⟨⟨.read 0 [], kind, forms, none, .empty⟩, ?_, ?_, levels + 2, ?_⟩
  · refine Form.all_iff.mpr ⟨?_, hw⟩
    simp only [Form.isWritten, hl]
  · rw [hp, ← hprint]
    exact Form.print_of_frame? hf
  · rw [Form.shape_eq]
    simp only [FormKind.isWord_of_opening hl, Bool.false_eq_true, if_false]
    exact hd _ levels (by rw [List.length_map, hlen]) hds

theorem hasForm_literal (name : String) (h : (name, v) ∈ literalValues) : v.HasForm := by
  have hword : v.print = name ∧ Lexeme.isAtom .symbol name.toList = true := by
    simp only [literalValues, List.mem_cons, Prod.mk.injEq, List.not_mem_nil, or_false] at h
    rcases h with ⟨rfl, rfl⟩ | ⟨rfl, rfl⟩ | ⟨rfl, rfl⟩ <;> exact ⟨by simp [print], by decide⟩
  exact hasForm_word (show FormKind.symbol.lexeme? = _ from rfl) hword.2 hword.1 (Shape.denotes_literal h)

theorem hasForm_int (n : Int64) : (int n).HasForm := by
  have hl : (if n.toInt < 0 then FormKind.negNumber else .number).lexeme? =
      some (.leaf (if n.toInt < 0 then .negNumber else .number)) := by
    split <;> rfl
  exact hasForm_word hl (isAtom_printInt n) (by rw [print]) (Shape.denotes_int n)

theorem hasForm_string (text : String) : (string text).HasForm := by
  have ha : Lexeme.isAtom .string (quoteText text).toList = true := by
    rw [quoteText, String.toList_ofList]
    exact Quoted.isAtom_encode text.toList
  exact hasForm_word rfl ha (by rw [print]) (Shape.denotes_string text)

theorem hasForm_keyword {name : String} (h : isKeywordName name = true) : (keyword name).HasForm :=
  hasForm_word rfl (isAtom_keyword h) (by rw [print]) (Shape.denotes_keyword name)

theorem hasForm_key {key : Key} (h : key.isReadable = true) : key.toValue.HasForm := by
  cases key with
  | keyword name => exact hasForm_keyword h
  | string text => exact hasForm_string text

theorem length_flatten (entries : List (Key × Value)) : (flatten entries).length = 2 * entries.length := by
  simp only [flatten, List.length_flatMap, List.length_cons, List.length_nil, List.map_const', List.sum_replicate_nat]
  omega

/-- Every value of plain data is printed like a form that denotes it. -/
theorem IsData.hasForm (h : v.IsData) : v.HasForm := by
  induction h with
  | nil => exact hasForm_literal "nil" (by simp [literalValues])
  | bool b =>
    cases b
    · exact hasForm_literal "false" (by simp [literalValues])
    · exact hasForm_literal "true" (by simp [literalValues])
  | int n => exact hasForm_int n
  | string text => exact hasForm_string text
  | keyword hname => exact hasForm_keyword hname
  | vector _ ih => exact hasForm_group rfl rfl (by rw [print]) ih fun _ _ _ hd => Shape.denotes_vector hd
  | set _ hdistinct ih =>
    exact hasForm_group rfl rfl (by rw [print]) ih fun _ _ _ hd => Shape.denotes_set hd hdistinct
  | @map entries hkeys _ hincreasing ih =>
    have hitems : ∀ item ∈ flatten entries, item.HasForm := by
      intro item hitem
      obtain ⟨entry, hentry, hmem⟩ := List.mem_flatMap.mp hitem
      simp only [List.mem_cons, List.not_mem_nil, or_false] at hmem
      rcases hmem with rfl | rfl
      · exact hasForm_key (hkeys entry hentry)
      · exact ih entry hentry
    refine hasForm_group rfl rfl (by rw [print, join_printEntries]) hitems fun shapes _ hlen hd =>
      Shape.denotes_map hd hincreasing ?_
    rw [hlen, length_flatten, Nat.mul_mod_right]

end Value

/-! ### Evaluating the text of data -/

namespace Value

/-- The special form that a value is. -/
def special? : Value → Option Special
  | function _ (.special special) => some special
  | _ => none

/-- The plain function that a value is. -/
def builtin? : Value → Option Builtin
  | function _ (.procedure (.builtin builtin)) => some builtin
  | _ => none

/-- The literal that a value is: `nil`, or a truth value. -/
def literal? : Value → Option (Option Bool)
  | nil => some none
  | bool b => some (some b)
  | _ => none

theorem exists_of_special? {v : Value} {special : Special} (h : v.special? = some special) :
    ∃ n, v = function n (.special special) := by
  unfold special? at h
  split at h
  · exact ⟨_, by rw [Option.some.inj h]⟩
  · cases h

theorem exists_of_builtin? {v : Value} {builtin : Builtin} (h : v.builtin? = some builtin) :
    ∃ n, v = function n (.procedure (.builtin builtin)) := by
  unfold builtin? at h
  split at h
  · exact ⟨_, by rw [Option.some.inj h]⟩
  · cases h

theorem exists_literal {entry : String × Value} (h : entry ∈ literalValues) : ∃ literal, entry.2.literal? = some literal := by
  simp only [literalValues, List.mem_cons, List.not_mem_nil, or_false] at h
  rcases h with rfl | rfl | rfl <;> exact ⟨_, rfl⟩

theorem eq_of_literal? {v : Value} {literal : Option Bool} (h : v.literal? = some literal) :
    v = literal.elim nil bool := by
  unfold literal? at h
  split at h
  · obtain rfl := Option.some.inj h
    rfl
  · obtain rfl := Option.some.inj h
    rfl
  · cases h

end Value

namespace Store

/-- What a name stands for in a fresh root scope. -/
def inBase (name : String) : Option Value :=
  let base := Store.empty.newBase Library.empty
  (base.2.get base.1 name).toOption

theorem names_inBase :
    (∀ form ∈ Special.ofData, (inBase form.name).bind Value.special? = some form) ∧
    (∀ f ∈ Builtin.ofData, (inBase f.name).bind Value.builtin? = some f) ∧
    ∀ entry ∈ literalValues, (inBase entry.1).bind Value.literal? = entry.2.literal? := by
  decide +kernel

theorem get_of_inBase {name : String} {v : Value} (h : inBase name = some v) :
    (Store.empty.newBase Library.empty).2.get (Store.empty.newBase Library.empty).1 name = .ok v := by
  have hread : ∀ read : Except Cause Value, read.toOption = some v → read = .ok v := by
    intro read hr
    cases read with
    | ok u => rw [Option.some.inj hr]
    | error cause => cases hr
  exact hread _ h

theorem standard_newBase :
    (Store.empty.newBase Library.empty).2.Standard (Store.empty.newBase Library.empty).1 where
  special form hform := by
    obtain ⟨v, hv, h⟩ := Option.bind_eq_some_iff.mp (names_inBase.1 form hform)
    obtain ⟨n, rfl⟩ := Value.exists_of_special? h
    exact ⟨n, get_of_inBase hv⟩
  builtin f hf := by
    obtain ⟨v, hv, h⟩ := Option.bind_eq_some_iff.mp (names_inBase.2.1 f hf)
    obtain ⟨n, rfl⟩ := Value.exists_of_builtin? h
    exact ⟨n, get_of_inBase hv⟩
  literal entry hentry := by
    obtain ⟨literal, hl⟩ := Value.exists_literal hentry
    obtain ⟨v, hv, h⟩ := Option.bind_eq_some_iff.mp ((names_inBase.2.2 entry hentry).trans hl)
    rw [get_of_inBase hv, Value.eq_of_literal? h, ← Value.eq_of_literal? hl]

end Store

namespace Interpreter

variable {v : Value}

/-- What a source without errors denotes is its value in every standard scope. -/
theorem evalSource_of_denotes {i : Interpreter} {s : Store} {source : String} {depth : Nat}
    (hstd : s.Standard i.scope) (herrors : (Document.read s.documents source : Document Value).errors = [])
    (hroot : (Document.read s.documents source : Document Value).root.shape.Denotes depth v) (hl : depth ≤ i.levels) :
    evalSource i source s = .ok v { s with documents := s.documents + 1 } := by
  have hstd' : { s with documents := s.documents + 1 }.Standard i.scope := ⟨hstd.special, hstd.builtin, hstd.literal⟩
  rw [evalSource_of_errors_eq_nil i herrors]
  exact hroot _ i.host _ i.scope i.levels rfl hstd' hl

/-- The text of plain data can be read, and in a fresh interpreter it evaluates to the very value, if evaluations may
    go deep enough for it. Nothing else happens. -/
theorem evalSource_print (h : v.IsData) (host : Host) (settings : Settings) :
    (∀ number, (Document.read number v.print : Document Value).errors = []) ∧
      ∃ depth, ∀ levels ≥ depth,
        let fresh := create host settings Library.empty Store.empty
        evalSource { fresh.1 with levels := levels } v.print fresh.2 =
          .ok v { fresh.2 with documents := fresh.2.documents + 1 } := by
  obtain ⟨form, hwritten, hprint, depth, hdenotes⟩ := h.hasForm
  have hread : ∀ number, (Document.read number v.print : Document Value).errors = [] ∧
      (Document.read number v.print : Document Value).root.shape = .node .document none [form.shape] := by
    intro number
    have hparts : ∀ part ∈ [form], part.all Form.isWritten = true := by simpa using hwritten
    simpa [Form.printAll, Form.shapes, joinTexts, hprint] using Document.read_printAll hparts number
  refine ⟨fun number => (hread number).1, depth + 2, fun levels hlevels => ?_⟩
  refine evalSource_of_denotes Store.standard_newBase (hread _).1 ?_ hlevels
  rw [(hread _).2]
  exact Shape.denotes_document hdenotes

/-- Data with the least integer, escapes, a keyword that starts with a colon, and collections within collections. -/
def sampleData : Value :=
  .vector [.nil, .bool true, .int Int64.minValue, .string "a\"\\\n\x07é", .keyword ":a",
    .set [.int 1, .vector [.bool false], .set []],
    .map [(.keyword "b/c", .map []), (.keyword "d", .nil), (.string "", .vector [.string "x y"])]]

theorem isData_sampleData : sampleData.IsData := by
  refine .vector ?_
  simp only [List.forall_mem_cons]
  refine ⟨.nil, .bool _, .int _, .string _, .keyword (by decide), ?_, ?_, by simp⟩
  · refine .set ?_ ?_
    · simp only [List.forall_mem_cons]
      refine ⟨.int _, .vector ?_, .set (by simp) .nil, by simp⟩
      simp only [List.forall_mem_cons]
      exact ⟨.bool _, by simp⟩
    · decide +kernel
  · refine .map ?_ ?_ ?_
    · decide
    · simp only [List.forall_mem_cons]
      refine ⟨.map (by simp) (by simp) .nil, .nil, .vector ?_, by simp⟩
      simp only [List.forall_mem_cons]
      exact ⟨.string _, by simp⟩
    · decide +kernel

theorem evalSource_print_sampleData :
    sampleData.IsData ∧ (∀ number, (Document.read number sampleData.print : Document Value).errors = []) ∧
      ∃ depth, ∀ levels ≥ depth,
        let fresh := create Host.bare {} Library.empty Store.empty
        evalSource { fresh.1 with levels := levels } sampleData.print fresh.2 =
          .ok sampleData { fresh.2 with documents := fresh.2.documents + 1 } :=
  ⟨isData_sampleData, evalSource_print isData_sampleData Host.bare {}⟩

end Interpreter

end Lisplet
