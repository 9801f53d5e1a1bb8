import Lisplet.Proofs.Expanded
import Lisplet.Proofs.InOrder
import Lisplet.Proofs.ListCall
import Lisplet.Proofs.OrderedMaps

/-! # Definitions

`(def ^tag name docstring value)` evaluates docstring, tag and value in this order, and then binds the name to a new
var. If anything fails on the way, nothing is bound: the store is the one that the last evaluation has left. What is
known about the var is what the tag says, and under `:doc` the docstring if the tag says nothing else. -/

namespace Lisplet

open EStateM (Result)

/-! ### What is known by name -/

/-- Metadata without a place and without a source text, of which `find` tells the entries. -/
structure Metadata.Holds (m : Metadata Value) (find : String → Option Value) : Prop where
  start : m.start = none
  stop : m.stop = none
  text : m.text = none
  entries : ∀ name, m.get? name = find name

namespace Metadata.Holds

variable {m other : Metadata Value} {find search : String → Option Value}

theorem empty : (Metadata.empty : Metadata Value).Holds fun _ => none := ⟨rfl, rfl, rfl, fun _ => rfl⟩

theorem insert (h : m.Holds find) (key : String) (v : Value) :
    (m.insert key v).Holds fun name => if name = key then some v else find name where
  start := h.start
  stop := h.stop
  text := h.text
  entries name := by
    show (Entries.insert key v m.entries).get? name = _
    rw [Entries.get?_insert, ← h.entries name]
    rfl

theorem merge (h : m.Holds find) (hother : other.Holds search) (hkeys : Entries.Increasing other.entries) :
    (m.merge other).Holds fun name => (search name).or (find name) where
  start := by rw [Metadata.merge, hother.start, h.start]; rfl
  stop := by rw [Metadata.merge, hother.stop, h.stop]; rfl
  text := by rw [Metadata.merge, hother.text, h.text]; rfl
  entries name := by
    show (Entries.overlay m.entries other.entries).get? name = _
    rw [Entries.get?_overlay, Entries.get?_reverse_of_nodup hkeys.nodup, ← h.entries name, ← hother.entries name]
    rfl

end Metadata.Holds

/-! ### What a tag says -/

/-- The name of the keyword that is written `name`. -/
def keywordName? (name : String) : Option String :=
  match name.toList with
  | ':' :: rest => some (String.ofList rest)
  | _ => none

/-- What a tag says under a name: what a map has under it as a string, or else as a keyword. -/
def Value.says? (tag : Value) (name : String) : Option Value :=
  match tag with
  | map entries => (Entries.get? entries (.string name)).or
      ((keywordName? name).bind fun keyword => Entries.get? entries (.keyword keyword))
  | _ => none

/-- Whether a value can be a tag. -/
def Value.isTag : Value → Bool
  | nil | map _ => true
  | _ => false

/-- The name that an entry of a tag is known by. -/
def Key.label : Key → String
  | keyword name => ":" ++ name
  | string text => text

theorem keywordName?_eq_some_iff {name keyword : String} : keywordName? name = some keyword ↔ name = ":" ++ keyword := by
  have hcolon : (":" ++ keyword).toList = ':' :: keyword.toList := by
    rw [String.toList_append]
    rfl
  constructor
  · intro h
    unfold keywordName? at h
    split at h
    · next rest hname =>
      obtain rfl := Option.some.inj h
      refine String.toList_inj.mp ?_
      rw [hcolon, hname, String.toList_ofList]
    · cases h
  · rintro rfl
    rw [keywordName?, hcolon]
    simp only [String.ofList_toList]

theorem Entries.get?_eq_none_of_lt {entries : Entries Key Value} {key : Key}
    (h : ∀ other ∈ entries.keys, compare key other = .lt) {name : Key} (hname : compare key name ≠ .lt) :
    entries.get? name = none :=
  Option.not_isSome_iff_eq_none.mp fun hsome => hname (h name (mem_keys_iff.mpr hsome))

theorem Key.compare_string_keyword (text name : String) : compare (Key.string text) (.keyword name) = .gt := rfl

/-- Of entries that are known by one name the last counts, and that is the string: keywords come before strings. -/
theorem get?_labels_reverse {entries : Entries Key Value} (h : entries.Increasing) (name : String) :
    Entries.get? (entries.map fun entry => (entry.1.label, entry.2)).reverse name = (Value.map entries).says? name := by
  induction entries with
  | nil => cases hkeyword : keywordName? name <;> simp [Value.says?, Entries.get?, hkeyword]
  | cons entry rest ih =>
    obtain ⟨key, v⟩ := entry
    obtain ⟨hbefore, hrest⟩ := List.pairwise_cons.mp h
    rw [List.map_cons, List.reverse_cons, Entries.get?_append, ih hrest, Entries.get?_cons]
    show ((Value.map rest).says? name).or (if name = key.label then some v else none) = _
    simp only [Value.says?, Entries.get?_cons]
    cases key with
    | string text =>
      -- no keyword comes after a string
      have hnone : ∀ keyword, Entries.get? rest (.keyword keyword) = none := fun keyword =>
        Entries.get?_eq_none_of_lt hbefore (by rw [Key.compare_string_keyword]; decide)
      by_cases hname : name = text
      · subst hname
        have hself : Entries.get? rest (.string name) = none :=
          Entries.get?_eq_none_of_lt hbefore (by rw [Std.ReflOrd.compare_self]; decide)
        cases keywordName? name <;> simp [hnone, hself, Key.label]
      · cases keywordName? name <;> simp [hnone, hname, Key.label]
    | keyword word =>
      by_cases hname : name = ":" ++ word
      · have hword := keywordName?_eq_some_iff.mpr hname
        have hself : Entries.get? rest (.keyword word) = none :=
          Entries.get?_eq_none_of_lt hbefore (by rw [Std.ReflOrd.compare_self]; decide)
        simp [hword, hself, ← hname, Key.label]
      · have hword : keywordName? name ≠ some word := fun h => hname (keywordName?_eq_some_iff.mp h)
        cases hkeyword : keywordName? name with
        | none => simp [hname, Key.label]
        | some other =>
          have hne : other ≠ word := fun h => hword (h ▸ hkeyword)
          simp [hname, hne, Key.label]

theorem asMetadata_map (entries : Entries Key Value) :
    (Value.map entries).asMetadata = .ok { entries := Entries.overlay [] (entries.map fun entry =>
      (entry.1.label, entry.2)) } := by
  have hfold : ∀ (rest : Entries Key Value) (m : Metadata Value),
      rest.foldl (fun m entry =>
        match entry.1 with
        | .keyword name => m.insert (":" ++ name) entry.2
        | .string text => m.insert text entry.2) m =
      { m with entries := Entries.overlay m.entries (rest.map fun entry => (entry.1.label, entry.2)) } := by
    intro rest
    induction rest with
    | nil => exact fun _ => rfl
    | cons entry rest ih =>
      intro m
      rw [List.foldl_cons, ih]
      obtain ⟨key, v⟩ := entry
      cases key <;> rfl
  exact congrArg Except.ok (hfold entries .empty)

/-- What a tag says is known afterwards, and nothing else. -/
theorem holds_of_asMetadata {tag : Value} (htag : tag.Ordered) {m : Metadata Value} (h : tag.asMetadata = .ok m) :
    m.Holds tag.says? ∧ Entries.Increasing m.entries := by
  cases tag with
  | nil =>
    obtain rfl := Except.ok.inj h
    exact ⟨.empty, .nil⟩
  | map entries =>
    rw [asMetadata_map] at h
    obtain rfl := Except.ok.inj h
    refine ⟨⟨rfl, rfl, rfl, fun name => ?_⟩, Entries.Increasing.nil.overlay _⟩
    show (Entries.overlay [] (entries.map fun entry => (entry.1.label, entry.2))).get? name = _
    rw [Entries.get?_overlay, get?_labels_reverse htag.increasing]
    exact Option.or_none
  | _ => cases h

/-! ### Shapes -/

/-- The name of a definition: a symbol, or a symbol with a tag. -/
inductive Form.Names : (name : Code) → (tag : Option Code) → (symbol : Code) → Prop
  | bare {name : Code} (symbol : name.kind = .symbol) : Names name none name
  | tagged {name tag symbol : Code} {rest : List Code} (kind : name.kind = .tag)
      (parts : name.children = tag :: symbol :: rest) (named : symbol.kind = .symbol) : Names name (some tag) symbol

/-- What a definition binds, and the forms that it evaluates. -/
structure Definition where
  symbol : Code
  doc : Option Code
  tag : Option Code
  value : Option Code

/-- A form has the parts of a definition. Before the value there may be a docstring; what stands there and is no string
    literal is no part of it. -/
inductive Form.Defines (form : Code) : Definition → Prop
  | bare {name symbol : Code} {tag : Option Code} (arguments : form.arguments = [name]) (names : name.Names tag symbol) :
    Defines form ⟨symbol, none, tag, none⟩
  | valued {name symbol value : Code} {tag : Option Code} (arguments : form.arguments = [name, value])
      (names : name.Names tag symbol) : Defines form ⟨symbol, none, tag, some value⟩
  | documented {name symbol doc value : Code} {tag : Option Code} (arguments : form.arguments = [name, doc, value])
      (names : name.Names tag symbol) (string : doc.kind = .string) : Defines form ⟨symbol, some doc, tag, some value⟩
  | undocumented {name symbol other value : Code} {tag : Option Code}
      (arguments : form.arguments = [name, other, value]) (names : name.Names tag symbol)
      (noString : other.kind ≠ .string) : Defines form ⟨symbol, none, tag, some value⟩

/-- A form has not the parts of a definition, and fails for it. -/
inductive Form.Misdefines (form : Code) : Error → Prop
  | nameless (arguments : form.arguments = []) : Misdefines form (.ofCause (.badArguments "def" "missing name"))
  | surplus (arguments : 3 < form.arguments.length) :
    Misdefines form (.ofCause (.badArguments "def" "expected (def name doc? value?)"))
  | unnamed {name : Code} {rest : List Code} (arguments : form.arguments = name :: rest) (few : rest.length ≤ 2)
      (unnamed : ∀ tag symbol, ¬name.Names tag symbol) :
    Misdefines form ((Error.ofCause (.unexpected "symbol" name.kind.name)).attributeTo name)

/-- What the docstring of a definition says. -/
def Definition.docstring? (d : Definition) : Option Value :=
  d.doc.bind fun doc => (Literal.string? doc.text).map .string

/-! ### Outcomes -/

/-- `t` comes of `s` by binding `name` in `scope` to a new var that holds `v`, and by nothing else. -/
structure Store.BindsNew (s : Store) (scope : Scope) (name : String) (v : Value) (var : Var) (t : Store) : Prop where
  fresh : var = ⟨s.cells.size, .ofString name⟩
  held : t.held var = v
  size : t.cells.size = s.cells.size + 1
  others : ∀ other : Var, other.index < s.cells.size → t.held other = s.held other ∧ t.metadata other = s.metadata other
  here : ∀ other, Entries.get? (t.bindings scope) other =
    if other = name then some var else Entries.get? (s.bindings scope) other
  elsewhere : ∀ inner, inner ≠ scope → t.bindings inner = s.bindings inner
  scopes : t.frames.size = s.frames.size ∧ ∀ inner, t.outer inner = s.outer inner
  numbers : t.identities = s.identities ∧ t.documents = s.documents
  events : t.events = .bound scope name var :: s.events

/-- How a definition ends: with the stop of the first of docstring, tag and value that stops, with a tag that is none,
    or with a new var. What comes after the end has not been evaluated. -/
inductive Definition.Ends (go : Task → Eval Value) (scope : Scope) (d : Definition) (s : Store) :
    Result Stop Store Value → Prop
  | doc {stop : Stop} {t : Store} (halts : Eval.Halts go scope s d.doc.toList stop t) : Ends go scope d s (.error stop t)
  | tag {said : Option Value} {stop : Stop} {t u : Store} (doc : Eval.Yields go scope s d.doc.toList said.toList t)
      (halts : Eval.Halts go scope t d.tag.toList stop u) : Ends go scope d s (.error stop u)
  | refused {said : Option Value} {tag : Code} {v : Value} {t u : Store}
      (doc : Eval.Yields go scope s d.doc.toList said.toList t) (tagged : d.tag = some tag)
      (yields : Eval.Yields go scope t [tag] [v] u) (noTag : v.isTag = false) :
    Ends go scope d s
      (.error (.failed ((Error.ofCause (.unexpected "metadata map" v.typeName)).attributeTo tag)) u)
  | value {said tagged : Option Value} {stop : Stop} {t u x : Store}
      (doc : Eval.Yields go scope s d.doc.toList said.toList t)
      (tag : Eval.Yields go scope t d.tag.toList tagged.toList u) (map : ∀ v ∈ tagged, v.isTag = true)
      (halts : Eval.Halts go scope u d.value.toList stop x) : Ends go scope d s (.error stop x)
  | bound {said tagged value : Option Value} {t u x y : Store} {var : Var}
      (doc : Eval.Yields go scope s d.doc.toList said.toList t) (decoded : said = d.docstring?)
      (tag : Eval.Yields go scope t d.tag.toList tagged.toList u) (map : ∀ v ∈ tagged, v.isTag = true)
      (yields : Eval.Yields go scope u d.value.toList value.toList x)
      (binds : x.BindsNew scope d.symbol.text (value.getD .nil) var y)
      (known : (y.metadata var).Holds fun name =>
        (tagged.bind (·.says? name)).or (if name = ":doc" then said else none)) :
    Ends go scope d s (.ok (.var var) y)

/-- How `def` ends for a form: as the definition it is, or because it is none. -/
def Form.EndsDefinition (go : Task → Eval Value) (scope : Scope) (form : Code) (s : Store)
    (result : Result Stop Store Value) : Prop :=
  (∃ d, form.Defines d ∧ d.Ends go scope s result) ∨
    ∃ error, form.Misdefines error ∧ result = .error (.failed error) s

/-! ### Binding -/

namespace Store

variable {s t : Store} {scope : Scope}

theorem bindsNew_define (hscope : scope < s.frames.size) (name : String) (v : Value) (m : Metadata Value) :
    s.BindsNew scope name v (s.define scope name v m).1 (s.define scope name v m).2 ∧
      (s.define scope name v m).2.metadata (s.define scope name v m).1 = m := by
  have hgrown : s.Extends (s.define scope name v m).2 := .define s scope name v m
  have hbindings : ∀ inner, (s.define scope name v m).2.bindings inner =
      if inner = scope then Entries.insert name (s.define scope name v m).1 (s.bindings inner) else s.bindings inner :=
    fun inner => bindings_bind (s := (s.newVar name v m).2) hscope
  refine ⟨⟨rfl, ?_, ?_, fun other hother => ⟨hgrown.held hother, hgrown.metadata hother⟩, fun other => ?_,
    fun inner hinner => ?_, ⟨?_, fun inner => ?_⟩, ⟨rfl, rfl⟩, rfl⟩, ?_⟩
  · simp [Store.define, Store.newVar, Store.bind, Store.held]
  · simp [Store.define, Store.newVar, Store.bind]
  · rw [hbindings, if_pos rfl, Entries.get?_insert]
  · rw [hbindings, if_neg hinner]
  · simp [Store.define, Store.newVar, Store.bind]
  · exact outer_bind (s := (s.newVar name v m).2)
  · simp [Store.define, Store.newVar, Store.bind, Store.metadata]

end Store

/-! ### Evaluation of the parts -/

namespace Eval

variable {host : Host} {scope : Scope} {s t : Store} {forms : List Code} {values : List Value} {levels : Nat}

theorem Yields.extends (h : Yields (run host levels) scope s forms values t) : s.Extends t := by
  induction h with
  | nil s => exact .refl s
  | @cons s t u form rest v values first _ ih =>
    have hgrown := extends_left_run host levels (.evaluate form scope) s
    rw [left, first] at hgrown
    exact hgrown.trans ih

theorem Yields.ordered (hhost : host.Ordered) (hs : s.Ordered) (h : Yields (run host levels) scope s forms values t) :
    (∀ v ∈ values, v.Ordered) ∧ t.Ordered := by
  induction h with
  | nil s => exact ⟨by simp, hs⟩
  | cons first _ ih =>
    obtain ⟨hv, ht⟩ := ordered_of_run hhost hs first
    obtain ⟨hvalues, hu⟩ := ih ht
    exact ⟨List.forall_mem_cons.mpr ⟨hv, hvalues⟩, hu⟩

theorem definedName_cases (name : Code) (s : Store) :
    (∃ tag symbol, name.Names tag symbol ∧ definedName name s = .ok (tag, symbol) s) ∨
    (∀ tag symbol, ¬name.Names tag symbol) ∧ definedName name s =
      .error (.failed ((Error.ofCause (.unexpected "symbol" name.kind.name)).attributeTo name)) s := by
  unfold definedName Form.first? Form.second?
  cases hkind : name.kind with
  | symbol => exact .inl ⟨none, name, .bare hkind, rfl⟩
  | tag =>
    match hchildren : name.children with
    | [] | [_] =>
      refine .inr ⟨?_, by simp [unexpected, failAt, hkind]; rfl⟩
      rintro tag symbol (hsymbol | ⟨-, hparts, -⟩)
      · simp [hkind] at hsymbol
      · simp [hchildren] at hparts
    | tag :: symbol :: rest =>
      by_cases hsymbol : symbol.kind = .symbol
      · exact .inl ⟨some tag, symbol, .tagged hkind hchildren hsymbol, by simp [hsymbol]; rfl⟩
      · refine .inr ⟨?_, by simp [hsymbol, unexpected, failAt, hkind]; rfl⟩
        rintro _ _ (hbare | ⟨-, hparts, hnamed⟩)
        · simp [hkind] at hbare
        · obtain ⟨rfl, hrest⟩ := List.cons.inj (hchildren.symm.trans hparts)
          obtain ⟨rfl, -⟩ := List.cons.inj hrest
          exact hsymbol hnamed
  | _ =>
    refine .inr ⟨?_, by simp [unexpected, failAt, hkind]; rfl⟩
    rintro tag symbol (hsymbol | ⟨htag, -, -⟩)
    · simp [hkind] at hsymbol
    · simp [hkind] at htag

/-- What is known of a docstring. -/
def docSaid : Option Value → Metadata Value
  | some text => Metadata.empty.insert ":doc" text
  | none => .empty

theorem holds_docSaid (said : Option Value) : (docSaid said).Holds fun name => if name = ":doc" then said else none := by
  cases said with
  | some text => exact Metadata.Holds.empty.insert ":doc" text
  | none =>
    simp only [ite_self]
    exact .empty

theorem docstring_of_run {code : Code} (hkind : code.kind = .string) {v : Value}
    (h : run host levels (.evaluate code scope) s = .ok v t) : (Literal.string? code.text).map .string = some v := by
  cases levels with
  | zero => cases h
  | succ levels =>
    have hliteral : code.literal? = (Literal.string? code.text).map .string := by rw [Form.literal?, hkind]
    rw [run_evaluate_literal (by rw [Form.isLiteral, hkind]), hliteral] at h
    cases hdecoded : (Literal.string? code.text).map Value.string with
    | none =>
      rw [hdecoded] at h
      cases h
    | some text =>
      rw [hdecoded] at h
      cases h
      rfl

theorem docMetadata_cases (host : Host) (levels : Nat) (scope : Scope) (s : Store) {d : Definition}
    (h : ∀ code ∈ d.doc, code.kind = .string) :
    (∃ (said : Option Value) (t : Store), Yields (run host levels) scope s d.doc.toList said.toList t ∧
      said = d.docstring? ∧ docMetadata (run host levels) d.doc scope s = .ok (docSaid said) t) ∨
    ∃ stop t, Halts (run host levels) scope s d.doc.toList stop t ∧
      docMetadata (run host levels) d.doc scope s = .error stop t := by
  unfold Definition.docstring?
  cases hdoc : d.doc with
  | none => exact .inl ⟨none, s, .nil s, rfl, rfl⟩
  | some code =>
    have hkind : code.kind = .string := h code hdoc
    have hprocess : docMetadata (run host levels) (some code) scope =
        run host levels (.evaluate code scope) >>= fun text => pure (Metadata.empty.insert ":doc" text) := by
      rw [docMetadata, if_pos hkind]
    rw [hprocess]
    cases hcode : run host levels (.evaluate code scope) s with
    | error stop t => exact .inr ⟨stop, t, .here hcode [], bind_error hcode⟩
    | ok text t =>
      exact .inl ⟨some text, t, .cons hcode (.nil t), (docstring_of_run hkind hcode).symm, bind_ok hcode⟩

theorem tagMetadata_cases (go : Task → Eval Value) (scope : Scope) (s : Store) (tag : Option Code) :
    (∃ (tagged : Option Value) (t : Store) (m : Metadata Value), Yields go scope s tag.toList tagged.toList t ∧
      (tagged.getD .nil).asMetadata = .ok m ∧ tagMetadata go tag scope s = .ok m t) ∨
    (∃ stop t, Halts go scope s tag.toList stop t ∧ tagMetadata go tag scope s = .error stop t) ∨
    ∃ code v t cause, tag = some code ∧ Yields go scope s [code] [v] t ∧ v.asMetadata = .error cause ∧
      tagMetadata go tag scope s = .error (.failed ((Error.ofCause cause).attributeTo code)) t := by
  cases tag with
  | none => exact .inl ⟨none, s, .empty, .nil s, rfl, rfl⟩
  | some code =>
    have hprocess : tagMetadata go (some code) scope =
        go (.evaluate code scope) >>= fun v => ofExceptAt code v.asMetadata := rfl
    rw [hprocess]
    cases hcode : go (.evaluate code scope) s with
    | error stop t => exact .inr (.inl ⟨stop, t, .here hcode [], bind_error hcode⟩)
    | ok v t =>
      rw [bind_ok hcode]
      cases hv : v.asMetadata with
      | ok m => exact .inl ⟨some v, t, m, .cons hcode (.nil t), hv, rfl⟩
      | error cause => exact .inr (.inr ⟨code, v, t, cause, rfl, .cons hcode (.nil t), hv, rfl⟩)

theorem evaluateOrNil_cases (go : Task → Eval Value) (scope : Scope) (s : Store) (form : Option Code) :
    (∃ (v : Option Value) (t : Store), Yields go scope s form.toList v.toList t ∧
      evaluateOrNil go form scope s = .ok (v.getD .nil) t) ∨
    ∃ stop t, Halts go scope s form.toList stop t ∧ evaluateOrNil go form scope s = .error stop t := by
  cases form with
  | none => exact .inl ⟨none, s, .nil s, rfl⟩
  | some code =>
    cases hcode : go (.evaluate code scope) s with
    | ok v t => exact .inl ⟨some v, t, .cons hcode (.nil t), hcode⟩
    | error stop t => exact .inr ⟨stop, t, .here hcode [], hcode⟩

/-! ### Definitions -/

theorem isTag_of_asMetadata_ok {v : Value} {m : Metadata Value} (h : v.asMetadata = .ok m) : v.isTag = true := by
  cases v with
  | nil | map => rfl
  | _ => cases h

theorem of_asMetadata_error {v : Value} {cause : Cause} (h : v.asMetadata = .error cause) :
    v.isTag = false ∧ cause = .unexpected "metadata map" v.typeName := by
  cases v with
  | nil | map => cases h
  | _ => exact ⟨rfl, (Except.error.inj h).symm⟩

/-- Docstring, tag and value are evaluated one after the other, then the name is bound. -/
theorem ends_evalDefine (hhost : host.Ordered) (hs : s.Ordered) (hscope : scope < s.frames.size) (levels : Nat)
    {d : Definition} {name : Code} (hname : definedName name s = .ok (d.tag, d.symbol) s)
    (hdoc : ∀ code ∈ d.doc, code.kind = .string) :
    d.Ends (run host levels) scope s (evalDefine (run host levels) name d.doc d.value scope s) := by
  unfold evalDefine
  rw [bind_ok hname]
  dsimp only
  rcases docMetadata_cases host levels scope s hdoc with ⟨said, t, hsaid, hdecoded, hok⟩ | ⟨stop, t, hhalts, herror⟩
  swap
  · rw [bind_error herror]
    exact .doc hhalts
  rw [bind_ok hok]
  rcases tagMetadata_cases (run host levels) scope t d.tag with
    ⟨tagged, u, m, htagged, hm, hok⟩ | ⟨stop, u, hhalts, herror⟩ | ⟨tag, v, u, cause, htag, hv, hcause, herror⟩
  · rw [bind_ok hok]
    have hmap : ∀ v ∈ tagged, v.isTag = true := by
      rintro v rfl
      exact isTag_of_asMetadata_ok hm
    rcases evaluateOrNil_cases (run host levels) scope u d.value with ⟨v, x, hv, hok⟩ | ⟨stop, x, hhalts, herror⟩
    swap
    · rw [bind_error herror]
      exact .value hsaid htagged hmap hhalts
    rw [bind_ok hok]
    have hsaidOrdered := (hsaid.ordered hhost hs).2
    have htagOrdered : (tagged.getD .nil).Ordered := by
      cases tagged with
      | none => exact .plain rfl
      | some tag => exact (htagged.ordered hhost hsaidOrdered).1 tag (by simp)
    have hscope := ((hsaid.extends.trans htagged.extends).trans hv.extends).lt_frames hscope
    obtain ⟨hbinds, hmetadata⟩ :=
      Store.bindsNew_define hscope d.symbol.text (v.getD .nil) ((docSaid said).merge m)
    obtain ⟨hfound, hkeys⟩ := holds_of_asMetadata htagOrdered hm
    have hknown := (holds_docSaid said).merge hfound hkeys
    have hsame : (fun name => ((tagged.getD .nil).says? name).or (if name = ":doc" then said else none)) =
        fun name => (tagged.bind (·.says? name)).or (if name = ":doc" then said else none) := by
      cases tagged <;> rfl
    rw [← hmetadata, hsame] at hknown
    exact .bound hsaid hdecoded htagged hmap hv hbinds hknown
  · rw [bind_error herror]
    exact .tag hsaid hhalts
  · rw [bind_error herror]
    obtain ⟨hnone, rfl⟩ := of_asMetadata_error hcause
    exact .refused hsaid htag hv hnone

theorem endsDefinition_evalDefine (hhost : host.Ordered) (hs : s.Ordered) (hscope : scope < s.frames.size)
    (levels : Nat) {form name : Code} {rest : List Code} (harguments : form.arguments = name :: rest)
    (hfew : rest.length ≤ 2) {doc value : Option Code} (hdoc : ∀ code ∈ doc, code.kind = .string)
    (hdefines : ∀ tag symbol, name.Names tag symbol → form.Defines ⟨symbol, doc, tag, value⟩) :
    form.EndsDefinition (run host levels) scope s (evalDefine (run host levels) name doc value scope s) := by
  rcases definedName_cases name s with ⟨tag, symbol, hnames, hname⟩ | ⟨hnone, herror⟩
  · exact .inl ⟨_, hdefines tag symbol hnames, ends_evalDefine hhost hs hscope levels hname hdoc⟩
  · exact .inr ⟨_, .unnamed harguments hfew hnone, bind_error herror⟩

theorem endsDefinition_evalDef (hhost : host.Ordered) (hs : s.Ordered) (hscope : scope < s.frames.size) (levels : Nat)
    (form : Code) :
    form.EndsDefinition (run host levels) scope s (evalDef (run host levels) form scope s) := by
  unfold evalDef
  match harguments : form.arguments with
  | [] => exact .inr ⟨_, .nameless harguments, rfl⟩
  | [name] =>
    exact endsDefinition_evalDefine hhost hs hscope levels harguments (by simp) (by simp)
      fun _ _ hnames => .bare harguments hnames
  | [name, value] =>
    exact endsDefinition_evalDefine hhost hs hscope levels harguments (by simp) (by simp)
      fun _ _ hnames => .valued harguments hnames
  | [name, doc, value] =>
    by_cases hdoc : doc.kind = .string
    · exact endsDefinition_evalDefine hhost hs hscope levels harguments (by simp) (by simpa using hdoc)
        fun _ _ hnames => .documented harguments hnames hdoc
    · -- what is no docstring is passed over
      have hskip : evalDefine (run host levels) name (some doc) (some value) scope =
          evalDefine (run host levels) name none (some value) scope := by
        simp only [evalDefine, docMetadata, if_neg hdoc]
      dsimp only
      rw [hskip]
      exact endsDefinition_evalDefine hhost hs hscope levels harguments (by simp) (by simp)
        fun _ _ hnames => .undocumented harguments hnames hdoc
  | _ :: _ :: _ :: _ :: _ => exact .inr ⟨_, .surplus (by simp [harguments]), rfl⟩

/-- Whatever form `def` is called by, it binds the name of a definition to a new var after docstring, tag and value have
    been evaluated, or it fails and binds nothing. The evaluation of a list that calls it comes to this, in a store with
    the vars of the var quotes in the list. -/
theorem run_define {host : Host} (hhost : host.Ordered) {s : Store} (hs : s.Ordered) {scope : Scope}
    (hscope : scope < s.frames.size) (form : Code) (levels : Nat) :
    form.EndsDefinition (run host levels) scope s (run host (levels + 1) (.invoke .define form scope) s) ∧
    ∀ {head : Code} {args : List Code} {identity : Nat}, form.kind = .list → form.children = head :: args →
      head.kind = .symbol → memberName? head.text = none →
      s.get scope head.text = .ok (.function identity (.special .define)) →
      ∃ t result, t = { s with cells := t.cells } ∧ s.Extends t ∧
        form.EndsDefinition (run host levels) scope t result ∧
        run host (levels + 2) (.evaluate form scope) s = outOf form result := by
  refine ⟨endsDefinition_evalDef hhost hs hscope levels form, ?_⟩
  intro head args identity hkind hchildren hsymbol hmember hget
  obtain ⟨cells, hcells⟩ := exists_expandAll_eq s scope args
  have hgrown := s.extends_expandAll scope args
  have hordered := hs.expandAll Value.Ordered.hereditary scope args
  have hhead : run host (levels + 1) (.evaluate head scope) (s.expandAll scope args).2 =
      .ok (.function identity (.special .define)) (s.expandAll scope args).2 :=
    run_symbol_ok hsymbol (Store.get_expandAll hget args)
  refine ⟨(s.expandAll scope args).2, _, by rw [hcells], hgrown,
    endsDefinition_evalDef hhost hordered (hgrown.lt_frames hscope) levels form, ?_⟩
  rw [run_evaluate_list hkind hchildren hsymbol hmember, ← through_attributed]
  exact mapError_congr (bind_ok hhead) _

/-- A definition with a docstring and a tag in which a keyword and a string give the same name. -/
def taggedForm : Code := sourceForm "(def ^\x7b:a 1 \":a\" 2\x7d x \"doc\" 5)"

/-- What is known under a name about the var that a definition gives, as it is printed. -/
def knownAs (name : String) : Result Stop Store Value → Option String
  | .ok (.var var) s => ((s.metadata var).get? name).map Value.print
  | _ => none

theorem run_define_taggedForm :
    knownAs ":a" (freshOutcome taggedForm) = some "2" ∧ knownAs ":doc" (freshOutcome taggedForm) = some "\"doc\"" ∧
    ∃ t result, t = { freshCommand.2 with cells := t.cells } ∧ freshCommand.2.Extends t ∧
      taggedForm.EndsDefinition (run Command.host 9) freshCommand.1.scope t result ∧
      freshOutcome taggedForm = outOf taggedForm result := by
  have hcheck : taggedForm.kind = .list ∧ taggedForm.children.length = 4 ∧
      (taggedForm.children.headD default).kind = .symbol ∧ (taggedForm.children.headD default).text = "def" ∧
      freshCommand.1.scope < freshCommand.2.frames.size ∧
      (Store.inBase "def").bind Value.special? = some .define ∧
      knownAs ":a" (freshOutcome taggedForm) = some "2" ∧
      knownAs ":doc" (freshOutcome taggedForm) = some "\"doc\"" := by decide +kernel
  obtain ⟨hkind, hlength, hsymbol, hname, hscope, hspecial, hknown, hdoc⟩ := hcheck
  obtain ⟨head, args, hchildren⟩ := List.exists_cons_of_length_eq_add_one hlength
  rw [hchildren] at hsymbol hname
  obtain ⟨identity, hget⟩ := exists_get_special hspecial
  have hordered : freshCommand.2.Ordered := Store.newBase_ordered (by simp [Store.Holds, Store.empty]) nofun
  refine ⟨hknown, hdoc, ?_⟩
  exact (run_define Command.ordered_host hordered hscope taggedForm 9).2 hkind hchildren hsymbol
    (by rw [show head.text = "def" from hname]; decide) (by rw [show head.text = "def" from hname]; exact hget)

end Eval

end Lisplet
