import Lisplet.Eval.Run

/-! # Cutting texts and joining them

A text that is split at a separator is cut at its occurrences, each the leftmost after the one before. So the parts are
the text again when they are joined, and no part has the separator in it. Without a separator the parts are the single
characters.

A text is also cut between two positions. They may come in either order and lie outside the text; what is cut out are
the characters from the smaller position up to the larger one, as far as there are any. -/

namespace Lisplet

/-! ### Calls of members -/

/-- The member `name` of `target` is a procedure that gives `v` for `args`, whatever the host and the store are. -/
def Value.Answers (target : Value) (name : String) (args : List Value) (v : Value) : Prop :=
  ∃ p : Procedure Value, (∀ fields : Fields, target.member? fields name = some (.procedure p)) ∧
    ∀ (host : Host) (levels : Nat) (s : Store), Eval.run host (levels + 1) (.call p args) s = .ok v s

namespace Value

variable {name : String} {args : List Value} {v : Value}

theorem Answers.of_method {target : Value} {m : Method Value}
    (hfound : ∀ fields : Fields, target.member? fields name = some (.procedure (.method m)))
    (hrun : m.run args = .ok v) : target.Answers name args v := by
  refine ⟨.method m, hfound, fun host levels s => ?_⟩
  show Eval.ofExcept (m.run args) s = _
  rw [hrun]
  rfl

theorem Answers.of_string (method : StringMethod) (text : String) (h : method.run text args = .ok v) :
    (string text).Answers method.name args v :=
  .of_method (fun _ => by cases method <;> rfl) (m := .ofString method text) h

theorem Answers.of_vector (method : VectorMethod) (items args : List Value) :
    (vector items).Answers method.name args (method.run items args) :=
  .of_method (fun _ => by cases method <;> rfl) (m := .ofVector method items) rfl

end Value

namespace Search

variable {separator text : List Char}

/-! ### Occurrences -/

theorem dropLeading?_eq_some_iff {needle text rest : List Char} :
    dropLeading? needle text = some rest ↔ text = needle ++ rest := by
  induction needle generalizing text with
  | nil => simp [dropLeading?]
  | cons n needle ih =>
    cases text with
    | nil => simp [dropLeading?]
    | cons c text =>
      rw [dropLeading?]
      by_cases hc : n = c
      · simp [hc, ih]
      · simp [hc, Ne.symm hc]

theorem startsWith_iff {needle text : List Char} : startsWith needle text = true ↔ needle <+: text := by
  simp only [startsWith, Option.isSome_iff_exists, dropLeading?_eq_some_iff]
  exact exists_congr fun _ => eq_comm

/-- Every occurrence of `separator` in `text` starts at `start` or later. -/
def NoneBefore (separator text : List Char) (start : Nat) : Prop :=
  ∀ before, before ++ separator <+: text → start ≤ before.length

/-- A text is cut at the occurrences of a separator: at the leftmost one, and then in what comes after it. -/
inductive LeftmostCuts (separator : List Char) : (text : List Char) → (parts : List (List Char)) → Prop
  | whole {text : List Char} (none : ¬separator <:+: text) : LeftmostCuts separator text [text]
  | cut {part rest : List Char} {parts : List (List Char)}
      (leftmost : NoneBefore separator (part ++ separator ++ rest) part.length)
      (h : LeftmostCuts separator rest parts) : LeftmostCuts separator (part ++ separator ++ rest) (part :: parts)

namespace LeftmostCuts

variable {parts : List (List Char)}

theorem ne_nil (h : LeftmostCuts separator text parts) : parts ≠ [] := by
  cases h <;> exact List.cons_ne_nil _ _

theorem intercalate (h : LeftmostCuts separator text parts) : separator.intercalate parts = text := by
  induction h with
  | whole => simp
  | @cut part rest parts _ h ih =>
    obtain ⟨next, more, rfl⟩ := List.exists_cons_of_ne_nil h.ne_nil
    rw [List.intercalate_cons_cons, ih]

/-- An occurrence in a part would start before the one at which the part ends. -/
theorem not_infix (h : LeftmostCuts separator text parts) (hseparator : separator ≠ []) :
    ∀ part ∈ parts, ¬separator <:+: part := by
  induction h with
  | whole none => simpa using none
  | @cut part rest parts leftmost _ ih =>
    refine List.forall_mem_cons.mpr ⟨?_, ih⟩
    rintro ⟨before, after, rfl⟩
    have hle := leftmost before ⟨after ++ separator ++ rest, by simp⟩
    have hpos := List.length_pos_iff.mpr hseparator
    simp only [List.length_append] at hle
    omega

/-- There is only one way to do so. -/
theorem unique {others : List (List Char)} (h : LeftmostCuts separator text parts)
    (hothers : LeftmostCuts separator text others) : others = parts := by
  induction h generalizing others with
  | whole none =>
    cases hothers with
    | whole => rfl
    | @cut part rest => exact absurd ⟨part, rest, rfl⟩ none
  | @cut part rest parts leftmost _ ih =>
    generalize htext : part ++ separator ++ rest = text at hothers leftmost
    cases hothers with
    | whole none => exact absurd ⟨part, rest, htext⟩ none
    | @cut other later others earliest h =>
      have hlength : part.length = other.length :=
        Nat.le_antisymm (leftmost other ⟨later, rfl⟩) (earliest part ⟨rest, htext⟩)
      rw [List.append_assoc, List.append_assoc] at htext
      obtain ⟨rfl, hrest⟩ := List.append_inj htext hlength
      obtain rfl := List.append_cancel_left hrest
      rw [ih h]

end LeftmostCuts

/-! ### Splitting -/

theorem NoneBefore.zero (separator text : List Char) : NoneBefore separator text 0 := fun _ _ => Nat.zero_le _

/-- If the separator does not start where the next one could be, it starts later. -/
theorem NoneBefore.succ {part : List Char} {c : Char} (h : NoneBefore separator (part.reverse ++ c :: text) part.length)
    (hstarts : ¬separator <+: c :: text) :
    NoneBefore separator ((c :: part).reverse ++ text) (c :: part).length := by
  intro before hbefore
  rw [List.reverse_cons, List.append_assoc, List.singleton_append] at hbefore
  refine Nat.lt_of_le_of_ne (h before hbefore) fun hlength => hstarts ?_
  have hpart : before = part.reverse :=
    (List.prefix_of_prefix_length_le ((List.prefix_append _ _).trans hbefore) (List.prefix_append _ _)
      (by simp [hlength])).eq_of_length (by simp [hlength])
  rwa [hpart, List.prefix_append_right_inj] at hbefore

/-- What is still to be cut is `part`, which was read, and what comes after the `skip` characters that are passed over.
    The separator must start nowhere in it before the end of `part`. -/
theorem leftmostCuts_splitFrom (hseparator : separator ≠ []) {part : List Char} {skip : Nat}
    (hskip : skip ≤ text.length) (h : NoneBefore separator (part.reverse ++ text.drop skip) part.length) :
    LeftmostCuts separator (part.reverse ++ text.drop skip) (splitFrom separator part skip text) := by
  -- on the text as it is read: each character is passed over, ends a part with the rest of the separator, or joins the part
  induction text generalizing part skip with
  | nil =>
    rw [List.drop_nil, List.append_nil] at h ⊢
    rw [splitFrom]
    refine .whole ?_
    rintro ⟨before, after, hpart⟩
    have hle := h before ⟨after, hpart⟩
    have hlength := congrArg List.length hpart
    have hpos := List.length_pos_iff.mpr hseparator
    simp only [List.length_append, List.length_reverse] at hlength
    omega
  | cons c text ih =>
    cases skip with
    | succ skip => exact ih (Nat.le_of_succ_le_succ hskip) h
    | zero =>
      rw [List.drop_zero] at h ⊢
      rw [splitFrom]
      split
      · next hstarts =>
        obtain ⟨rest, hrest⟩ := startsWith_iff.mp hstarts
        obtain ⟨first, more, rfl⟩ := List.exists_cons_of_ne_nil hseparator
        obtain ⟨rfl, hmore : more ++ rest = text⟩ := List.cons.inj hrest
        subst hmore
        have hfresh : NoneBefore (first :: more) ([].reverse ++ (more ++ rest).drop more.length) 0 := .zero _ _
        have hcuts := ih (by simp) hfresh
        rw [List.drop_left, List.reverse_nil, List.nil_append] at hcuts
        rw [← hrest, ← List.append_assoc] at h ⊢
        exact .cut (by rwa [List.length_reverse]) hcuts
      · next hstarts =>
        have hcuts := ih (Nat.zero_le _) (h.succ fun hprefix => hstarts (startsWith_iff.mpr hprefix))
        rwa [List.drop_zero, List.reverse_cons, List.append_assoc, List.singleton_append] at hcuts

theorem leftmostCuts_split (h : separator ≠ []) (text : List Char) :
    LeftmostCuts separator text (split separator text) := by
  rw [split, if_neg (by simpa using h)]
  exact leftmostCuts_splitFrom h (Nat.zero_le _) (.zero separator ([].reverse ++ text.drop 0))

theorem leftmostCuts_iff (h : separator ≠ []) {parts : List (List Char)} :
    LeftmostCuts separator text parts ↔ parts = split separator text := by
  constructor
  · exact (leftmostCuts_split h text).unique
  · rintro rfl
    exact leftmostCuts_split h text

theorem split_nil (text : List Char) : split [] text = text.map fun c => [c] := rfl

end Search

/-! ### Joining -/

theorem joinTexts_eq_intercalate (separator : String) (texts : List String) :
    joinTexts separator texts = separator.intercalate texts := by
  induction texts with
  | nil => exact String.intercalate_nil.symm
  | cons text rest ih =>
    cases rest with
    | nil => exact String.intercalate_singleton.symm
    | cons next rest =>
      show text ++ separator ++ joinTexts separator (next :: rest) = _
      rw [ih, String.intercalate_cons_cons]

theorem Search.intercalate_split (separator text : List Char) : separator.intercalate (split separator text) = text := by
  by_cases h : separator = []
  · subst h
    rw [split_nil]
    induction text with
    | nil => rfl
    | cons c text ih =>
      cases text with
      | nil => rfl
      | cons next text =>
        rw [List.map_cons] at ih ⊢
        rw [List.map_cons, List.intercalate_cons_cons, ih]
        rfl
  · exact (leftmostCuts_split h text).intercalate

namespace Value

/-- Splitting a text gives texts that are joined to the text again. At a separator it is cut at the leftmost
    occurrences, and no part has the separator in it; without one its parts are its characters. -/
theorem join_split (text separator : String) :
    ∃ parts : List String,
      (string text).Answers "split" [.string separator] (vector (parts.map string)) ∧
      (vector (parts.map string)).Answers "join" [.string separator] (string text) ∧
      (separator ≠ "" → parts ≠ [] ∧ (∀ part ∈ parts, ¬separator.toList <:+: part.toList) ∧
        Search.LeftmostCuts separator.toList text.toList (parts.map String.toList)) ∧
      (separator = "" → parts = text.toList.map String.singleton) := by
  let parts := (Search.split separator.toList text.toList).map String.ofList
  have hparts : parts.map String.toList = Search.split separator.toList text.toList := by
    simp [parts, Function.comp_def]
  have hjoined : joinTexts separator parts = text := by
    rw [joinTexts_eq_intercalate, ← String.toList_inj, String.toList_intercalate, hparts, Search.intercalate_split]
  refine ⟨parts, ?_, ?_, fun hseparator => ?_, fun hseparator => ?_⟩
  · have hsplit : StringMethod.split.run text [.string separator] = .ok (vector (parts.map string)) := by
      rw [List.map_map]
      rfl
    exact .of_string .split text hsplit
  · have hdisplay : (parts.map string).map display = parts := by
      rw [List.map_map]
      exact List.map_id parts
    have hjoin : VectorMethod.join.run (parts.map string) [.string separator] = string text := by
      show string (joinTexts separator ((parts.map string).map display)) = _
      rw [hdisplay, hjoined]
    exact hjoin ▸ Answers.of_vector .join (parts.map string) [.string separator]
  · have hne : separator.toList ≠ [] := fun h => hseparator (String.toList_eq_nil_iff.mp h)
    have hcuts := Search.leftmostCuts_split hne text.toList
    rw [← hparts] at hcuts
    refine ⟨fun h => hcuts.ne_nil (by rw [h]; rfl), fun part hpart => ?_, hcuts⟩
    exact hcuts.not_infix hne _ (List.mem_map_of_mem hpart)
  · subst hseparator
    show (Search.split [] text.toList).map String.ofList = _
    rw [Search.split_nil, List.map_map]
    exact List.map_congr_left fun c _ => String.singleton_eq_ofList.symm

/-- A separator that overlaps itself, and no separator. -/
theorem join_split_overlapping :
    ("aa" ≠ "" ∧ (string "aaabaaa").Answers "split" [.string "aa"] (vector (["", "ab", "a"].map string)) ∧
      (vector (["", "ab", "a"].map string)).Answers "join" [.string "aa"] (string "aaabaaa")) ∧
    (string "año").Answers "split" [.string ""] (vector (["a", "ñ", "o"].map string)) := by
  constructor
  · obtain ⟨parts, hsplit, hjoin, hcuts, -⟩ := join_split "aaabaaa" "aa"
    have hseparator : "aa" ≠ "" := by decide
    have hparts : parts.map String.toList = ["", "ab", "a"].map String.toList :=
      ((Search.leftmostCuts_iff (by decide)).mp (hcuts hseparator).2.2).trans (by decide)
    rw [List.map_inj_right fun _ _ => String.toList_inj.mp] at hparts
    subst hparts
    exact ⟨hseparator, hsplit, hjoin⟩
  · obtain ⟨parts, hsplit, -, -, hcharacters⟩ := join_split "año" ""
    have hparts : parts = ["a", "ñ", "o"] := (hcharacters rfl).trans (by decide)
    subst hparts
    exact hsplit

end Value

/-! ### Characters between positions -/

namespace Search

/-- The position of a text of `n` characters that is nearest to `k`; its end is one. -/
def nearest (n : Nat) (k : Int) : Int :=
  max 0 (min k n)

/-- The characters at the positions from `lower` up to, but not at, `upper`. -/
def slice (lower upper : Int) (text : List Char) : List Char :=
  (text.zipIdx.filter fun c => lower ≤ c.2 ∧ c.2 < upper).map Prod.fst

theorem map_filter_zipIdx (a b k : Nat) (text : List Char) :
    ((text.zipIdx k).filter fun c => a ≤ c.2 ∧ c.2 < b).map Prod.fst = (text.take (b - k)).drop (a - k) := by
  induction text generalizing k with
  | nil => simp
  | cons c text ih =>
    rw [List.zipIdx_cons, List.filter_cons]
    rcases Nat.lt_or_ge k b with hb | hb
    · have htake : b - k = b - (k + 1) + 1 := by omega
      rw [htake, List.take_succ_cons]
      rcases Nat.lt_or_ge k a with ha | ha
      · have hdrop : a - k = a - (k + 1) + 1 := by omega
        rw [hdrop, List.drop_succ_cons, ← ih, if_neg (by simp; omega)]
      · have hdrop : a - k = 0 := by omega
        have hnext : a - (k + 1) = 0 := by omega
        rw [if_pos (by simp; omega), List.map_cons, ih, hdrop, hnext, List.drop_zero, List.drop_zero]
    · have htake : b - k = 0 := by omega
      have hnext : b - (k + 1) = 0 := by omega
      rw [if_neg (by simp; omega), ih, htake, hnext, List.take_zero, List.take_zero, List.drop_nil, List.drop_nil]

theorem slice_natCast (a b : Nat) (text : List Char) : slice a b text = (text.take b).drop a := by
  simp only [slice, Int.ofNat_le, Int.ofNat_lt]
  exact map_filter_zipIdx a b 0 text

theorem nearest_eq (n : Nat) (k : Int) : nearest n k = (min k.toNat n : Nat) := by
  unfold nearest
  omega

theorem between_eq_slice (i j : Int) (text : List Char) :
    between i j text =
      slice (min (nearest text.length i) (nearest text.length j)) (max (nearest text.length i) (nearest text.length j))
        text := by
  have hmin : ∀ a b : Nat, min (a : Int) b = (min a b : Nat) := by omega
  have hmax : ∀ a b : Nat, max (a : Int) b = (max a b : Nat) := by omega
  rw [nearest_eq, nearest_eq, hmin, hmax, slice_natCast]
  rfl

theorem between_comm (i j : Int) (text : List Char) : between i j text = between j i text := by
  rw [between_eq_slice, between_eq_slice, Int.min_comm, Int.max_comm]

/-- What lies before a position and what lies behind it are the whole text. -/
theorem between_append_between (k : Int) (text : List Char) :
    between 0 k text ++ between k text.length text = text := by
  have hbefore : between 0 k text = text.take (min k.toNat text.length) := by
    simp [between]
  have hafter : between k text.length text = text.drop (min k.toNat text.length) := by
    simp only [between, Int.toNat_natCast, Nat.min_self, Nat.max_eq_right (Nat.min_le_right _ _),
      Nat.min_eq_left (Nat.min_le_right _ _), List.take_length]
  rw [hbefore, hafter, List.take_append_drop]

end Search

namespace Value

theorem substring_answers (text : String) (i j : Int64) :
    (string text).Answers "substring" [.int i, .int j]
      (string (String.ofList (Search.between i.toInt j.toInt text.toList))) :=
  .of_string .substring text rfl

theorem substring_answers_end (text : String) (i : Int64) :
    (string text).Answers "substring" [.int i]
      (string (String.ofList (Search.between i.toInt text.length text.toList))) :=
  .of_string .substring text rfl

/-- Cutting a text never fails: it gives the characters from the smaller of two positions up to the larger, after both
    have been moved into the text. So their order makes no difference, and the second may be left out if it is the end;
    and what is cut out before a position and behind it are the whole text. -/
theorem substring_bounds (text : String) :
    (∀ i j : Int64,
      let first := Search.nearest text.length i.toInt
      let second := Search.nearest text.length j.toInt
      (string text).Answers "substring" [.int i, .int j]
        (string (String.ofList (Search.slice (min first second) (max first second) text.toList)))) ∧
    (∀ i j : Int64, ∃ part : String, (string text).Answers "substring" [.int i, .int j] (string part) ∧
      (string text).Answers "substring" [.int j, .int i] (string part)) ∧
    (∀ i : Int64, ∃ part : String, (string text).Answers "substring" [.int i] (string part) ∧
      ∀ n : Int64, n.toInt = text.length → (string text).Answers "substring" [.int i, .int n] (string part)) ∧
    ∀ k : Int64, ∃ before after : String, (string text).Answers "substring" [.int 0, .int k] (string before) ∧
      (string text).Answers "substring" [.int k] (string after) ∧ before ++ after = text := by
  refine ⟨fun i j => ?_, fun i j => ?_, fun i => ?_, fun k => ?_⟩
  · have hanswer := substring_answers text i j
    rwa [Search.between_eq_slice, String.length_toList] at hanswer
  · refine ⟨_, substring_answers text i j, ?_⟩
    rw [Search.between_comm]
    exact substring_answers text j i
  · refine ⟨_, substring_answers_end text i, fun n hn => ?_⟩
    rw [← hn]
    exact substring_answers text i n
  · refine ⟨_, _, substring_answers text 0 k, substring_answers_end text k, ?_⟩
    rw [← String.ofList_append, ← String.length_toList, Int64.toInt_zero, Search.between_append_between,
      String.ofList_toList]

/-- Positions outside the text in the wrong order, and the end left out. -/
theorem substring_bounds_outside :
    (string "año").Answers "substring" [.int 9, .int (-2)] (string "año") ∧
    (3 : Int64).toInt = ("año".length : Int) ∧
    ∃ part : String, (string "año").Answers "substring" [.int 1] (string part) ∧
      (string "año").Answers "substring" [.int 1, .int 3] (string part) := by
  obtain ⟨hcut, -, hend, -⟩ := substring_bounds "año"
  have hlength : (3 : Int64).toInt = ("año".length : Int) := by decide
  obtain ⟨part, hshort, hlong⟩ := hend 1
  exact ⟨hcut 9 (-2), hlength, part, hshort, hlong 3 hlength⟩

end Value

end Lisplet
