import Mathlib.Data.List.Forall2
import Mathlib.Data.List.Perm.Subperm
import Lisplet.Proofs.Hereditary

/-! # Equality of values without floats

Whether two sets are equal is asked in one direction only: they have one size, and for each item of the left one the
right one has an equal item. This is an equality because the items of a set differ from one another. No two items of
the left set can share an item of the right one, so the two are paired, and nothing on the right is left over. The
pairing needs the laws of equality for the items, which are values again; so the laws are shown of a value at once, by
induction on it, together with all values it may be compared with (`Congruous`).

Floats are left out. An integer is equal to the double nearest to it, and two integers may share one. -/

namespace Lisplet

/-! ### Pairing -/

section Pairing

variable {α β : Type} {R : α → β → Prop} {xs : List α} {ys : List β}

/-- If everything in `xs` finds something in `ys`, and no two the same, then `xs` is paired with a part of `ys`. -/
theorem exists_paired (hfound : ∀ x ∈ xs, ∃ y ∈ ys, R x y)
    (hapart : xs.Pairwise fun a b => ∀ y ∈ ys, R a y → ¬R b y) : ∃ zs, zs.Subperm ys ∧ List.Forall₂ R xs zs := by
  induction xs generalizing ys with
  | nil => exact ⟨[], List.nil_subperm, .nil⟩
  | cons x xs ih =>
    obtain ⟨⟨y, hy, hxy⟩, hrest⟩ := List.forall_mem_cons.mp hfound
    obtain ⟨hfirst, hapart⟩ := List.pairwise_cons.mp hapart
    obtain ⟨before, after, rfl⟩ := List.append_of_mem hy
    have hless : ∀ z ∈ before ++ after, z ∈ before ++ y :: after := by
      intro z hz
      rcases List.mem_append.mp hz with hz | hz
      · exact List.mem_append_left _ hz
      · exact List.mem_append_right _ (List.mem_cons_of_mem y hz)
    -- what `x` has found is taken away, and nothing else had found it
    have hfound : ∀ a ∈ xs, ∃ z ∈ before ++ after, R a z := by
      intro a ha
      obtain ⟨z, hz, haz⟩ := hrest a ha
      have hne : z ≠ y := by
        rintro rfl
        exact hfirst a ha z hz hxy haz
      refine ⟨z, ?_, haz⟩
      simpa [hne] using hz
    obtain ⟨zs, hsub, hpaired⟩ := ih hfound (hapart.imp fun h z hz => h z (hless z hz))
    refine ⟨y :: zs, ?_, .cons hxy hpaired⟩
    exact ((List.subperm_cons y).mpr hsub).trans List.perm_middle.symm.subperm

theorem length_le_of_found (hfound : ∀ x ∈ xs, ∃ y ∈ ys, R x y)
    (hapart : xs.Pairwise fun a b => ∀ y ∈ ys, R a y → ¬R b y) : xs.length ≤ ys.length := by
  obtain ⟨zs, hsub, hpaired⟩ := exists_paired hfound hapart
  exact hpaired.length_eq ▸ hsub.length_le

/-- If `ys` is not longer, nothing in it is left over. -/
theorem exists_finder (hfound : ∀ x ∈ xs, ∃ y ∈ ys, R x y)
    (hapart : xs.Pairwise fun a b => ∀ y ∈ ys, R a y → ¬R b y) (hlength : ys.length ≤ xs.length) :
    ∀ y ∈ ys, ∃ x ∈ xs, R x y := by
  obtain ⟨zs, hsub, hpaired⟩ := exists_paired hfound hapart
  have hperm : zs.Perm ys := hsub.perm_of_length_le (hpaired.length_eq ▸ hlength)
  intro y hy
  have hleft : ∀ z ∈ zs, ∃ x ∈ xs, R x z := by
    clear hsub hperm hfound hapart hlength
    induction hpaired with
    | nil => simp
    | cons hxz _ ih =>
      intro z hz
      rcases List.mem_cons.mp hz with rfl | hz
      · exact ⟨_, by simp, hxz⟩
      · obtain ⟨x, hx, hxz⟩ := ih z hz
        exact ⟨x, List.mem_cons_of_mem _ hx, hxz⟩
  exact hleft y (hperm.mem_iff.mpr hy)

end Pairing

/-! ### The laws of equality at one value -/

/-- For `x`, compared with what has `P`, the relation `R` is an equality: `x` may stand first, last or in the middle. -/
structure Congruous {α : Type} (R : α → α → Prop) (P : α → Prop) (x : α) : Prop where
  refl : R x x
  symm : ∀ {y}, P y → (R x y ↔ R y x)
  first : ∀ {y z}, P y → P z → R x y → R y z → R x z
  middle : ∀ {y z}, P y → P z → R y x → R x z → R y z
  last : ∀ {y z}, P y → P z → R y z → R z x → R y x

namespace Congruous

variable {α : Type} {R : α → α → Prop} {P : α → Prop} {x : α} {xs : List α}

theorem cons (hx : Congruous R P x) (hxs : Congruous (List.Forall₂ R) (fun ys => ∀ y ∈ ys, P y) xs) :
    Congruous (List.Forall₂ R) (fun ys => ∀ y ∈ ys, P y) (x :: xs) := by
  refine ⟨.cons hx.refl hxs.refl, fun {ys} hys => ?_, fun hys hzs h h' => ?_, fun hys hzs h h' => ?_,
    fun hys hzs h h' => ?_⟩
  · cases ys with
    | nil => simp
    | cons y ys =>
      obtain ⟨hy, hys⟩ := List.forall_mem_cons.mp hys
      rw [List.forall₂_cons, List.forall₂_cons, hx.symm hy, hxs.symm hys]
  · obtain ⟨y, ys, hxy, hxys, rfl⟩ := List.forall₂_cons_left_iff.mp h
    obtain ⟨z, zs, hyz, hyzs, rfl⟩ := List.forall₂_cons_left_iff.mp h'
    obtain ⟨hy, hys⟩ := List.forall_mem_cons.mp hys
    obtain ⟨hz, hzs⟩ := List.forall_mem_cons.mp hzs
    exact .cons (hx.first hy hz hxy hyz) (hxs.first hys hzs hxys hyzs)
  · obtain ⟨y, ys, hyx, hyxs, rfl⟩ := List.forall₂_cons_right_iff.mp h
    obtain ⟨z, zs, hxz, hxzs, rfl⟩ := List.forall₂_cons_left_iff.mp h'
    obtain ⟨hy, hys⟩ := List.forall_mem_cons.mp hys
    obtain ⟨hz, hzs⟩ := List.forall_mem_cons.mp hzs
    exact .cons (hx.middle hy hz hyx hxz) (hxs.middle hys hzs hyxs hxzs)
  · obtain ⟨z, zs, hzx, hzxs, rfl⟩ := List.forall₂_cons_right_iff.mp h'
    obtain ⟨y, ys, hyz, hyzs, rfl⟩ := List.forall₂_cons_right_iff.mp h
    obtain ⟨hy, hys⟩ := List.forall_mem_cons.mp hys
    obtain ⟨hz, hzs⟩ := List.forall_mem_cons.mp hzs
    exact .cons (hx.last hy hz hyz hzx) (hxs.last hys hzs hyzs hzxs)

/-- Lists are compared item by item. -/
theorem forall₂ (h : ∀ x ∈ xs, Congruous R P x) : Congruous (List.Forall₂ R) (fun ys => ∀ y ∈ ys, P y) xs := by
  induction xs with
  | nil =>
    refine ⟨.nil, fun _ => ?_, fun _ _ hxy hyz => ?_, fun _ _ hyx hxz => ?_, fun _ _ hyz hzx => ?_⟩
    · rw [List.forall₂_nil_left_iff, List.forall₂_nil_right_iff]
    · rwa [List.forall₂_nil_left_iff.mp hxy] at hyz
    · rwa [← List.forall₂_nil_right_iff.mp hyx] at hxz
    · rwa [List.forall₂_nil_right_iff.mp hzx] at hyz
  | cons x xs ih =>
    obtain ⟨hx, hxs⟩ := List.forall_mem_cons.mp h
    exact hx.cons (ih hxs)

/-- Lists of different items are compared by what they contain: one is found in the other, which is of one length with
    it. -/
theorem found (h : ∀ x ∈ xs, Congruous R P x) (hxs : ∀ x ∈ xs, P x) (hdistinct : xs.Pairwise fun a b => ¬R a b) :
    Congruous (fun as bs => as.length = bs.length ∧ ∀ a ∈ as, ∃ b ∈ bs, R b a)
      (fun ys => (∀ y ∈ ys, P y) ∧ ys.Pairwise fun a b => ¬R a b) xs := by
  refine ⟨⟨rfl, fun x hx => ⟨x, hx, (h x hx).refl⟩⟩, fun {ys} hys => ⟨fun hxy => ?_, fun hyx => ?_⟩,
    fun {ys zs} hys hzs hxy hyz => ?_, fun {ys zs} hys hzs hyx hxz => ?_, fun {ys zs} hys hzs hyz hzx => ?_⟩
  · -- two items of `xs` with the same item of `ys` would be equal through it
    have hapart : xs.Pairwise fun a b => ∀ y ∈ ys, R y a → ¬R y b := by
      refine hdistinct.imp_of_mem fun {a b} ha hb hne y hy hya hyb => hne ?_
      exact (h a ha).first (hys.1 y hy) (hxs b hb) (((h a ha).symm (hys.1 y hy)).mpr hya) hyb
    refine ⟨hxy.1.symm, fun y hy => ?_⟩
    obtain ⟨x, hx, hyx⟩ := exists_finder hxy.2 hapart (Nat.le_of_eq hxy.1.symm) y hy
    exact ⟨x, hx, ((h x hx).symm (hys.1 y hy)).mpr hyx⟩
  · have hapart : ys.Pairwise fun a b => ∀ x ∈ xs, R x a → ¬R x b := by
      refine hys.2.imp_of_mem fun {a b} ha hb hne x hx hxa hxb => hne ?_
      exact (h x hx).middle (hys.1 a ha) (hys.1 b hb) (((h x hx).symm (hys.1 a ha)).mp hxa) hxb
    refine ⟨hyx.1.symm, fun x hx => ?_⟩
    obtain ⟨y, hy, hxy⟩ := exists_finder hyx.2 hapart (Nat.le_of_eq hyx.1.symm) x hx
    exact ⟨y, hy, ((h x hx).symm (hys.1 y hy)).mp hxy⟩
  · refine ⟨hxy.1.trans hyz.1, fun x hx => ?_⟩
    obtain ⟨y, hy, hyx⟩ := hxy.2 x hx
    obtain ⟨z, hz, hzy⟩ := hyz.2 y hy
    exact ⟨z, hz, (h x hx).last (hzs.1 z hz) (hys.1 y hy) hzy hyx⟩
  · refine ⟨hyx.1.trans hxz.1, fun y hy => ?_⟩
    obtain ⟨x, hx, hxy⟩ := hyx.2 y hy
    obtain ⟨z, hz, hzx⟩ := hxz.2 x hx
    exact ⟨z, hz, (h x hx).middle (hzs.1 z hz) (hys.1 y hy) hzx hxy⟩
  · refine ⟨hyz.1.trans hzx.1, fun y hy => ?_⟩
    obtain ⟨z, hz, hzy⟩ := hyz.2 y hy
    obtain ⟨x, hx, hxz⟩ := hzx.2 z hz
    exact ⟨x, hx, (h x hx).first (hzs.1 z hz) (hys.1 y hy) hxz hzy⟩

/-- What is an equality on `α` is one on a part of `β` that shows `α` and is kept apart from the rest. -/
theorem image {β : Type} {S : β → β → Prop} {Q : β → Prop} {f : α → β} (h : Congruous R P x)
    (hiff : ∀ a b, S (f a) (f b) ↔ R a b) (hleft : ∀ {a y}, Q y → S (f a) y → ∃ b, P b ∧ f b = y)
    (hright : ∀ {a y}, Q y → S y (f a) → ∃ b, P b ∧ f b = y) : Congruous S Q (f x) where
  refl := (hiff x x).mpr h.refl
  symm hy := by
    constructor
    · intro hxy
      obtain ⟨b, hb, rfl⟩ := hleft hy hxy
      exact (hiff b x).mpr ((h.symm hb).mp ((hiff x b).mp hxy))
    · intro hyx
      obtain ⟨b, hb, rfl⟩ := hright hy hyx
      exact (hiff x b).mpr ((h.symm hb).mpr ((hiff b x).mp hyx))
  first hy hz hxy hyz := by
    obtain ⟨b, hb, rfl⟩ := hleft hy hxy
    obtain ⟨c, hc, rfl⟩ := hleft hz hyz
    exact (hiff x c).mpr (h.first hb hc ((hiff x b).mp hxy) ((hiff b c).mp hyz))
  middle hy hz hyx hxz := by
    obtain ⟨b, hb, rfl⟩ := hright hy hyx
    obtain ⟨c, hc, rfl⟩ := hleft hz hxz
    exact (hiff b c).mpr (h.middle hb hc ((hiff b x).mp hyx) ((hiff x c).mp hxz))
  last hy hz hyz hzx := by
    obtain ⟨c, hc, rfl⟩ := hright hz hzx
    obtain ⟨b, hb, rfl⟩ := hright hy hyz
    exact (hiff b x).mpr (h.last hb hc ((hiff b c).mp hyz) ((hiff c x).mp hzx))

end Congruous

/-! ### What equality compares -/

theorem Double.sameNumber_iff {a b : Double} :
    a.sameNumber b = true ↔ a.units = b.units ∧ (a.units = 0 ∨ a.negative = b.negative) := by
  simp [sameNumber]

theorem Double.sameNumber_comm (a b : Double) : a.sameNumber b = b.sameNumber a := by
  rw [Bool.eq_iff_iff, sameNumber_iff, sameNumber_iff]
  constructor <;> rintro ⟨hunits, hsign⟩
  · exact ⟨hunits.symm, hsign.imp (hunits ▸ ·) Eq.symm⟩
  · exact ⟨hunits.symm, hsign.imp (hunits ▸ ·) Eq.symm⟩


namespace Value

theorem anySame_eq (swapped : Bool) (xs : List Value) (y : Value) :
    anySame swapped xs y = xs.any fun x => same swapped x y := by
  induction xs with
  | nil => rw [anySame, List.any_nil]
  | cons x xs ih => rw [anySame, List.any_cons, ih]

theorem eachIn_eq (swapped : Bool) (xs ys : List Value) :
    eachIn swapped xs ys = xs.all fun x => ys.any fun y => same swapped x y := by
  induction xs with
  | nil => rw [eachIn, List.all_nil]
  | cons x xs ih => rw [eachIn, List.all_cons, ih]

theorem sameAll_iff (swapped : Bool) {xs ys : List Value} :
    sameAll swapped xs ys = true ↔ List.Forall₂ (fun x y => same swapped x y = true) xs ys := by
  induction xs generalizing ys with
  | nil => cases ys <;> simp [sameAll]
  | cons x xs ih => cases ys <;> simp [sameAll, ih]

theorem sameEntries_iff (swapped : Bool) {xs ys : List (Key × Value)} :
    sameEntries swapped xs ys = true ↔ List.Forall₂ (fun x y => x.1 = y.1 ∧ same swapped x.2 y.2 = true) xs ys := by
  induction xs generalizing ys with
  | nil => cases ys <;> simp [sameEntries]
  | cons x xs ih =>
    obtain ⟨k, x⟩ := x
    cases ys with
    | nil => simp [sameEntries]
    | cons y ys =>
      obtain ⟨l, y⟩ := y
      simp [sameEntries, ih, and_assoc]

theorem sameAll_flip {swapped : Bool} {xs : List Value} (h : ∀ x ∈ xs, ∀ y, same swapped x y = same (!swapped) y x)
    (ys : List Value) : sameAll swapped xs ys = sameAll (!swapped) ys xs := by
  induction xs generalizing ys with
  | nil => cases ys <;> simp [sameAll]
  | cons x xs ih =>
    obtain ⟨hx, hxs⟩ := List.forall_mem_cons.mp h
    cases ys with
    | nil => simp [sameAll]
    | cons y ys => rw [sameAll, sameAll, hx, ih hxs]

theorem sameEntries_flip {swapped : Bool} {xs : List (Key × Value)}
    (h : ∀ x ∈ xs, ∀ y, same swapped x.2 y = same (!swapped) y x.2) (ys : List (Key × Value)) :
    sameEntries swapped xs ys = sameEntries (!swapped) ys xs := by
  induction xs generalizing ys with
  | nil => cases ys <;> simp [sameEntries]
  | cons x xs ih =>
    obtain ⟨hx, hxs⟩ := List.forall_mem_cons.mp h
    cases ys with
    | nil => simp [sameEntries]
    | cons y ys => rw [sameEntries, sameEntries, hx, ih hxs, Bool.beq_comm]

theorem same_sets_iff {xs ys : List Value} :
    same false (set xs) (set ys) = true ↔ xs.length = ys.length ∧ ∀ x ∈ xs, ∃ y ∈ ys, same true x y = true := by
  rw [same.eq_def]
  simp [eachIn_eq]

theorem same_sets_swapped_iff {xs ys : List Value} :
    same true (set xs) (set ys) = true ↔ xs.length = ys.length ∧ ∀ y ∈ ys, ∃ x ∈ xs, same false x y = true := by
  rw [same.eq_def]
  simp [anySame_eq]

theorem sameSets_flip {xs : List Value} (h : ∀ x ∈ xs, ∀ (swapped : Bool) y, same swapped x y = same (!swapped) y x)
    (swapped : Bool) (ys : List Value) : same swapped (set xs) (set ys) = same (!swapped) (set ys) (set xs) := by
  have hfound : ∀ x ∈ xs, ((∃ y ∈ ys, same true x y = true) ↔ ∃ y ∈ ys, same false y x = true) :=
    fun x hx => by simp only [h x hx true, Bool.not_true]
  have hfinds : ∀ y, (∃ x ∈ xs, same false x y = true) ↔ ∃ x ∈ xs, same true y x = true :=
    fun y => exists_congr fun x => and_congr_right fun hx => by rw [h x hx false, Bool.not_false]
  rw [Bool.eq_iff_iff]
  cases swapped with
  | false => rw [same_sets_iff, Bool.not_false, same_sets_swapped_iff, eq_comm, forall₂_congr hfound]
  | true => rw [same_sets_swapped_iff, Bool.not_true, same_sets_iff, eq_comm, forall₂_congr fun y _ => hfinds y]

mutual

/-- It does not matter which of two values stands first, if what is asked is turned round too. -/
theorem same_flip : (x : Value) → ∀ (swapped : Bool) (y : Value), same swapped x y = same (!swapped) y x
  | vector xs => fun swapped y => by
    rw [same.eq_def, same.eq_def _ y]
    cases y with
    | vector ys => exact sameAll_flip (fun x hx => same_flip_items xs x hx swapped) ys
    | _ => rfl
  | set xs => fun swapped y => by
    cases y with
    | set ys => exact sameSets_flip (same_flip_items xs) swapped ys
    | _ =>
      rw [same.eq_def, same.eq_def _ _ (set xs)]
  | map xs => fun swapped y => by
    rw [same.eq_def, same.eq_def _ y]
    cases y with
    | map ys => exact sameEntries_flip (fun x hx => same_flip_entries xs x hx swapped) ys
    | _ => rfl
  | int n => fun swapped y => by
    rw [same.eq_def, same.eq_def _ y]
    cases y with
    | int m => exact Bool.beq_comm
    | _ => rfl
  | double d => fun swapped y => by
    rw [same.eq_def, same.eq_def _ y]
    cases y with
    | double e => exact d.sameNumber_comm e
    | _ => rfl
  | nil | bool _ | string _ | keyword _ | form _ | var _ | function _ _ | object _ => fun swapped y => by
    rw [same.eq_def, same.eq_def _ y]
    cases y <;> first | rfl | exact Bool.beq_comm

theorem same_flip_items : (xs : List Value) → ∀ x ∈ xs, ∀ (swapped : Bool) (y : Value),
    same swapped x y = same (!swapped) y x
  | [] => by simp
  | x :: xs => List.forall_mem_cons.mpr ⟨same_flip x, same_flip_items xs⟩

theorem same_flip_entries : (xs : List (Key × Value)) → ∀ x ∈ xs, ∀ (swapped : Bool) (y : Value),
    same swapped x.2 y = same (!swapped) y x.2
  | [] => by simp
  | (_, x) :: xs => List.forall_mem_cons.mpr ⟨same_flip x, same_flip_entries xs⟩

end

variable {x y z : Value} {xs ys : List Value}

theorem same_true (x y : Value) : same true x y = y.equals x := by
  rw [same_flip x, Bool.not_true, equals]

theorem equals_vectors_iff : (vector xs).equals (vector ys) = true ↔ List.Forall₂ (fun x y => x.equals y = true) xs ys := by
  rw [equals, same.eq_def]
  exact sameAll_iff false

theorem equals_sets_iff :
    (set xs).equals (set ys) = true ↔ xs.length = ys.length ∧ ∀ x ∈ xs, ∃ y ∈ ys, y.equals x = true := by
  simp only [equals, same_sets_iff, same_true]

theorem equals_maps_iff {xs ys : List (Key × Value)} :
    (map xs).equals (map ys) = true ↔ List.Forall₂ (fun x y => x.1 = y.1 ∧ x.2.equals y.2 = true) xs ys := by
  rw [equals, same.eq_def]
  exact sameEntries_iff false

/-! ### Exact values -/

/-- What tells a value that is neither a collection nor a float from others: its content, or its identity. -/
inductive Mark where
  | nil
  | bool (b : Bool)
  | int (n : Int64)
  | string (text : String)
  | keyword (name : String)
  | form (id : FormId)
  | var (index : Nat)
  | function (identity : Nat)
  | object (identity : Nat)

/-- The mark of a value, if it has one. -/
def mark? : Value → Option Mark
  | nil => some .nil
  | bool b => some (.bool b)
  | int n => some (.int n)
  | string text => some (.string text)
  | keyword name => some (.keyword name)
  | form code => some (.form code.id)
  | var v => some (.var v.index)
  | function identity _ => some (.function identity)
  | object o => some (.object o.identity)
  | double _ | vector _ | set _ | map _ => none

/-- A value without floats, in which every set has items that differ from one another. -/
inductive IsExact : Value → Prop
  | atom {v : Value} {mark : Mark} (hmark : v.mark? = some mark) : IsExact v
  | vector {items : List Value} (hitems : ∀ item ∈ items, IsExact item) : IsExact (.vector items)
  | set {items : List Value} (hitems : ∀ item ∈ items, IsExact item)
      (hdistinct : items.Pairwise fun a b => a.equals b = false) : IsExact (.set items)
  | map {entries : List (Key × Value)} (hvalues : ∀ entry ∈ entries, IsExact entry.2) : IsExact (.map entries)

theorem IsExact.ne_double (h : x.IsExact) (d : Double) : x ≠ .double d := by
  rintro rfl
  cases h with
  | atom hmark => cases hmark

theorem same_iff_mark {mark : Mark} (hx : x.mark? = some mark) (hy : y.IsExact) (swapped : Bool) :
    same swapped x y = true ↔ y.mark? = some mark := by
  have hne := hy.ne_double
  clear hy
  rw [same.eq_def]
  cases x <;> cases hx <;> cases y <;> simp [mark?] at hne ⊢ <;> exact eq_comm

theorem congruous_of_mark {mark : Mark} (hx : x.mark? = some mark) :
    Congruous (fun x y => x.equals y = true) IsExact x := by
  have hleft : ∀ {y : Value}, y.IsExact → (x.equals y = true ↔ y.mark? = some mark) :=
    fun hy => same_iff_mark hx hy false
  have hright : ∀ {y : Value}, y.IsExact → (y.equals x = true ↔ y.mark? = some mark) := fun {y} hy => by
    rw [← same_true]
    exact same_iff_mark hx hy true
  refine ⟨(hleft (.atom hx)).mpr hx, fun hy => (hleft hy).trans (hright hy).symm, fun hy hz hxy hyz => ?_,
    fun hy hz hyx hxz => ?_, fun {y z} hy hz hyz hzx => ?_⟩
  · exact (hleft hz).mpr ((same_iff_mark ((hleft hy).mp hxy) hz false).mp hyz)
  · exact (same_iff_mark ((hright hy).mp hyx) hz false).mpr ((hleft hz).mp hxz)
  · rw [← same_true] at hyz
    exact (hright hy).mpr ((same_iff_mark ((hright hz).mp hzx) hy true).mp hyz)

theorem IsExact.exists_vector {swapped : Bool} (hy : y.IsExact) (h : same swapped (.vector xs) y = true) :
    ∃ ys, (∀ item ∈ ys, item.IsExact) ∧ .vector ys = y := by
  rw [same.eq_def] at h
  cases y with
  | vector ys =>
    cases hy with
    | atom hmark => cases hmark
    | vector hitems => exact ⟨ys, hitems, rfl⟩
  | _ => cases h

theorem IsExact.exists_set {swapped : Bool} (hy : y.IsExact) (h : same swapped (.set xs) y = true) :
    ∃ ys, ((∀ item ∈ ys, item.IsExact) ∧ ys.Pairwise fun a b => ¬a.equals b = true) ∧ .set ys = y := by
  rw [same.eq_def] at h
  cases y with
  | set ys =>
    cases hy with
    | atom hmark => cases hmark
    | set hitems hdistinct => exact ⟨ys, ⟨hitems, by simpa using hdistinct⟩, rfl⟩
  | _ => cases h

theorem IsExact.exists_map {swapped : Bool} {xs : List (Key × Value)} (hy : y.IsExact)
    (h : same swapped (.map xs) y = true) : ∃ ys, (∀ entry ∈ ys, entry.2.IsExact) ∧ .map ys = y := by
  rw [same.eq_def] at h
  cases y with
  | map ys =>
    cases hy with
    | atom hmark => cases hmark
    | map hvalues => exact ⟨ys, hvalues, rfl⟩
  | _ => cases h

theorem congruous_entry {entry : Key × Value} (h : Congruous (fun x y => x.equals y = true) IsExact entry.2) :
    Congruous (fun a b => a.1 = b.1 ∧ a.2.equals b.2 = true) (fun entry => entry.2.IsExact) entry :=
  ⟨⟨rfl, h.refl⟩, fun hy => and_congr eq_comm (h.symm hy),
    fun hy hz hxy hyz => ⟨hxy.1.trans hyz.1, h.first hy hz hxy.2 hyz.2⟩,
    fun hy hz hyx hxz => ⟨hyx.1.trans hxz.1, h.middle hy hz hyx.2 hxz.2⟩,
    fun hy hz hyz hzx => ⟨hyz.1.trans hzx.1, h.last hy hz hyz.2 hzx.2⟩⟩

theorem IsExact.congruous (h : x.IsExact) : Congruous (fun x y => x.equals y = true) IsExact x := by
  induction h with
  | atom hmark => exact congruous_of_mark hmark
  | vector _ ih =>
    refine (Congruous.forall₂ ih).image (fun _ _ => equals_vectors_iff) (fun hy h => hy.exists_vector h) fun hy h => ?_
    rw [← same_true] at h
    exact hy.exists_vector h
  | set hitems hdistinct ih =>
    refine (Congruous.found ih hitems (by simpa using hdistinct)).image (fun _ _ => equals_sets_iff)
      (fun hy h => hy.exists_set h) fun hy h => ?_
    rw [← same_true] at h
    exact hy.exists_set h
  | map _ ih =>
    refine (Congruous.forall₂ fun entry hentry => congruous_entry (ih entry hentry)).image (fun _ _ => equals_maps_iff)
      (fun hy h => hy.exists_map h) fun hy h => ?_
    rw [← same_true] at h
    exact hy.exists_map h

theorem IsExact.equals_self (hx : x.IsExact) : x.equals x = true :=
  hx.congruous.refl

theorem IsExact.equals_comm (hx : x.IsExact) (hy : y.IsExact) : x.equals y = true ↔ y.equals x = true :=
  hx.congruous.symm hy

theorem IsExact.equals_trans (hx : x.IsExact) (hy : y.IsExact) (hz : z.IsExact) (hxy : x.equals y = true)
    (hyz : y.equals z = true) : x.equals z = true :=
  hx.congruous.first hy hz hxy hyz

/-! ### Sets made of lists -/

/-- The values that equal none before them. -/
def firsts (values : List Value) : List Value :=
  (values.zipIdx.filter fun entry => !contains (values.take entry.2) entry.1).map (·.1)

theorem contains_iff : contains xs y = true ↔ ∃ x ∈ xs, x.equals y = true := by
  simp [contains]

theorem pairwise_distinctOnto {kept : List Value} (h : kept.Pairwise fun a b => a.equals b = false) (rest : List Value) :
    (distinctOnto kept rest).Pairwise fun a b => a.equals b = false := by
  induction rest generalizing kept with
  | nil => exact h
  | cons v rest ih =>
    rw [distinctOnto]
    split
    · exact ih h
    · next hnew =>
      refine ih (List.pairwise_append.mpr ⟨h, List.pairwise_singleton _ v, fun a ha b hb => ?_⟩)
      obtain rfl := List.mem_singleton.mp hb
      exact Bool.eq_false_iff.mpr fun heq => hnew (contains_iff.mpr ⟨a, ha, heq⟩)

theorem mem_distinctOnto_of_mem {kept : List Value} (h : x ∈ kept) (rest : List Value) : x ∈ distinctOnto kept rest := by
  induction rest generalizing kept with
  | nil => exact h
  | cons v rest ih =>
    rw [distinctOnto]
    split
    · exact ih h
    · exact ih (List.mem_append_left _ h)

theorem exists_mem_distinctOnto {rest : List Value} (hx : x ∈ rest) (hself : x.equals x = true) (kept : List Value) :
    ∃ item ∈ distinctOnto kept rest, item.equals x = true := by
  induction rest generalizing kept with
  | nil => cases hx
  | cons v rest ih =>
    rw [distinctOnto]
    rcases List.mem_cons.mp hx with rfl | hx
    · split
      · next hold =>
        obtain ⟨old, hmem, heq⟩ := contains_iff.mp hold
        exact ⟨old, mem_distinctOnto_of_mem hmem rest, heq⟩
      · exact ⟨x, mem_distinctOnto_of_mem (by simp) rest, hself⟩
    · split <;> exact ih hx _

/-- A value that equals one of `seen` equals one that was kept of them, so what is left out has an equal before it. -/
theorem distinctOnto_eq (seen kept rest : List Value) (hseen : ∀ v ∈ seen ++ rest, v.IsExact)
    (hkept : ∀ v ∈ seen, ∃ old ∈ kept, old.equals v = true) (hsub : ∀ v ∈ kept, v ∈ seen) :
    distinctOnto kept rest = kept ++
      ((rest.zipIdx seen.length).filter fun entry => !contains ((seen ++ rest).take entry.2) entry.1).map (·.1) := by
  induction rest generalizing seen kept with
  | nil => simp [distinctOnto]
  | cons v rest ih =>
    have hsplit : seen ++ v :: rest = (seen ++ [v]) ++ rest := by simp
    have hv : v.IsExact := hseen v (by simp)
    have hsame : contains kept v = contains seen v := by
      rw [Bool.eq_iff_iff, contains_iff, contains_iff]
      constructor
      · rintro ⟨old, hold, heq⟩
        exact ⟨old, hsub old hold, heq⟩
      · rintro ⟨u, hu, heq⟩
        obtain ⟨old, hold, hequals⟩ := hkept u hu
        have hexact : ∀ w ∈ seen, w.IsExact := fun w hw => hseen w (List.mem_append_left _ hw)
        exact ⟨old, hold, (hexact old (hsub old hold)).equals_trans (hexact u hu) hv hequals heq⟩
    have htake : (seen ++ v :: rest).take seen.length = seen := by simp
    rw [distinctOnto, hsame, List.zipIdx_cons, List.filter_cons, htake]
    cases hold : contains seen v with
    | true =>
      have hsub' : ∀ u ∈ kept, u ∈ seen ++ [v] := fun u hu => List.mem_append_left _ (hsub u hu)
      rw [if_pos rfl, ih (seen ++ [v]) kept (hsplit ▸ hseen) ?_ hsub', hsplit]
      · simp
      · intro u hu
        rcases List.mem_append.mp hu with hu | hu
        · exact hkept u hu
        · obtain rfl := List.mem_singleton.mp hu
          exact contains_iff.mp (hsame.trans hold)
    | false =>
      rw [if_neg (by simp), ih (seen ++ [v]) (kept ++ [v]) (hsplit ▸ hseen) ?_ ?_, hsplit]
      · simp
      · intro u hu
        rcases List.mem_append.mp hu with hu | hu
        · obtain ⟨old, hmem, heq⟩ := hkept u hu
          exact ⟨old, List.mem_append_left _ hmem, heq⟩
        · obtain rfl := List.mem_singleton.mp hu
          exact ⟨u, by simp, hv.equals_self⟩
      · intro u hu
        exact (List.mem_append.mp hu).elim (fun hu => List.mem_append_left _ (hsub u hu)) (List.mem_append_right _)

theorem ofItems_eq_firsts (h : ∀ x ∈ xs, x.IsExact) : ofItems xs = .set (firsts xs) := by
  have hfirsts := distinctOnto_eq [] [] xs (by simpa using h) (by simp) (by simp)
  rw [ofItems, hfirsts]
  simp [firsts]

theorem mem_of_mem_firsts (h : x ∈ firsts xs) : x ∈ xs := by
  obtain ⟨entry, hentry, rfl⟩ := List.mem_map.mp h
  exact (List.mem_zipIdx (List.mem_filter.mp hentry).1).2.2 ▸ List.getElem_mem _

theorem pairwise_firsts (h : ∀ x ∈ xs, x.IsExact) : (firsts xs).Pairwise fun a b => a.equals b = false := by
  have hpairs := pairwise_distinctOnto .nil xs
  rwa [Value.set.inj ((ofItems.eq_1 xs).symm.trans (ofItems_eq_firsts h))] at hpairs

theorem exists_mem_firsts (h : ∀ x ∈ xs, x.IsExact) (hx : x ∈ xs) : ∃ item ∈ firsts xs, item.equals x = true := by
  obtain ⟨item, hitem, heq⟩ := exists_mem_distinctOnto hx (h x hx).equals_self []
  rw [Value.set.inj ((ofItems.eq_1 xs).symm.trans (ofItems_eq_firsts h))] at hitem
  exact ⟨item, hitem, heq⟩

theorem length_firsts_le (hxs : ∀ x ∈ xs, x.IsExact) (hys : ∀ y ∈ ys, y.IsExact)
    (hfound : ∀ x ∈ xs, ∃ y ∈ ys, x.equals y = true) : (firsts xs).length ≤ (firsts ys).length := by
  have hx : ∀ a ∈ firsts xs, a.IsExact := fun a ha => hxs a (mem_of_mem_firsts ha)
  have hy : ∀ b ∈ firsts ys, b.IsExact := fun b hb => hys b (mem_of_mem_firsts hb)
  refine length_le_of_found (R := fun a b => b.equals a = true) (fun a ha => ?_) ?_
  · obtain ⟨y, hmem, heq⟩ := hfound a (mem_of_mem_firsts ha)
    obtain ⟨b, hb, hby⟩ := exists_mem_firsts hys hmem
    exact ⟨b, hb, (hy b hb).equals_trans (hys y hmem) (hx a ha) hby (((hx a ha).equals_comm (hys y hmem)).mp heq)⟩
  · refine (pairwise_firsts hxs).imp_of_mem fun {a b} ha hb hne c hc hca hcb => ?_
    have hab := (hx a ha).equals_trans (hy c hc) (hx b hb) (((hy c hc).equals_comm (hx a ha)).mp hca) hcb
    rw [hne] at hab
    cases hab

/-- Sets are equal if each of the values that one is made of is equal to one of the values that the other is made of. -/
theorem equals_ofItems_iff (hxs : ∀ x ∈ xs, x.IsExact) (hys : ∀ y ∈ ys, y.IsExact) :
    (ofItems xs).equals (ofItems ys) = true ↔
      (∀ x ∈ xs, ∃ y ∈ ys, x.equals y = true) ∧ ∀ y ∈ ys, ∃ x ∈ xs, y.equals x = true := by
  have hset : ∀ {vs : List Value}, (∀ v ∈ vs, v.IsExact) → (Value.set (firsts vs)).IsExact :=
    fun h => .set (fun v hv => h v (mem_of_mem_firsts hv)) (pairwise_firsts h)
  have hfound : ∀ {us vs : List Value}, (∀ u ∈ us, u.IsExact) → (∀ v ∈ vs, v.IsExact) →
      (Value.set (firsts us)).equals (.set (firsts vs)) = true → ∀ u ∈ us, ∃ v ∈ vs, u.equals v = true := by
    intro us vs hus hvs heq u hu
    obtain ⟨a, ha, hau⟩ := exists_mem_firsts hus hu
    obtain ⟨b, hb, hba⟩ := (equals_sets_iff.mp heq).2 a ha
    have hv := hvs b (mem_of_mem_firsts hb)
    have hbu := hv.equals_trans (hus a (mem_of_mem_firsts ha)) (hus u hu) hba hau
    exact ⟨b, mem_of_mem_firsts hb, (hv.equals_comm (hus u hu)).mp hbu⟩
  rw [ofItems_eq_firsts hxs, ofItems_eq_firsts hys]
  constructor
  · intro heq
    exact ⟨hfound hxs hys heq, hfound hys hxs (((hset hxs).equals_comm (hset hys)).mp heq)⟩
  · rintro ⟨hxy, hyx⟩
    refine equals_sets_iff.mpr ⟨Nat.le_antisymm (length_firsts_le hxs hys hxy) (length_firsts_le hys hxs hyx),
      fun a ha => ?_⟩
    have hx := hxs a (mem_of_mem_firsts ha)
    obtain ⟨y, hy, hay⟩ := hxy a (mem_of_mem_firsts ha)
    obtain ⟨b, hb, hby⟩ := exists_mem_firsts hys hy
    have hya := (hx.equals_comm (hys y hy)).mp hay
    exact ⟨b, hb, (hys b (mem_of_mem_firsts hb)).equals_trans (hys y hy) hx hby hya⟩

/-- Equality is reflexive, symmetric and transitive on exact values. A set of such values keeps the first of equal ones,
    in order; no two of its items are equal, each value has an equal item, and sets are equal exactly if each value of
    either list has an equal in the other. -/
theorem exact_equality :
    (∀ x : Value, x.IsExact → x.equals x = true) ∧
    (∀ x y : Value, x.IsExact → y.IsExact → x.equals y = true → y.equals x = true) ∧
    (∀ x y z : Value, x.IsExact → y.IsExact → z.IsExact → x.equals y = true → y.equals z = true →
      x.equals z = true) ∧
    ∀ xs ys : List Value, (∀ x ∈ xs, x.IsExact) → (∀ y ∈ ys, y.IsExact) →
      ofItems xs = .set (firsts xs) ∧
      ((firsts xs).Pairwise fun a b => a.equals b = false ∧ b.equals a = false) ∧
      (∀ x ∈ xs, ∃ item ∈ firsts xs, item.equals x = true) ∧
      ((ofItems xs).equals (ofItems ys) = true ↔
        (∀ x ∈ xs, ∃ y ∈ ys, x.equals y = true) ∧ ∀ y ∈ ys, ∃ x ∈ xs, y.equals x = true) := by
  refine ⟨fun x hx => hx.equals_self, fun x y hx hy => (hx.equals_comm hy).mp, fun x y z hx => hx.equals_trans,
    fun xs ys hxs hys => ⟨ofItems_eq_firsts hxs, ?_, fun x => exists_mem_firsts hxs, equals_ofItems_iff hxs hys⟩⟩
  refine (pairwise_firsts hxs).imp_of_mem fun {a b} ha hb hne => ⟨hne, ?_⟩
  rw [← hne, Bool.eq_iff_iff]
  exact (hxs b (mem_of_mem_firsts hb)).equals_comm (hxs a (mem_of_mem_firsts ha))

/-- Two sets that differ in the order of their items only, and between them a map that holds a function. -/
def mixedItems : List Value :=
  [.set [.int 1, .vector []], .map [(.keyword "k", .function 3 (.special .letIn))], .set [.vector [], .int 1]]

theorem exact_equality_mixedItems :
    (∀ x ∈ mixedItems, x.IsExact) ∧ ofItems mixedItems = .set (firsts mixedItems) ∧ (firsts mixedItems).length = 2 ∧
    (ofItems mixedItems).equals (ofItems mixedItems.reverse) = true := by
  have hitem : ∀ x ∈ [Value.int 1, .vector []], x.IsExact := by
    simp only [List.forall_mem_cons, List.not_mem_nil, false_imp_iff, implies_true, and_true]
    exact ⟨.atom rfl, .vector (by simp)⟩
  have hdistinct : ([.int 1, .vector []] : List Value).Pairwise (fun a b => a.equals b = false) ∧
      ([.vector [], .int 1] : List Value).Pairwise (fun a b => a.equals b = false) ∧ (firsts mixedItems).length = 2 := by
    decide +kernel
  obtain ⟨hset, hturned, hlength⟩ := hdistinct
  have hexact : ∀ x ∈ mixedItems, x.IsExact := by
    simp only [mixedItems, List.forall_mem_cons, List.not_mem_nil, false_imp_iff, implies_true, and_true]
    refine ⟨.set hitem hset, .map ?_, .set (fun x hx => hitem x (by simpa [or_comm] using hx)) hturned⟩
    simpa using .atom rfl
  have hreverse : ∀ x ∈ mixedItems.reverse, x.IsExact := fun x hx => hexact x (List.mem_reverse.mp hx)
  obtain ⟨hself, -, -, hsets⟩ := exact_equality
  obtain ⟨hfirsts, -, -, hequal⟩ := hsets mixedItems mixedItems.reverse hexact hreverse
  refine ⟨hexact, hfirsts, hlength, hequal.mpr ⟨fun x hx => ?_, fun x hx => ?_⟩⟩
  · exact ⟨x, List.mem_reverse.mpr hx, hself x (hexact x hx)⟩
  · exact ⟨x, List.mem_reverse.mp hx, hself x (hreverse x hx)⟩

end Value

end Lisplet
