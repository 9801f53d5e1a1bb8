import Lisplet.Value.Basic
import Mathlib.Data.List.Dedup

/-! # Entries by key

What `insert` and `overlay` do to entries is told by what `get?` finds: the last value that was put under a key. This
needs no order. With increasing keys there is one entry for each key, so the keys count what was put in. Names and the
keys of maps are ordered well enough for both. -/

namespace Lisplet

/-! ### The order of keys -/

instance : Std.LawfulEqOrd Key where
  compare_self {a} := by
    cases a with
    | keyword a => exact show compare a a = .eq from Std.ReflOrd.compare_self
    | string a => exact show compare a a = .eq from Std.ReflOrd.compare_self
  eq_of_compare {a b} h := by
    cases a with
    | keyword a =>
      cases b with
      | keyword b => exact congrArg Key.keyword (Std.LawfulEqOrd.eq_of_compare (show compare a b = .eq from h))
      | string b => cases h
    | string a =>
      cases b with
      | keyword b => cases h
      | string b => exact congrArg Key.string (Std.LawfulEqOrd.eq_of_compare (show compare a b = .eq from h))

instance : Std.TransOrd Key where
  eq_swap {a b} := by
    cases a <;> cases b
    · exact Std.OrientedOrd.eq_swap (α := String)
    · rfl
    · rfl
    · exact Std.OrientedOrd.eq_swap (α := String)
  isLE_trans {a b c} hab hbc := by
    cases a <;> cases b <;> cases c
    · exact Std.TransOrd.isLE_trans (α := String) hab hbc
    · rfl
    · cases hbc
    · rfl
    · cases hab
    · cases hab
    · cases hbc
    · exact Std.TransOrd.isLE_trans (α := String) hab hbc

namespace Entries

variable {κ α : Type}

/-! ### Where entries come from -/

theorem mem_insert [Ord κ] {key : κ} {v : α} {entries : Entries κ α} {entry : κ × α}
    (h : entry ∈ entries.insert key v) : entry = (key, v) ∨ entry ∈ entries := by
  induction entries with
  | nil => exact .inl (List.mem_singleton.mp h)
  | cons first rest ih =>
    rw [insert] at h
    split at h
    · exact List.mem_cons.mp h
    · rcases List.mem_cons.mp h with rfl | h
      · exact .inl rfl
      · exact .inr (List.mem_cons_of_mem _ h)
    · rcases List.mem_cons.mp h with rfl | h
      · exact .inr (by simp)
      · rcases ih h with rfl | h
        · exact .inl rfl
        · exact .inr (List.mem_cons_of_mem _ h)

theorem mem_overlay [Ord κ] {entries other : Entries κ α} {entry : κ × α}
    (h : entry ∈ entries.overlay other) : entry ∈ entries ∨ entry ∈ other := by
  unfold overlay at h
  induction other generalizing entries with
  | nil => exact .inl h
  | cons first rest ih =>
    rcases ih h with h | h
    · rcases mem_insert h with rfl | h
      · exact .inr (by simp)
      · exact .inl h
    · exact .inr (List.mem_cons_of_mem _ h)

theorem mem_of_get? [BEq κ] {entries : Entries κ α} {key : κ} {v : α}
    (h : entries.get? key = some v) : ∃ entry ∈ entries, entry.2 = v := by
  induction entries with
  | nil => cases h
  | cons first rest ih =>
    obtain ⟨k, w⟩ := first
    simp only [get?, List.lookup_cons] at h ih
    split at h
    · exact ⟨(k, w), by simp, Option.some.inj h⟩
    · obtain ⟨entry, hentry, hv⟩ := ih h
      exact ⟨entry, List.mem_cons_of_mem _ hentry, hv⟩

/-! ### What is found -/

section Find

variable [BEq κ] [LawfulBEq κ] {entries : Entries κ α} {key name : κ}

theorem mem_keys_iff : name ∈ entries.keys ↔ (entries.get? name).isSome = true := by
  rw [get?, List.lookup_isSome_iff, keys, List.mem_map]
  simp only [beq_iff_eq]
  exact exists_congr fun entry => and_congr_right fun _ => eq_comm

variable [DecidableEq κ]

theorem get?_cons (entry : κ × α) (rest : Entries κ α) :
    get? (entry :: rest) name = if name = entry.1 then some entry.2 else rest.get? name := by
  rw [get?, List.lookup_cons]
  by_cases h : name = entry.1
  · rw [beq_iff_eq.mpr h, if_pos h]
  · rw [beq_eq_false_iff_ne.mpr h, if_neg h, get?]

theorem get?_append (others : Entries κ α) :
    get? (entries ++ others) name = (entries.get? name).or (others.get? name) := by
  induction entries with
  | nil => rfl
  | cons entry rest ih =>
    rw [List.cons_append, get?_cons, get?_cons, ih]
    split <;> rfl

theorem get?_reverse_of_nodup (h : entries.keys.Nodup) : get? entries.reverse name = entries.get? name := by
  induction entries with
  | nil => rfl
  | cons entry rest ih =>
    obtain ⟨hnot, hrest⟩ := List.nodup_cons.mp h
    rw [List.reverse_cons, get?_append, ih hrest, get?_cons, get?_cons]
    by_cases hname : name = entry.1
    · rw [if_pos hname, if_pos hname, Option.not_isSome_iff_eq_none.mp (mem_keys_iff.not.mp (hname ▸ hnot))]
      rfl
    · rw [if_neg hname, if_neg hname]
      exact Option.or_none

variable [Ord κ] [Std.LawfulEqOrd κ]

theorem get?_insert (v : α) :
    (entries.insert key v).get? name = if name = key then some v else entries.get? name := by
  induction entries with
  | nil => rw [insert, get?_cons]
  | cons entry rest ih =>
    rw [insert]
    split
    · rw [get?_cons]
    · next heq =>
      rw [get?_cons, get?_cons, Std.LawfulEqOrd.eq_of_compare heq]
      split <;> rfl
    · next hgt =>
      have hne : key ≠ entry.1 := fun h => by simp [h] at hgt
      rw [get?_cons, get?_cons, ih]
      by_cases h : name = key
      · simp [h, hne]
      · simp [h]

theorem mem_keys_insert (v : α) : name ∈ (entries.insert key v).keys ↔ name = key ∨ name ∈ entries.keys := by
  rw [mem_keys_iff, get?_insert, mem_keys_iff]
  split
  · next h => simp [h]
  · next h => simp [h]

/-- Of entries that are laid over others, the last one under a key is found. -/
theorem get?_overlay (other : Entries κ α) :
    (entries.overlay other).get? name = (get? other.reverse name).or (entries.get? name) := by
  unfold overlay
  induction other generalizing entries with
  | nil => rfl
  | cons entry rest ih =>
    rw [List.foldl_cons, ih, get?_insert, List.reverse_cons, get?_append, get?_cons, Option.or_assoc]
    split <;> rfl

theorem mem_keys_overlay (other : Entries κ α) :
    name ∈ (entries.overlay other).keys ↔ name ∈ entries.keys ∨ name ∈ other.keys := by
  unfold overlay
  induction other generalizing entries with
  | nil => simp [keys]
  | cons entry rest ih =>
    rw [List.foldl_cons, ih, mem_keys_insert, keys, keys, keys, List.map_cons, List.mem_cons]
    tauto

end Find

/-! ### Increasing keys -/

/-- The keys increase. -/
def Increasing [Ord κ] (entries : Entries κ α) : Prop :=
  entries.keys.Pairwise (compare · · = .lt)

namespace Increasing

variable [Ord κ] {entries : Entries κ α}

theorem nil : Increasing ([] : Entries κ α) := List.Pairwise.nil

variable [Std.LawfulEqOrd κ]

theorem nodup (h : entries.Increasing) : entries.keys.Nodup :=
  List.Pairwise.imp (fun hlt heq => by simp [heq] at hlt) h

variable [DecidableEq κ] [Std.TransOrd κ]

theorem insert (h : entries.Increasing) (key : κ) (v : α) : (entries.insert key v).Increasing := by
  induction entries with
  | nil => exact List.pairwise_singleton _ _
  | cons entry rest ih =>
    obtain ⟨hbefore, hrest⟩ := List.pairwise_cons.mp h
    rw [Entries.insert]
    split
    · next hlt =>
      refine List.pairwise_cons.mpr ⟨fun other hother => ?_, h⟩
      rcases List.mem_cons.mp hother with rfl | hother
      · exact hlt
      · exact Std.TransCmp.lt_trans hlt (hbefore other hother)
    · next heq =>
      rw [Std.LawfulEqOrd.eq_of_compare heq]
      exact h
    · next hgt =>
      have hfirst : compare entry.1 key = .lt := Std.OrientedCmp.lt_of_gt hgt
      refine List.pairwise_cons.mpr ⟨fun other hother => ?_, ih hrest⟩
      rcases (mem_keys_insert v).mp hother with rfl | hother
      · exact hfirst
      · exact hbefore other hother

theorem overlay (h : entries.Increasing) (other : Entries κ α) : (entries.overlay other).Increasing := by
  unfold Entries.overlay
  induction other generalizing entries with
  | nil => exact h
  | cons entry rest ih => exact ih (h.insert entry.1 entry.2)

end Increasing

/-- There are as many entries as different keys were put in. -/
theorem length_overlay_nil [DecidableEq κ] [Ord κ] [Std.LawfulEqOrd κ] [Std.TransOrd κ] (other : Entries κ α) :
    (overlay [] other).length = other.keys.dedup.length := by
  have hnodup : (overlay [] other).keys.Nodup := Increasing.nodup (Increasing.overlay Increasing.nil other)
  have hperm : (overlay [] other).keys.Perm other.keys.dedup := by
    refine (List.perm_ext_iff_of_nodup hnodup (List.nodup_dedup _)).mpr fun key => ?_
    rw [mem_keys_overlay, List.mem_dedup]
    simp [keys]
  rw [← hperm.length_eq, keys, List.length_map]

end Entries

end Lisplet
