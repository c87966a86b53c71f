import HarborSql.Theory.HashMap
import Mathlib.Data.Finset.Card

/-! Maps read in the order of their keys, and the update of the value of a key that may be new. -/

namespace HarborSql

universe u v

/-- A finite map that is read in the order of its keys. -/
abbrev BTreeMap (κ : Type u) (ν : Type v) := HashMap κ ν

namespace BTreeMap

open HashMap

variable {κ : Type u} {ν : Type v}

/-- The entries, in the order `le` of their keys. -/
def iter (le : κ → κ → Bool) (m : BTreeMap κ ν) : List (κ × ν) :=
  (m.entries.map fun e => (e.1, e.2)).mergeSort fun a b => le a.1 b.1

/-- `entry(k).or_default()`, and a change of the value in place. -/
def update [DecidableEq κ] (m : BTreeMap κ ν) (k : κ) (default : ν) (f : ν → ν) : BTreeMap κ ν :=
  m.insert k (f ((m.lookup k).getD default))

variable [DecidableEq κ] {m : BTreeMap κ ν} {le : κ → κ → Bool} {k k' : κ} {v default : ν}
  {f : ν → ν}

theorem iter_perm : (m.iter le).Perm (m.entries.map fun e => (e.1, e.2)) :=
  List.mergeSort_perm ..

theorem mem_iter : (k, v) ∈ m.iter le ↔ m.lookup k = some v := by
  rw [iter_perm.mem_iff, ← mem_entries]
  simp only [List.mem_map, Prod.mk.injEq]
  constructor
  · rintro ⟨e, he, rfl, rfl⟩
    exact he
  · exact fun h => ⟨_, h, rfl, rfl⟩

theorem map_fst_iter_perm : ((m.iter le).map (·.1)).Perm m.keys := by
  have hperm : (m.iter le).Perm _ := iter_perm
  have := hperm.map (·.1)
  rwa [List.map_map] at this

theorem nodup_map_fst_iter : ((m.iter le).map (·.1)).Nodup :=
  map_fst_iter_perm.nodup_iff.mpr m.keys_nodup

theorem length_iter (m : BTreeMap κ ν) (le : κ → κ → Bool) : (m.iter le).length = len m := by
  rw [iter_perm.length_eq, List.length_map, len]

theorem len_eq_length_keys : len m = m.keys.length := (List.length_map ..).symm

theorem mem_keys_update : k ∈ m.update k' default f ↔ k = k' ∨ k ∈ m := AList.mem_insert ..

theorem lookup_update_self :
    (m.update k default f).lookup k = some (f ((m.lookup k).getD default)) := by
  rw [update, AList.lookup_insert]

theorem lookup_update_of_ne (h : k ≠ k') : (m.update k' default f).lookup k = m.lookup k := by
  rw [update, AList.lookup_insert_ne h]

/-- A run of updates. -/
def updateAll (m : BTreeMap κ ν) (default : ν) (updates : List (κ × (ν → ν))) : BTreeMap κ ν :=
  updates.foldl (fun m (k, f) => m.update k default f) m

theorem mem_updateAll {updates : List (κ × (ν → ν))} :
    k ∈ m.updateAll default updates ↔ k ∈ m ∨ k ∈ updates.map (·.1) := by
  induction updates generalizing m with
  | nil => simp [updateAll]
  | cons update updates ih =>
    have hstep : m.updateAll default (update :: updates) =
      (m.update update.1 default update.2).updateAll default updates := rfl
    rw [hstep, ih, mem_keys_update, List.map_cons, List.mem_cons]
    tauto

/-- The value of a key is what the updates of that key made of it. -/
theorem lookup_updateAll {updates : List (κ × (ν → ν))} :
    ((m.updateAll default updates).lookup k).getD default =
      (updates.filter (·.1 = k)).foldl (fun v update => update.2 v)
        ((m.lookup k).getD default) := by
  induction updates generalizing m with
  | nil => rfl
  | cons update updates ih =>
    have hstep : m.updateAll default (update :: updates) =
      (m.update update.1 default update.2).updateAll default updates := rfl
    rw [hstep, ih]
    by_cases h : update.1 = k
    · subst h
      simp [lookup_update_self]
    · simp [h, lookup_update_of_ne (Ne.symm h)]

/-- A map has at most as many keys as any finite set that holds them. -/
theorem len_le_card {s : Finset κ} (h : ∀ k ∈ m, k ∈ s) : len m ≤ s.card := by
  rw [len_eq_length_keys, ← List.toFinset_card_of_nodup m.keys_nodup]
  exact Finset.card_le_card fun k hk => h k (List.mem_toFinset.mp hk)

/-- A map has at least as many keys as any finite set of values that its keys take under `g`. -/
theorem card_le_len {α : Type u} [DecidableEq α] (g : κ → α) {s : Finset α}
    (h : ∀ a ∈ s, ∃ k ∈ m, g k = a) : s.card ≤ len m := by
  rw [len_eq_length_keys, ← List.toFinset_card_of_nodup m.keys_nodup]
  apply le_trans (Finset.card_le_card _) Finset.card_image_le
  · exact g
  · intro a ha
    obtain ⟨k, hk, rfl⟩ := h a ha
    exact Finset.mem_image_of_mem g (List.mem_toFinset.mpr hk)

end BTreeMap

end HarborSql
