import Mathlib.Data.List.AList

/-! Finite maps with a length and a `retain`, on top of Mathlib's association lists, whose
keys are distinct by construction. -/

namespace HarborSql

universe u v

/-- A finite map from `κ` to `ν`. -/
abbrev HashMap (κ : Type u) (ν : Type v) := AList fun _ : κ => ν

namespace HashMap

variable {κ : Type u} {ν : Type v}

def len (m : HashMap κ ν) : Nat := m.entries.length

def values (m : HashMap κ ν) : List ν := m.entries.map fun e => e.2

/-- Keep the entries that satisfy `keep`. -/
def retain (m : HashMap κ ν) (keep : κ → ν → Bool) : HashMap κ ν where
  entries := m.entries.filter fun e => keep e.1 e.2
  nodupKeys := m.nodupKeys.sublist List.filter_sublist

/-- `get_mut`, and an assignment to the value. -/
def modify [DecidableEq κ] (m : HashMap κ ν) (k : κ) (f : ν → ν) : HashMap κ ν :=
  match m.lookup k with
  | some v => m.insert k (f v)
  | none => m

/-- `remove`, for each of the keys. -/
def eraseAll [DecidableEq κ] (m : HashMap κ ν) (ks : List κ) : HashMap κ ν :=
  ks.foldl (fun m k => m.erase k) m

/-- `insert` of one value, for each of the keys. -/
def insertAll [DecidableEq κ] (m : HashMap κ ν) (ks : List κ) (v : ν) : HashMap κ ν :=
  ks.foldl (fun m k => m.insert k v) m

variable [DecidableEq κ] {m : HashMap κ ν} {k k' : κ} {v w : ν} {keep : κ → ν → Bool}

theorem mem_entries : (⟨k, v⟩ : Sigma fun _ : κ => ν) ∈ m.entries ↔ m.lookup k = some v := by
  rw [← AList.mem_lookup_iff, Option.mem_def]

theorem lookup_retain_eq_some :
    (m.retain keep).lookup k = some v ↔ m.lookup k = some v ∧ keep k v := by
  rw [← mem_entries, ← mem_entries, retain, List.mem_filter]

theorem lookup_retain : (m.retain keep).lookup k = (m.lookup k).filter (keep k) := by
  ext v
  rw [lookup_retain_eq_some, Option.filter_eq_some_iff]

theorem lookup_insert_eq_some :
    (AList.insert k' w m).lookup k = some v ↔
      (k = k' ∧ w = v) ∨ (k ≠ k' ∧ m.lookup k = some v) := by
  by_cases h : k = k'
  · subst h; simp
  · simp [AList.lookup_insert_ne h, h]

theorem lookup_erase_eq_some :
    (m.erase k').lookup k = some v ↔ k ≠ k' ∧ m.lookup k = some v := by
  by_cases h : k = k'
  · subst h; simp
  · simp [AList.lookup_erase_ne h, h]

theorem lookup_eraseAll_eq_some {ks : List κ} :
    (m.eraseAll ks).lookup k = some v ↔ k ∉ ks ∧ m.lookup k = some v := by
  induction ks generalizing m with
  | nil => simp [eraseAll]
  | cons k' ks ih =>
    have h : m.eraseAll (k' :: ks) = eraseAll (m.erase k') ks := rfl
    rw [h, ih, lookup_erase_eq_some, List.mem_cons, not_or, and_left_comm, and_assoc]

theorem lookup_insertAll_of_mem {ks : List κ} (h : k ∈ ks) :
    (m.insertAll ks v).lookup k = some v := by
  have key : ∀ (ks : List κ) (m : HashMap κ ν), m.lookup k = some v ∨ k ∈ ks →
      (m.insertAll ks v).lookup k = some v := by
    intro ks
    induction ks with
    | nil => exact fun m h => h.resolve_right List.not_mem_nil
    | cons k' ks ih =>
      intro m h
      apply ih (m.insert k' v)
      by_cases hk : k = k'
      · exact .inl (by rw [hk, AList.lookup_insert])
      · rw [AList.lookup_insert_ne hk]
        exact h.imp_right fun h => (List.mem_cons.mp h).resolve_left hk
  exact key ks m (.inr h)

theorem lookup_insertAll_of_not_mem {ks : List κ} (h : k ∉ ks) :
    (m.insertAll ks v).lookup k = m.lookup k := by
  induction ks generalizing m with
  | nil => rfl
  | cons k' ks ih =>
    obtain ⟨hk, hks⟩ := not_or.mp (mt List.mem_cons.mpr h)
    exact (ih hks).trans (AList.lookup_insert_ne hk)

theorem lookup_modify_self {f : ν → ν} : (m.modify k f).lookup k = (m.lookup k).map f := by
  rw [modify]
  cases h : m.lookup k with
  | none => exact h
  | some v => exact AList.lookup_insert _

theorem lookup_modify_of_ne {f : ν → ν} (h : k ≠ k') : (m.modify k' f).lookup k = m.lookup k := by
  rw [modify]
  cases m.lookup k' with
  | none => rfl
  | some v => exact AList.lookup_insert_ne h

theorem lookup_modify_eq_some {f : ν → ν} : (m.modify k' f).lookup k = some v ↔
    (k = k' ∧ ∃ w, m.lookup k = some w ∧ f w = v) ∨ (k ≠ k' ∧ m.lookup k = some v) := by
  by_cases h : k = k'
  · subst h; simp [lookup_modify_self]
  · simp [lookup_modify_of_ne h, h]

theorem lookup_modify_ne_none {f : ν → ν} (h : m.lookup k = some v) :
    (m.modify k' f).lookup k ≠ none := by
  intro hnone
  by_cases hk : k = k'
  · rw [← hk, lookup_modify_self, h] at hnone
    cases hnone
  · rw [lookup_modify_of_ne hk, h] at hnone
    cases hnone

theorem lookup_insert_ne_none (h : m.lookup k = some v) :
    (AList.insert k' w m).lookup k ≠ none := by
  intro hnone
  by_cases hk : k = k'
  · rw [hk, AList.lookup_insert] at hnone
    cases hnone
  · rw [AList.lookup_insert_ne hk, h] at hnone
    cases hnone

/-! ### Lengths -/

omit [DecidableEq κ] in
theorem len_retain_le : (m.retain keep).len ≤ m.len := List.length_filter_le _ _

theorem len_erase_le : len (m.erase k) ≤ m.len := (List.kerase_sublist k m.entries).length_le

theorem len_insert_le : len (m.insert k v) ≤ m.len + 1 :=
  Nat.succ_le_succ (len_erase_le (m := m) (k := k))

theorem len_insert_of_lookup {w : ν} (h : m.lookup k = some w) :
    len (m.insert k v) = m.len := by
  have keys (m : HashMap κ ν) : m.keys.length = m.len := List.length_map _
  have hk : k ∈ m.keys := AList.mem_keys.mp (AList.lookup_isSome.mp (h ▸ rfl))
  have hpos : 0 < m.len := keys m ▸ List.length_pos_of_mem hk
  rw [← keys, AList.keys_insert, List.length_cons, List.length_erase_of_mem hk, keys]
  omega

theorem len_modify {f : ν → ν} : (m.modify k f).len = m.len := by
  rw [modify]
  split
  case h_1 h => exact len_insert_of_lookup h
  case h_2 => rfl

theorem len_eraseAll_le {ks : List κ} : (m.eraseAll ks).len ≤ m.len := by
  induction ks generalizing m with
  | nil => exact Nat.le_refl _
  | cons k ks ih => exact Nat.le_trans ih len_erase_le

/-! ### Values -/

/-- An entry and the rest of the map. -/
theorem perm_values (h : m.lookup k = some v) : m.values.Perm (v :: values (m.erase k)) := by
  have hk : k ∈ m.entries.keys := AList.mem_keys.mp (AList.lookup_isSome.mp (h ▸ rfl))
  obtain ⟨w, pre, suf, hpre, hentries, herase⟩ := List.exists_of_kerase hk
  have hw : m.lookup k = some w := by
    apply mem_entries.mp
    rw [hentries]
    exact List.mem_append_right _ List.mem_cons_self
  obtain rfl : v = w := Option.some.inj (h.symm.trans hw)
  have herase' : (m.erase k).entries = pre ++ suf := herase
  rw [values, values, hentries, herase', List.map_append, List.map_append]
  exact List.perm_middle

theorem len_erase_of_lookup (h : m.lookup k = some v) : len (m.erase k) + 1 = m.len := by
  have hlen := (perm_values h).length_eq
  rwa [values, values, List.length_cons, List.length_map, List.length_map, eq_comm] at hlen

theorem len_eraseAll_lt {ks : List κ} (h : m.lookup k = some v) (hk : k ∈ ks) :
    (m.eraseAll ks).len < m.len := by
  induction ks generalizing m with
  | nil => exact absurd hk List.not_mem_nil
  | cons k' ks ih =>
    by_cases heq : k = k'
    · have herase := len_erase_of_lookup h
      have hle : (eraseAll (m.erase k) ks).len ≤ len (m.erase k) := len_eraseAll_le
      rw [heq] at herase hle
      show (eraseAll (m.erase k') ks).len < m.len
      omega
    · have hrest := ih ((AList.lookup_erase_ne heq).trans h) ((List.mem_cons.mp hk).resolve_left heq)
      exact Nat.lt_of_lt_of_le hrest len_erase_le

/-- A change of one value that `p` does not see. -/
theorem countP_values_modify {f : ν → ν} {p : ν → Bool} (hf : ∀ v, m.lookup k = some v → p (f v) = p v) :
    (m.modify k f).values.countP p = m.values.countP p := by
  rw [modify]
  split
  case h_1 v h =>
    have hperm := perm_values h
    show (f v :: values (m.erase k)).countP p = _
    rw [hperm.countP_eq, List.countP_cons, List.countP_cons, hf v h]
  case h_2 => rfl

end HashMap
end HarborSql
