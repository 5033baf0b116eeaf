import Mathlib.Data.List.Nodup

/-!
# Dictionaries in insertion order

A dictionary is the list of its entries; a key that is set again keeps its place.
-/

namespace Dict

variable {κ α : Type*} [DecidableEq κ]

/-- Set a key. -/
def set (key : κ) (value : α) : List (κ × α) → List (κ × α)
  | [] => [(key, value)]
  | (k, v) :: rest => if k = key then (k, value) :: rest else (k, v) :: set key value rest

/-- The dictionary of a list of entries; the last of a repeated key wins. -/
def ofList (entries : List (κ × α)) : List (κ × α) :=
  entries.foldl (fun dict entry => set entry.1 entry.2 dict) []

/-- The keys in their order. -/
def keys (dict : List (κ × α)) : List κ := dict.map Prod.fst

/-- Remove a key. -/
def erase (key : κ) (dict : List (κ × α)) : List (κ × α) := dict.filter (·.1 ≠ key)

omit [DecidableEq κ] in
/-- The empty dictionary has no keys. -/
@[simp] theorem keys_nil : keys ([] : List (κ × α)) = [] := rfl

omit [DecidableEq κ] in
/-- The key of the first entry comes first. -/
@[simp] theorem keys_cons (entry : κ × α) (dict : List (κ × α)) :
    keys (entry :: dict) = entry.1 :: keys dict := rfl

/-- The value that was set is found. -/
theorem lookup_set_self (key : κ) (value : α) (dict : List (κ × α)) :
    (set key value dict).lookup key = some value := by
  induction dict with
  | nil => simp [set]
  | cons entry rest ih =>
    unfold set
    by_cases h : entry.1 = key
    · rw [if_pos h, h, List.lookup_cons_self]
    · rw [if_neg h, List.lookup_cons, ih, beq_false_of_ne (Ne.symm h)]

/-- Another key is found as before. -/
theorem lookup_set_of_ne {key other : κ} (h : other ≠ key) (value : α) (dict : List (κ × α)) :
    (set key value dict).lookup other = dict.lookup other := by
  induction dict with
  | nil => simpa [set] using h
  | cons entry rest ih =>
    unfold set
    by_cases hk : entry.1 = key
    · rw [if_pos hk, List.lookup_cons, List.lookup_cons, hk, beq_false_of_ne h]
    · rw [if_neg hk, List.lookup_cons, List.lookup_cons, ih]

/-- Setting a known key changes no key. -/
theorem keys_set_of_mem {key : κ} {dict : List (κ × α)} (h : key ∈ keys dict) (value : α) :
    keys (set key value dict) = keys dict := by
  induction dict with
  | nil => cases h
  | cons entry rest ih =>
    unfold set
    by_cases hk : entry.1 = key
    · rw [if_pos hk]
      rfl
    · rw [if_neg hk, keys_cons, keys_cons, ih]
      exact (List.mem_cons.mp h).resolve_left (Ne.symm hk)

/-- A new key comes last. -/
theorem set_of_notMem {key : κ} {dict : List (κ × α)} (h : key ∉ keys dict) (value : α) :
    set key value dict = dict ++ [(key, value)] := by
  induction dict with
  | nil => rfl
  | cons entry rest ih =>
    rw [keys_cons, List.mem_cons, not_or] at h
    rw [set, if_neg (Ne.symm h.1), ih h.2, List.cons_append]

/-- Setting a key in place. -/
theorem set_append_cons {key : κ} {front : List (κ × α)} (h : key ∉ keys front) (old value : α)
    (back : List (κ × α)) :
    set key value (front ++ (key, old) :: back) = front ++ (key, value) :: back := by
  induction front with
  | nil => simp [set]
  | cons entry front ih =>
    rw [keys_cons, List.mem_cons, not_or] at h
    rw [List.cons_append, set, if_neg (Ne.symm h.1), ih h.2, List.cons_append]

/-- Distinct entries are their own dictionary. -/
theorem ofList_of_nodup {entries : List (κ × α)} (h : (keys entries).Nodup) :
    ofList entries = entries := by
  have hfold : ∀ (rest done : List (κ × α)), (keys (done ++ rest)).Nodup →
      rest.foldl (fun dict entry => set entry.1 entry.2 dict) done = done ++ rest := by
    intro rest
    induction rest with
    | nil =>
      intro done _
      rw [List.append_nil]
      rfl
    | cons entry rest ih =>
      intro done hd
      have hfresh : entry.1 ∉ keys done := by
        intro hmem
        rw [keys, List.map_append, List.map_cons] at hd
        exact List.disjoint_of_nodup_append hd hmem List.mem_cons_self
      rw [List.foldl_cons, set_of_notMem hfresh, ih, List.append_assoc]
      · rfl
      · rwa [List.append_assoc]
  exact hfold entries [] h

/-- The keys after one was set. -/
theorem mem_keys_set {key other : κ} {value : α} {dict : List (κ × α)} :
    other ∈ keys (set key value dict) ↔ other = key ∨ other ∈ keys dict := by
  by_cases h : key ∈ keys dict
  · rw [keys_set_of_mem h]
    refine ⟨Or.inr, ?_⟩
    rintro (rfl | ho)
    · exact h
    · exact ho
  · rw [set_of_notMem h]
    simp [keys, or_comm]

/-- Setting a key keeps the keys different. -/
theorem nodup_keys_set {key : κ} {dict : List (κ × α)} (h : (keys dict).Nodup) (value : α) :
    (keys (set key value dict)).Nodup := by
  by_cases hk : key ∈ keys dict
  · rwa [keys_set_of_mem hk]
  · rw [set_of_notMem hk, keys, List.map_append]
    refine List.Nodup.append h (List.nodup_singleton key) ?_
    rintro other ho hs
    rw [List.mem_singleton.mp hs] at ho
    exact hk ho

/-- The entries after one was set. -/
theorem mem_set {key : κ} {value : α} {dict : List (κ × α)} {entry : κ × α}
    (h : entry ∈ set key value dict) : entry = (key, value) ∨ entry ∈ dict := by
  induction dict with
  | nil => exact .inl (List.mem_singleton.mp h)
  | cons head rest ih =>
    unfold set at h
    by_cases hk : head.1 = key
    · rw [if_pos hk, List.mem_cons] at h
      rcases h with rfl | h
      · exact .inl (by rw [hk])
      · exact .inr (List.mem_cons_of_mem _ h)
    · rw [if_neg hk, List.mem_cons] at h
      rcases h with rfl | h
      · exact .inr List.mem_cons_self
      · exact (ih h).imp_right (List.mem_cons_of_mem _)

/-- The keys of the dictionary of a list are those of the list. -/
theorem mem_keys_ofList {key : κ} {entries : List (κ × α)} :
    key ∈ keys (ofList entries) ↔ key ∈ keys entries := by
  have fold (dict : List (κ × α)) :
      key ∈ keys (entries.foldl (fun dict entry => set entry.1 entry.2 dict) dict) ↔
        key ∈ keys dict ∨ key ∈ keys entries := by
    induction entries generalizing dict with
    | nil => exact (or_iff_left List.not_mem_nil).symm
    | cons entry rest ih =>
      rw [List.foldl_cons, ih, mem_keys_set, keys_cons, List.mem_cons]
      tauto
  exact (fold []).trans (or_iff_right List.not_mem_nil)

/-- The dictionary of a list has entries of the list. -/
theorem mem_of_mem_ofList {entry : κ × α} {entries : List (κ × α)} :
    entry ∈ ofList entries → entry ∈ entries := by
  have fold (dict : List (κ × α)) :
      entry ∈ entries.foldl (fun dict entry => set entry.1 entry.2 dict) dict →
        entry ∈ dict ∨ entry ∈ entries := by
    induction entries generalizing dict with
    | nil => exact .inl
    | cons first rest ih =>
      intro mem
      rcases ih _ mem with mem | mem
      · rcases mem_set mem with rfl | known
        · exact .inr List.mem_cons_self
        · exact .inl known
      · exact .inr (List.mem_cons_of_mem _ mem)
  exact fun mem => (fold [] mem).resolve_left List.not_mem_nil

/-- What is found is an entry. -/
theorem mem_of_lookup {key : κ} {value : α} {dict : List (κ × α)}
    (h : dict.lookup key = some value) : (key, value) ∈ dict := by
  obtain ⟨front, back, rfl, -⟩ := List.lookup_eq_some_iff.mp h
  simp

/-- An entry is found when the keys differ. -/
theorem lookup_of_mem {key : κ} {value : α} {dict : List (κ × α)} (hd : (keys dict).Nodup)
    (h : (key, value) ∈ dict) : dict.lookup key = some value := by
  induction dict with
  | nil => cases h
  | cons entry rest ih =>
    rw [keys_cons, List.nodup_cons] at hd
    rcases List.mem_cons.mp h with rfl | h
    · exact List.lookup_cons_self
    · rw [List.lookup_cons, beq_false_of_ne]
      · exact ih hd.2 h
      · rintro rfl
        exact hd.1 (List.mem_map.mpr ⟨_, h, rfl⟩)

/-- Nothing is found under what is no key. -/
theorem lookup_eq_none {key : κ} {dict : List (κ × α)} :
    dict.lookup key = none ↔ key ∉ keys dict := by
  induction dict with
  | nil => simp
  | cons entry rest ih =>
    rw [List.lookup_cons, keys_cons, List.mem_cons, not_or]
    by_cases h : key = entry.1
    · simp [h]
    · rw [beq_false_of_ne h]
      simp [h, ih]

/-- Setting what a key already has changes nothing. -/
theorem set_self {key : κ} {value : α} {dict : List (κ × α)}
    (h : dict.lookup key = some value) : set key value dict = dict := by
  induction dict with
  | nil => cases h
  | cons entry rest ih =>
    rw [List.lookup_cons] at h
    unfold set
    by_cases hk : entry.1 = key
    · rw [hk, beq_self_eq_true] at h
      rw [if_pos hk, ← Option.some.inj h]
    · rw [beq_false_of_ne (Ne.symm hk)] at h
      rw [if_neg hk, ih h]

/-- Something is found under every key. -/
theorem lookup_isSome {key : κ} {dict : List (κ × α)} (h : key ∈ keys dict) :
    ∃ value, dict.lookup key = some value := by
  cases hl : dict.lookup key with
  | none => exact absurd h (lookup_eq_none.mp hl)
  | some value => exact ⟨value, rfl⟩

/-- Where something is found is a key. -/
theorem mem_keys_of_lookup {key : κ} {value : α} {dict : List (κ × α)}
    (h : dict.lookup key = some value) : key ∈ keys dict :=
  List.mem_map.mpr ⟨_, mem_of_lookup h, rfl⟩

/-! ## Removal -/

/-- The keys after one was erased. -/
theorem keys_erase (key : κ) (dict : List (κ × α)) :
    keys (erase key dict) = (keys dict).filter (· ≠ key) := by
  rw [keys, keys, erase, List.filter_map]
  rfl

/-- A key stays when another one is erased. -/
theorem mem_keys_erase {key other : κ} {dict : List (κ × α)} :
    other ∈ keys (erase key dict) ↔ other ∈ keys dict ∧ other ≠ key := by
  simp [keys_erase]

/-- Erasing a key keeps the keys different. -/
theorem nodup_keys_erase {dict : List (κ × α)} (h : (keys dict).Nodup) (key : κ) :
    (keys (erase key dict)).Nodup := by
  rw [keys_erase]
  exact h.filter _

/-- Another key is found as before. -/
theorem lookup_erase_of_ne {key other : κ} (h : other ≠ key) (dict : List (κ × α)) :
    (erase key dict).lookup other = dict.lookup other := by
  induction dict with
  | nil => rfl
  | cons entry rest ih =>
    unfold erase at ih ⊢
    by_cases hk : entry.1 = key
    · rw [List.filter_cons_of_neg (by simpa using hk), ih, List.lookup_cons, hk,
        beq_false_of_ne h]
    · rw [List.filter_cons_of_pos (by simpa using hk), List.lookup_cons, List.lookup_cons, ih]

/-- Nothing is found under an erased key. -/
@[simp] theorem lookup_erase_self (key : κ) (dict : List (κ × α)) :
    (erase key dict).lookup key = none :=
  lookup_eq_none.mpr fun h => (mem_keys_erase.mp h).2 rfl

/-- Erasing what is no key changes nothing. -/
theorem erase_of_notMem {key : κ} {dict : List (κ × α)} (h : key ∉ keys dict) :
    erase key dict = dict := by
  refine List.filter_eq_self.mpr fun entry he => ?_
  have hne : entry.1 ≠ key := by
    rintro rfl
    exact h (List.mem_map.mpr ⟨entry, he, rfl⟩)
  simpa using hne

/-- A key that was set and erased. -/
theorem erase_set (key : κ) (value : α) (dict : List (κ × α)) :
    erase key (set key value dict) = erase key dict := by
  induction dict with
  | nil => simp [set, erase]
  | cons entry rest ih =>
    unfold set
    by_cases hk : entry.1 = key
    · rw [if_pos hk]
      simp [erase, hk]
    · rw [if_neg hk]
      unfold erase at ih ⊢
      rw [List.filter_cons_of_pos (by simpa using hk), List.filter_cons_of_pos (by simpa using hk),
        ih]

/-! ## Counting the entries of a dictionary -/

/-- A dictionary is one of its entries and the others. -/
theorem perm_erase {key : κ} {value : α} {dict : List (κ × α)} (hd : (keys dict).Nodup)
    (h : dict.lookup key = some value) : dict.Perm ((key, value) :: erase key dict) := by
  induction dict with
  | nil => cases h
  | cons entry rest ih =>
    rw [keys_cons, List.nodup_cons] at hd
    rw [List.lookup_cons] at h
    by_cases hk : key = entry.1
    · rw [hk, beq_self_eq_true] at h
      obtain ⟨rfl⟩ : entry.2 = value := Option.some.inj h
      have hrest : erase key (entry :: rest) = rest := by
        rw [erase, List.filter_cons_of_neg (by simpa using hk.symm)]
        exact erase_of_notMem (hk ▸ hd.1)
      rw [hrest, hk]
    · rw [beq_false_of_ne hk] at h
      rw [erase, List.filter_cons_of_pos (by simpa using Ne.symm hk)]
      exact ((ih hd.2 h).cons entry).trans (List.Perm.swap _ _ _)

/-- Setting a key replaces its entry. -/
theorem perm_set {key : κ} {old : α} (value : α) {dict : List (κ × α)} (hd : (keys dict).Nodup)
    (h : dict.lookup key = some old) :
    (set key value dict).Perm ((key, value) :: erase key dict) := by
  have hkeys := keys_set_of_mem (mem_keys_of_lookup h) value
  have hperm := perm_erase (hkeys ▸ hd) (lookup_set_self key value dict)
  rwa [erase_set] at hperm

/-- Erasing a key takes its entry from a count. -/
theorem countP_erase (p : κ × α → Bool) {key : κ} {value : α} {dict : List (κ × α)}
    (hd : (keys dict).Nodup) (h : dict.lookup key = some value) :
    dict.countP p = (erase key dict).countP p + if p (key, value) then 1 else 0 := by
  rw [(perm_erase hd h).countP_eq, List.countP_cons]

/-- Erasing a key takes one entry. -/
theorem length_erase {key : κ} {value : α} {dict : List (κ × α)} (hd : (keys dict).Nodup)
    (h : dict.lookup key = some value) : dict.length = (erase key dict).length + 1 :=
  (perm_erase hd h).length_eq

/-- Setting a key changes a count by its entry. -/
theorem countP_set (p : κ × α → Bool) {key : κ} {old : α} (value : α) {dict : List (κ × α)}
    (hd : (keys dict).Nodup) (h : dict.lookup key = some old) :
    (set key value dict).countP p
      = (erase key dict).countP p + if p (key, value) then 1 else 0 := by
  rw [(perm_set value hd h).countP_eq, List.countP_cons]

/-- Setting a known key keeps the length. -/
theorem length_set {key : κ} {old : α} (value : α) {dict : List (κ × α)}
    (h : dict.lookup key = some old) : (set key value dict).length = dict.length := by
  have hkeys := keys_set_of_mem (mem_keys_of_lookup h) value
  simpa [keys] using congrArg List.length hkeys

/-! ## Records by a key of theirs -/

omit [DecidableEq κ] in
/-- A record is found by its key when the keys differ. -/
theorem find?_key {ρ : Type*} [DecidableEq κ] {key : ρ → κ} {records : List ρ}
    (nodup : (records.map key).Nodup) {record : ρ} (mem : record ∈ records) :
    (records.find? fun other => key other = key record) = some record := by
  obtain ⟨found, first⟩ : ∃ found,
      (records.find? fun other => key other = key record) = some found := by
    rw [← Option.isSome_iff_exists, List.find?_isSome]
    exact ⟨record, mem, by simp⟩
  have same : key found = key record := by simpa using List.find?_some first
  rw [first, List.inj_on_of_nodup_map nodup (List.mem_of_find?_eq_some first) mem same]

/-- The values of a dictionary change under their keys. -/
theorem lookup_map_values {β : Type*} (f : α → β) (dict : List (κ × α)) (key : κ) :
    (dict.map fun entry => (entry.1, f entry.2)).lookup key = (dict.lookup key).map f := by
  induction dict with
  | nil => rfl
  | cons entry rest ih =>
    rw [List.map_cons, List.lookup_cons, List.lookup_cons, ih]
    by_cases here : key = entry.1
    · rw [here, beq_self_eq_true]
      rfl
    · rw [beq_false_of_ne here]

end Dict
