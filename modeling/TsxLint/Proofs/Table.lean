/-
Module: TsxLint.Proofs.Table
Purpose: What is found in tables that were written to, entry by entry or table by table.
Main exports: Table.get?_put, Table.get?_eq_none_iff, Table.nodup_keys_put,
  Table.perm_values_put, Table.get?_merge, Table.merge_assoc, Table.merge_eq_of_prefix,
  Table.get?_foldl_merge, Table.keys_foldl_merge
-/
import TsxLint.Table
import Mathlib.Data.List.Basic

namespace TsxLint.Table

/-!
Writing an entry hides what was under its key and nothing else.  Laying a table over another
one writes its entries in turn; where its keys are distinct, it hides exactly the keys it has.
So in a stack of such tables each key is answered by the topmost table that has it.  A key stays
where it first appeared, however often it is written again; that is why it makes no difference
which tables of a stack are put together first.
-/

variable {α : Type} {table : Table α} {key : String} {value : α}

/-! ### Entries and keys -/

theorem mem_of_get? (h : get? table key = some value) : (key, value) ∈ table := by
  induction table with
  | nil => cases h
  | cons entry rest ih =>
    obtain ⟨k, v⟩ := entry
    rw [get?] at h
    by_cases hk : k = key
    · rw [if_pos hk] at h
      cases h
      rw [hk]
      exact List.mem_cons_self
    · rw [if_neg hk] at h
      exact List.mem_cons_of_mem _ (ih h)

theorem get?_eq_none_iff : get? table key = none ↔ key ∉ keys table := by
  induction table with
  | nil => simp [keys]
  | cons entry rest ih =>
    obtain ⟨k, v⟩ := entry
    by_cases hk : k = key
    · simp [get?, keys, hk]
    · simpa [get?, keys, hk, Ne.symm hk] using ih

theorem isSome_get?_iff : (get? table key).isSome ↔ key ∈ keys table := by
  rw [← not_iff_not, ← get?_eq_none_iff, Option.not_isSome_iff_eq_none]

/-- With distinct keys, every entry is found. -/
theorem get?_of_mem (h : (keys table).Nodup) (hmem : (key, value) ∈ table) :
    get? table key = some value := by
  induction table with
  | nil => cases hmem
  | cons entry rest ih =>
    obtain ⟨hnot, hrest⟩ := List.nodup_cons.1 h
    rcases List.mem_cons.1 hmem with rfl | hmem
    · exact if_pos rfl
    · have hne : entry.1 ≠ key := by
        rintro rfl
        exact hnot (List.mem_map_of_mem (f := (·.1)) hmem)
      rw [get?, if_neg hne]
      exact ih hrest hmem

/-! ### Writing an entry -/

theorem get?_put (table : Table α) (key other : String) (value : α) :
    get? (put table key value) other = if other = key then some value else get? table other := by
  by_cases h : other = key
  · rw [if_pos h, h]
    exact get?_put_self table key value
  · rw [if_neg h]
    exact get?_put_of_ne table value h

/-- A new entry goes to the end. -/
theorem put_of_not_mem_keys (h : key ∉ keys table) (value : α) :
    put table key value = table ++ [(key, value)] := by
  induction table with
  | nil => rfl
  | cons entry rest ih =>
    obtain ⟨hne, hrest⟩ := not_or.1 fun hmem => h (List.mem_cons.2 hmem)
    have hne : ¬ entry.1 = key := fun heq => hne heq.symm
    rw [put, if_neg hne, ih hrest, List.cons_append]

theorem nodup_keys_put (h : (keys table).Nodup) : (keys (put table key value)).Nodup := by
  rw [keys_put]
  by_cases hkey : key ∈ keys table
  · rw [if_pos hkey]
    exact h
  · rw [if_neg hkey]
    refine List.nodup_append.2 ⟨h, List.pairwise_singleton _ _, ?_⟩
    rintro a ha b hb rfl
    exact hkey (List.mem_singleton.1 hb ▸ ha)

/-- Writing over a value changes nothing that is the same of the old and of the new one. -/
theorem map_values_put {β : Type} {f : α → β} {old : α} (h : get? table key = some old)
    (hf : f value = f old) : (values (put table key value)).map f = (values table).map f := by
  induction table with
  | nil => cases h
  | cons entry rest ih =>
    obtain ⟨k, v⟩ := entry
    by_cases hk : k = key
    · rw [get?, if_pos hk] at h
      cases h
      rw [put, if_pos hk]
      exact congrArg (· :: (values rest).map f) hf
    · rw [get?, if_neg hk] at h
      rw [put, if_neg hk]
      exact congrArg (f v :: ·) (ih h)

/-- An entry of a table that was written to is the written one or one from before. -/
theorem mem_put (h : (keys table).Nodup) {k : String} {v : α}
    (hmem : (k, v) ∈ put table key value) :
    (k = key ∧ v = value) ∨ (k ≠ key ∧ (k, v) ∈ table) := by
  have hfound := get?_of_mem (nodup_keys_put h) hmem
  rw [get?_put] at hfound
  by_cases hk : k = key
  · rw [if_pos hk] at hfound
    cases hfound
    exact .inl ⟨hk, rfl⟩
  · rw [if_neg hk] at hfound
    exact .inr ⟨hk, mem_of_get? hfound⟩

/-- Writing adds a value and takes away the one that was found under the key. -/
theorem perm_values_put (table : Table α) (key : String) (value : α) :
    (values (put table key value) ++ (get? table key).toList).Perm (values table ++ [value]) := by
  induction table with
  | nil => exact .refl _
  | cons entry rest ih =>
    obtain ⟨k, v⟩ := entry
    by_cases hk : k = key
    · rw [put, get?, if_pos hk, if_pos hk]
      -- the old value trades places with the new one
      change (value :: (values rest ++ [v])).Perm (v :: (values rest ++ [value]))
      exact ((List.perm_append_singleton v _).cons value).trans
        ((List.Perm.swap v value _).trans ((List.perm_append_singleton value _).symm.cons v))
    · rw [put, get?, if_neg hk, if_neg hk]
      exact ih.cons v

/-- The last of two values written under one key is the one that counts. -/
theorem put_put_self (table : Table α) (key : String) (old value : α) :
    put (put table key old) key value = put table key value := by
  induction table with
  | nil => rw [put, put, put, if_pos rfl]
  | cons entry rest ih =>
    obtain ⟨k, v⟩ := entry
    by_cases hk : k = key
    · rw [put, put, if_pos hk, if_pos hk, put, if_pos hk]
    · rw [put, put, if_neg hk, if_neg hk, put, if_neg hk, ih]

/-- Writing over an entry and writing under another key can trade places: the entry is there
already, so neither of the two changes where the other one goes. -/
theorem put_comm {other : String} (h : key ∈ keys table) (hne : key ≠ other) (value new : α) :
    put (put table other new) key value = put (put table key value) other new := by
  induction table with
  | nil => cases h
  | cons entry rest ih =>
    obtain ⟨k, v⟩ := entry
    by_cases hk : k = key
    · have hother : ¬ k = other := fun heq => hne (hk.symm.trans heq)
      rw [put, if_neg hother, put, if_pos hk, put, if_pos hk, put, if_neg hother]
    · have hrest : key ∈ keys rest := (List.mem_cons.1 h).resolve_left (Ne.symm hk)
      by_cases hother : k = other
      · rw [put, if_pos hother, put, if_neg hk, put, if_neg hk, put, if_pos hother]
      · rw [put, if_neg hother, put, if_neg hk, put, if_neg hk, put, if_neg hother, ih hrest]

/-! ### Laying tables over others -/

/-- A table hides what lies below it under its own keys, and nothing else. -/
theorem get?_merge (lower : Table α) {upper : Table α} (h : (keys upper).Nodup) (key : String) :
    get? (merge lower upper) key = (get? upper key).or (get? lower key) := by
  induction upper generalizing lower with
  | nil => rfl
  | cons entry rest ih =>
    obtain ⟨k, v⟩ := entry
    obtain ⟨hnot, hrest⟩ := List.nodup_cons.1 h
    change get? (merge (put lower k v) rest) key = (get? ((k, v) :: rest) key).or (get? lower key)
    rw [ih (put lower k v) hrest, get?_put, get?]
    by_cases hk : k = key
    · -- the keys are distinct, so no later entry hides this one
      subst hk
      rw [get?_eq_none_iff.2 hnot, if_pos rfl, if_pos rfl]
      rfl
    · rw [if_neg hk, if_neg (Ne.symm hk)]

theorem nodup_keys_merge {lower : Table α} (h : (keys lower).Nodup) (upper : Table α) :
    (keys (merge lower upper)).Nodup := by
  induction upper generalizing lower with
  | nil => exact h
  | cons entry rest ih => exact ih (nodup_keys_put h)

/-- An entry of a table that was laid over another is from one of the two. -/
theorem mem_merge {lower : Table α} (h : (keys lower).Nodup) {upper : Table α} {entry : String × α}
    (hmem : entry ∈ merge lower upper) : entry ∈ lower ∨ entry ∈ upper := by
  induction upper generalizing lower with
  | nil => exact .inl hmem
  | cons first rest ih =>
    rcases ih (nodup_keys_put h) hmem with hmem | hmem
    · rcases mem_put h hmem with ⟨hkey, hvalue⟩ | ⟨-, hmem⟩
      · exact .inr (List.mem_cons.2 (.inl (Prod.ext hkey hvalue)))
      · exact .inl hmem
    · exact .inr (List.mem_cons_of_mem _ hmem)

/-- A value of a table that was laid over another is from one of the two. -/
theorem mem_values_of_mem_merge {lower upper : Table α} {v : α}
    (h : v ∈ values (merge lower upper)) : v ∈ values lower ∨ v ∈ values upper := by
  induction upper generalizing lower with
  | nil => exact .inl h
  | cons entry rest ih =>
    rcases ih h with h | h
    · have hmem := (perm_values_put lower entry.1 entry.2).mem_iff.1 (List.mem_append_left _ h)
      rcases List.mem_append.1 hmem with hlower | hentry
      · exact .inl hlower
      · exact .inr (List.mem_cons.2 (.inl (List.mem_singleton.1 hentry)))
    · exact .inr (List.mem_cons_of_mem _ h)

/-- The keys of the upper table that are new come behind those of the lower one. -/
theorem keys_merge (lower : Table α) {upper : Table α} (h : (keys upper).Nodup) :
    keys (merge lower upper) = keys lower ++ (keys upper).filter fun key => key ∉ keys lower := by
  induction upper generalizing lower with
  | nil => exact (List.append_nil _).symm
  | cons entry rest ih =>
    obtain ⟨k, v⟩ := entry
    obtain ⟨hnot, hrest⟩ := List.nodup_cons.1 h
    change keys (merge (put lower k v) rest) =
      keys lower ++ (k :: keys rest).filter fun key => key ∉ keys lower
    rw [ih _ hrest, keys_put]
    by_cases hk : k ∈ keys lower
    · rw [if_pos hk, List.filter_cons_of_neg (by simpa using hk)]
    · have hsame : ((keys rest).filter fun key => key ∉ keys lower ++ [k]) =
          (keys rest).filter fun key => key ∉ keys lower := by
        apply List.filter_congr
        intro key hkey
        have hne : key ≠ k := by
          rintro rfl
          exact hnot hkey
        simp [hne]
      rw [if_neg hk, List.filter_cons_of_pos (by simpa using hk), hsame, List.append_assoc,
        List.singleton_append]

theorem keys_prefix_merge (lower : Table α) {upper : Table α} (h : (keys upper).Nodup) :
    keys lower <+: keys (merge lower upper) := by
  rw [keys_merge lower h]
  exact List.prefix_append _ _

/-- Writing over an entry below a table that does not have its key. -/
theorem merge_put_of_not_mem {lower upper : Table α} (h : key ∈ keys lower)
    (hnot : key ∉ keys upper) (value : α) :
    merge (put lower key value) upper = put (merge lower upper) key value := by
  induction upper generalizing lower with
  | nil => rfl
  | cons entry rest ih =>
    obtain ⟨hne, hrest⟩ := not_or.1 (mt List.mem_cons.2 hnot)
    have hkey : key ∈ keys (put lower entry.1 entry.2) := by
      rw [keys_put]
      split
      · exact h
      · exact List.mem_append_left _ h
    change merge (put (put lower key value) entry.1 entry.2) rest =
      put (merge (put lower entry.1 entry.2) rest) key value
    rw [← put_comm h hne, ih hkey hrest]

/-- An entry can be written before or after a table is laid over another one. -/
theorem merge_put (lower : Table α) {upper : Table α} (h : (keys upper).Nodup) (key : String)
    (value : α) : merge lower (put upper key value) = put (merge lower upper) key value := by
  induction upper generalizing lower with
  | nil => rfl
  | cons entry rest ih =>
    obtain ⟨k, v⟩ := entry
    obtain ⟨hnot, hrest⟩ := List.nodup_cons.1 h
    by_cases hk : k = key
    · subst hk
      have hkey : k ∈ keys (put lower k v) := by
        rw [keys_put]
        split
        · assumption
        · exact List.mem_append_right _ (List.mem_singleton.2 rfl)
      rw [put, if_pos rfl]
      change merge (put lower k value) rest = put (merge (put lower k v) rest) k value
      rw [← merge_put_of_not_mem hkey hnot, put_put_self]
    · rw [put, if_neg hk]
      exact ih (put lower k v) hrest

/-- Of three tables it makes no difference which two are put together first. -/
theorem merge_assoc (lower : Table α) {middle : Table α} (h : (keys middle).Nodup)
    (upper : Table α) : merge (merge lower middle) upper = merge lower (merge middle upper) := by
  induction upper generalizing middle with
  | nil => rfl
  | cons entry rest ih =>
    change merge (put (merge lower middle) entry.1 entry.2) rest =
      merge lower (merge (put middle entry.1 entry.2) rest)
    rw [← merge_put lower h, ih (nodup_keys_put h)]

/-- Tables with the same distinct keys in the same order are the same if they answer alike. -/
theorem ext_of_keys {a b : Table α} (hkeys : keys a = keys b) (hnodup : (keys a).Nodup)
    (hget : ∀ key, get? a key = get? b key) : a = b := by
  induction a generalizing b with
  | nil =>
    cases b with
    | nil => rfl
    | cons entry rest => cases hkeys
  | cons entry rest ih =>
    cases b with
    | nil => cases hkeys
    | cons other others =>
      obtain ⟨k, v⟩ := entry
      obtain ⟨k', v'⟩ := other
      obtain ⟨rfl, hothers⟩ : k = k' ∧ keys rest = keys others := List.cons.inj hkeys
      obtain ⟨hnot, hrest⟩ := List.nodup_cons.1 hnodup
      have hv : v = v' := by simpa [get?] using hget k
      rw [hv, ih hothers hrest]
      intro key
      by_cases hk : k = key
      · subst hk
        have hnot' : k ∉ keys others := hothers ▸ hnot
        rw [get?_eq_none_iff.2 hnot, get?_eq_none_iff.2 hnot']
      · simpa [get?, hk] using hget key

/-- Laying a table over one with its first keys gives that table. -/
theorem merge_eq_of_prefix {lower upper : Table α} (h : (keys upper).Nodup)
    (hstart : keys lower <+: keys upper) : merge lower upper = upper := by
  obtain ⟨more, hmore⟩ := hstart
  have hkeys : keys (merge lower upper) = keys upper := by
    rw [keys_merge lower h, ← hmore, List.filter_append]
    rw [← hmore] at h
    have hapart := (List.nodup_append.1 h).2.2
    rw [List.filter_eq_nil_iff.2 (by simp), List.filter_eq_self.2, List.nil_append]
    intro key hkey
    simpa using fun hlower => hapart key hlower key hkey rfl
  refine ext_of_keys hkeys (hkeys ▸ h) fun key => ?_
  rw [get?_merge lower h]
  cases hfound : get? upper key with
  | some v => rfl
  | none =>
    have hnot : key ∉ keys lower := fun hlower =>
      get?_eq_none_iff.1 hfound (hmore ▸ List.mem_append_left _ hlower)
    rw [get?_eq_none_iff.2 hnot]
    rfl

/-- In a stack of tables each key is answered by the topmost table that has it. -/
theorem get?_foldl_merge (lower : Table α) {uppers : List (Table α)}
    (h : ∀ upper ∈ uppers, (keys upper).Nodup) (key : String) :
    get? (uppers.foldl merge lower) key =
      (uppers.reverse.findSome? (get? · key)).or (get? lower key) := by
  induction uppers generalizing lower with
  | nil => rfl
  | cons upper rest ih =>
    obtain ⟨hupper, hrest⟩ := List.forall_mem_cons.1 h
    rw [List.foldl_cons, ih _ hrest, get?_merge lower hupper, List.reverse_cons,
      List.findSome?_append, Option.or_assoc]
    simp

theorem eraseDups_of_nodup {keys : List String} (h : keys.Nodup) : keys.eraseDups = keys := by
  induction keys with
  | nil => rfl
  | cons key rest ih =>
    obtain ⟨hnot, hrest⟩ := List.nodup_cons.1 h
    have hsame : (rest.filter fun other => !other == key) = rest := by
      refine List.filter_eq_self.2 fun other hother => ?_
      simpa using fun heq : other = key => hnot (heq ▸ hother)
    rw [List.eraseDups_cons, hsame, ih hrest]

/-- In a stack of tables the keys stand in the order in which they first appear. -/
theorem keys_foldl_merge {lower : Table α} (hlower : (keys lower).Nodup) {uppers : List (Table α)}
    (h : ∀ upper ∈ uppers, (keys upper).Nodup) :
    keys (uppers.foldl merge lower) = (keys lower ++ uppers.flatMap keys).eraseDups := by
  induction uppers generalizing lower with
  | nil => rw [List.flatMap_nil, List.append_nil, List.foldl_nil, eraseDups_of_nodup hlower]
  | cons upper rest ih =>
    obtain ⟨hupper, hrest⟩ := List.forall_mem_cons.1 h
    rw [List.foldl_cons, ih (nodup_keys_merge hlower upper) hrest, keys_merge lower hupper,
      List.flatMap_cons, List.append_assoc, List.eraseDups_append, List.eraseDups_append]
    -- the keys that the upper table shares with the lower one are left out either way
    simp [List.removeAll, List.filter_append, List.filter_filter]

end TsxLint.Table
