import GameText.Json.Basic

/-!
# Rows of entries

A row of entries stands for a dictionary that keeps the order in which its keys came: the members of
an object, the texts of a batch by their keys. Setting the value of a key leaves the entry in its
place, and a new key comes last, so a row that was made by setting values has no key twice
(`nodup_assign`). In such a row what is found under a key is its one entry.
-/

namespace GameText

section Entries

variable {α β : Type} [DecidableEq α] {key : α} {value : β} {entries : List (α × β)}

/-! ## What is found -/

theorem lookup?_eq_none (h : lookup? key entries = none) : ∀ entry ∈ entries, entry.1 ≠ key := by
  induction entries with
  | nil => exact nofun
  | cons entry entries ih =>
    obtain ⟨k, v⟩ := entry
    simp only [lookup?] at h
    split at h
    · cases h
    next hne =>
      rintro e (_ | ⟨_, he⟩)
      · exact hne
      · exact ih h e he

/-- What is found under a key is one of the entries. -/
theorem exists_split_of_lookup? (h : lookup? key entries = some value) :
    ∃ before after, entries = before ++ (key, value) :: after := by
  induction entries with
  | nil => cases h
  | cons entry entries ih =>
    obtain ⟨k, v⟩ := entry
    simp only [lookup?] at h
    split at h
    next heq =>
      cases h
      exact ⟨[], entries, by rw [heq]; rfl⟩
    next =>
      obtain ⟨before, after, rfl⟩ := ih h
      exact ⟨(k, v) :: before, after, rfl⟩

theorem mem_of_lookup? (h : lookup? key entries = some value) : (key, value) ∈ entries := by
  obtain ⟨before, after, rfl⟩ := exists_split_of_lookup? h
  exact List.mem_append_right _ List.mem_cons_self

theorem lookup?_of_mem (keys : (entries.map (·.1)).Nodup) {e : α × β} (he : e ∈ entries) :
    lookup? e.1 entries = some e.2 := by
  induction entries with
  | nil => cases he
  | cons a rest ih =>
    obtain ⟨hnew, hkeys⟩ := List.nodup_cons.mp keys
    rcases List.mem_cons.mp he with rfl | he
    · exact if_pos rfl
    · have hne : a.1 ≠ e.1 := fun heq => hnew (List.mem_map.mpr ⟨e, he, heq.symm⟩)
      rw [lookup?, if_neg hne]
      exact ih hkeys he

theorem lookup?_append (key : α) (entries more : List (α × β)) :
    lookup? key (entries ++ more) = (lookup? key entries).or (lookup? key more) := by
  induction entries with
  | nil => rfl
  | cons e rest ih =>
    rw [List.cons_append, lookup?, lookup?]
    split
    · rfl
    · exact ih

/-- Where no key stands twice, dropping entries drops what is found under their keys. -/
theorem lookup?_filter (p : α × β → Bool) (keys : (entries.map (·.1)).Nodup) (key : α) :
    lookup? key (entries.filter p) = (lookup? key entries).filter fun value => p (key, value) := by
  induction entries with
  | nil => rfl
  | cons e rest ih =>
    obtain ⟨k, v⟩ := e
    obtain ⟨hnew, hkeys⟩ := List.nodup_cons.mp keys
    by_cases hk : k = key
    · subst hk
      have hrest : lookup? k rest = none := by
        cases h : lookup? k rest with
        | none => rfl
        | some value => exact absurd (List.mem_map.mpr ⟨_, mem_of_lookup? h, rfl⟩) hnew
      cases hp : p (k, v) <;> simp [lookup?, Option.filter, hp, ih hkeys, hrest]
    · cases hp : p (k, v) <;> simp [lookup?, hp, ih hkeys, hk]

/-! ## What is set -/

theorem lookup?_assign (key : α) (value : β) (k : α) (entries : List (α × β)) :
    lookup? k (assign key value entries) = if key = k then some value else lookup? k entries := by
  induction entries with
  | nil => rfl
  | cons e rest ih =>
    obtain ⟨k', v⟩ := e
    by_cases hkey : k' = key
    · subst hkey
      by_cases hk : k' = k <;> simp [assign, lookup?, hk]
    · by_cases hk : k' = k
      · subst hk
        have hne : key ≠ k' := fun h => hkey h.symm
        simp [assign, lookup?, hkey, hne]
      · simp [assign, lookup?, hkey, hk, ih]

theorem keys_assign (key : α) (value : β) (entries : List (α × β)) :
    (assign key value entries).map (·.1) =
      if key ∈ entries.map (·.1) then entries.map (·.1) else entries.map (·.1) ++ [key] := by
  induction entries with
  | nil => rfl
  | cons e rest ih =>
    obtain ⟨k', v⟩ := e
    by_cases hkey : k' = key
    · simp [assign, hkey]
    · have hne : ¬ key = k' := fun h => hkey h.symm
      simp only [assign, hkey, if_false, List.map_cons, ih, List.mem_cons, hne, false_or]
      split <;> rfl

/-- A new key comes last. -/
theorem assign_of_not_mem (h : key ∉ entries.map (·.1)) :
    assign key value entries = entries ++ [(key, value)] := by
  induction entries with
  | nil => rfl
  | cons e rest ih =>
    obtain ⟨k, v⟩ := e
    rw [List.map_cons, List.mem_cons, not_or] at h
    rw [assign, if_neg (Ne.symm h.1), ih h.2, List.cons_append]

/-- Setting the value that is there changes nothing. -/
theorem assign_self (h : lookup? key entries = some value) : assign key value entries = entries := by
  induction entries with
  | nil => cases h
  | cons e rest ih =>
    obtain ⟨k, v⟩ := e
    rw [lookup?] at h
    rw [assign]
    split at h
    next hkey =>
      cases h
      rw [if_pos hkey]
    next hkey => rw [if_neg hkey, ih h]

theorem nodup_assign (h : (entries.map (·.1)).Nodup) :
    ((assign key value entries).map (·.1)).Nodup := by
  rw [keys_assign]
  split
  next => exact h
  next hnew =>
    refine List.nodup_append.mpr ⟨h, List.pairwise_singleton _ _, ?_⟩
    intro a ha b hb heq
    rw [List.mem_singleton.mp hb] at heq
    exact hnew (heq ▸ ha)

theorem mem_assign {e : α × β} (h : e ∈ assign key value entries) :
    e = (key, value) ∨ e ∈ entries := by
  induction entries with
  | nil => exact Or.inl (List.mem_singleton.mp h)
  | cons a rest ih =>
    obtain ⟨k', v⟩ := a
    rw [assign] at h
    split at h
    next hkey =>
      rcases List.mem_cons.mp h with rfl | h
      · exact Or.inl (by rw [hkey])
      · exact Or.inr (List.mem_cons_of_mem _ h)
    next =>
      rcases List.mem_cons.mp h with rfl | h
      · exact Or.inr List.mem_cons_self
      · exact (ih h).imp_right (List.mem_cons_of_mem _)

end Entries

end GameText
