import GameText.Mapping

/-!
# Addresses with their edited texts

Reinsertion pairs each address of a mapping with the edit of its ordinal. A missing edit is the
empty text. With the extracted texts for edits, each address is paired with its own text.
-/

namespace GameText

namespace Edits

variable {α : Type}

/-- Each address of a mapping with the text that the edits have for it. -/
def rows (mapping : List α) (edits : Edits) : List (α × Text) :=
  mapping.zipIdx.map fun (a, i) => (a, edits.at i)

theorem rows_fst (mapping : List α) (edits : Edits) : (rows mapping edits).map (·.1) = mapping := by
  rw [rows, List.map_map]
  exact List.zipIdx_map_fst 0 mapping

theorem getElem?_rows (mapping : List α) (edits : Edits) (i : Nat) :
    (rows mapping edits)[i]? = mapping[i]?.map fun a => (a, edits.at i) := by
  rw [rows, List.getElem?_map, List.getElem?_zipIdx, Option.map_map]
  simp only [Function.comp_def, Nat.zero_add]

/-- A row has an address of the mapping. -/
theorem fst_mem_of_mem_rows {mapping : List α} {edits : Edits} {row : α × Text}
    (h : row ∈ rows mapping edits) : row.1 ∈ mapping := by
  rw [← rows_fst mapping edits]
  exact List.mem_map_of_mem h

/-- The text of a row is an edit, or the empty text that a missing one stands for. -/
theorem snd_of_mem_rows {mapping : List α} {edits : Edits} {row : α × Text}
    (h : row ∈ rows mapping edits) : row.2 = [] ∨ some row.2 ∈ edits := by
  obtain ⟨⟨a, i⟩, -, rfl⟩ := List.mem_map.mp h
  show edits.at i = [] ∨ some (edits.at i) ∈ edits
  cases hedit : edits[i]?.join with
  | none => exact .inl (congrArg (·.getD []) hedit)
  | some text =>
    have htext : edits.at i = text := congrArg (·.getD []) hedit
    refine .inr ?_
    rw [htext]
    exact List.mem_of_getElem? (Option.join_eq_some_iff.mp hedit)

theorem pairwise_rows {R : α → α → Prop} {mapping : List α} (h : mapping.Pairwise R)
    (edits : Edits) : (rows mapping edits).Pairwise fun r s => R r.1 s.1 := by
  rw [← rows_fst mapping edits] at h
  exact List.pairwise_map.mp h

/-- The extracted texts as edits. -/
def own (units : List (Text × α)) : Edits := units.map fun u => some u.1

theorem at_own {units : List (Text × α)} {i : Nat} (h : i < units.length) :
    (own units).at i = units[i].1 := by
  rw [Edits.at, own, List.getElem?_map, List.getElem?_eq_getElem h]
  rfl

/-- **With its own texts each address is paired with its own text.** -/
theorem rows_own (units : List (Text × α)) :
    rows (units.map (·.2)) (own units) = units.map fun u => (u.2, u.1) := by
  refine List.ext_getElem ?_ ?_
  · rw [rows, List.length_map, List.length_zipIdx, List.length_map, List.length_map]
  · intro i h₁ h₂
    rw [List.length_map] at h₂
    simp only [rows, List.getElem_map, List.getElem_zipIdx, Nat.zero_add, at_own h₂]

end Edits

end GameText
