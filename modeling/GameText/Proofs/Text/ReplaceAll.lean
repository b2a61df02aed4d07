import GameText.Proofs.Text.Beginning

/-!
# One text replaced by another

`Text.replaceAll` reads a text once: where the old text stands the new one is written, and the
reading goes on behind it. So it passes a stretch in which the old text does not begin, even if the
old text would begin in what has been written.
-/

namespace GameText

namespace Text

section Replacing

variable {old : Text} (hold : old ≠ []) (new : Text)

include hold

theorem replaceAll_nil : replaceAll old new [] = [] := by
  rw [replaceAll, if_neg (by rwa [List.isEmpty_iff])]

/-- Where the old text stands, the new one is written. -/
theorem replaceAll_old (rest : Text) :
    replaceAll old new (old ++ rest) = new ++ replaceAll old new rest := by
  obtain ⟨c, cs, rfl⟩ := List.exists_cons_of_ne_nil hold
  have hafter : after? (c :: cs) (c :: (cs ++ rest)) = some rest := after?_eq_some_iff.mpr rfl
  rw [List.cons_append, replaceAll, if_neg (by simp)]
  split
  next rest' hfound =>
    rw [hafter] at hfound
    cases hfound
    rfl
  next hnone =>
    rw [hafter] at hnone
    cases hnone

/-- Where the old text does not begin, a character stays. -/
theorem replaceAll_other {c : Char} {cs : Text} (h : ¬ old <+: c :: cs) :
    replaceAll old new (c :: cs) = c :: replaceAll old new cs := by
  rw [replaceAll, if_neg (by rwa [List.isEmpty_iff])]
  split
  next rest hfound => exact absurd ⟨rest, (after?_eq_some_iff.mp hfound).symm⟩ h
  next => rfl

/-- A stretch in which the old text does not begin stays. -/
theorem replaceAll_append {front rest : Text}
    (h : ∀ tail, tail <:+ front → tail ≠ [] → ¬ old <+: tail ++ rest) :
    replaceAll old new (front ++ rest) = front ++ replaceAll old new rest := by
  induction front with
  | nil => rfl
  | cons c cs ih =>
    have hhere : ¬ old <+: c :: (cs ++ rest) := h (c :: cs) List.suffix_rfl (List.cons_ne_nil _ _)
    rw [List.cons_append, replaceAll_other hold new hhere,
      ih fun tail htail => h tail (htail.trans (List.suffix_cons c cs))]
    rfl

end Replacing

/-- A new text that is not empty leaves no text empty. -/
theorem replaceAll_ne_nil {old new s : Text} (hnew : new ≠ []) (hs : s ≠ []) :
    replaceAll old new s ≠ [] := by
  cases s with
  | nil => exact absurd rfl hs
  | cons c cs =>
    rw [replaceAll]
    split
    · exact List.append_ne_nil_of_left_ne_nil hnew _
    · split
      · exact List.append_ne_nil_of_left_ne_nil hnew _
      · exact List.cons_ne_nil _ _

end Text

end GameText
