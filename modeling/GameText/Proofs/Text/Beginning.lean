import GameText.Text.Basic

/-!
# How a text begins

What stands behind a beginning of a text, and how far a text consists of characters of a kind:
`Stops` says that it does not begin with one, so that a row of them written before it is cut off
again as a whole. What stands before the first of some characters, and behind the last, can be read
off.
-/

namespace GameText

namespace Text

theorem after?_eq_some_iff {lead s rest : Text} : after? lead s = some rest ↔ s = lead ++ rest := by
  induction lead generalizing s with
  | nil =>
    rw [after?, Option.some_inj, List.nil_append]
  | cons p ps ih =>
    cases s with
    | nil =>
      rw [after?]
      constructor
      · intro h
        cases h
      · intro h
        cases h
    | cons c cs =>
      rw [after?, List.cons_append, List.cons.injEq]
      split
      next hc => rw [ih]; exact ⟨fun h => ⟨hc, h⟩, fun h => h.2⟩
      next hc =>
        constructor
        · intro h
          cases h
        · intro h
          exact absurd h.1 hc

/-- A beginning does not reach a character that it does not hold. -/
theorem after?_append_cons {lead : Text} {c : Char} (hc : c ∉ lead) (s rest : Text) :
    after? lead (s ++ c :: rest) = (after? lead s).map (· ++ c :: rest) := by
  induction lead generalizing s with
  | nil => rfl
  | cons p ps ih =>
    obtain ⟨hp, hps⟩ := List.ne_and_not_mem_of_not_mem_cons hc
    cases s with
    | nil => exact if_neg hp
    | cons d ds =>
      rw [List.cons_append, after?, after?]
      split
      next => exact ih hps ds
      next => rfl

/-- The text does not begin with a character of a kind. -/
def Stops (p : Char → Bool) (s : Text) : Prop := ∀ c ∈ s.head?, p c = false

theorem stops_nil (p : Char → Bool) : Stops p [] := fun _ h => nomatch h

theorem stops_cons {p : Char → Bool} {c : Char} {s : Text} : Stops p (c :: s) ↔ p c = false := by
  simp only [Stops, List.head?_cons, Option.mem_some_iff, forall_eq']

theorem stops_dropWhile (p : Char → Bool) (s : Text) : Stops p (s.dropWhile p) := by
  intro c hc
  have hhead := List.head?_dropWhile_not p s
  rw [Option.mem_def.mp hc] at hhead
  exact hhead

theorem takeWhile_append_of_stops {p : Char → Bool} {xs ys : Text} (hx : ∀ c ∈ xs, p c = true)
    (hy : Stops p ys) : (xs ++ ys).takeWhile p = xs := by
  rw [List.takeWhile_append_of_pos hx]
  cases ys with
  | nil => rw [List.takeWhile_nil, List.append_nil]
  | cons y ys => rw [List.takeWhile_cons_of_neg (by simp [stops_cons.mp hy]), List.append_nil]

theorem dropWhile_append_of_stops {p : Char → Bool} {xs ys : Text} (hx : ∀ c ∈ xs, p c = true)
    (hy : Stops p ys) : (xs ++ ys).dropWhile p = ys := by
  rw [List.dropWhile_append_of_pos hx]
  cases ys with
  | nil => rfl
  | cons y ys => rw [List.dropWhile_cons_of_neg (by simp [stops_cons.mp hy])]

/-! ## Characters inside a text -/

/-- What stands before the first of some characters can be read off. -/
theorem eq_of_append_cons_eq {c : Char} {a b s t : Text} (ha : c ∉ a) (hb : c ∉ b)
    (h : a ++ c :: s = b ++ c :: t) : a = b ∧ s = t := by
  induction a generalizing b with
  | nil =>
    cases b with
    | nil => exact ⟨rfl, (List.cons.inj h).2⟩
    | cons d b => exact absurd ((List.cons.inj h).1 ▸ List.mem_cons_self) hb
  | cons d a ih =>
    cases b with
    | nil => exact absurd ((List.cons.inj h).1 ▸ List.mem_cons_self) ha
    | cons e b =>
      obtain ⟨hde, htail⟩ := List.cons.inj h
      obtain ⟨hab, hst⟩ :=
        ih (List.not_mem_of_not_mem_cons ha) (List.not_mem_of_not_mem_cons hb) htail
      exact ⟨by rw [hde, hab], hst⟩

/-- What stands behind the last of some characters can be read off. -/
theorem eq_of_append_cons_eq_of_last {c : Char} {a b s t : Text} (hs : c ∉ s) (ht : c ∉ t)
    (h : a ++ c :: s = b ++ c :: t) : a = b ∧ s = t := by
  have hreverse := congrArg List.reverse h
  simp only [List.reverse_append, List.reverse_cons, List.append_assoc, List.singleton_append]
    at hreverse
  obtain ⟨hst, hab⟩ := eq_of_append_cons_eq (mt List.mem_reverse.mp hs) (mt List.mem_reverse.mp ht)
    hreverse
  exact ⟨List.reverse_inj.mp hab, List.reverse_inj.mp hst⟩

/-- A character of two texts, one behind the other, stands in one of them. -/
theorem append_eq_append_cons {a b x y : Text} {c : Char} (h : a ++ b = x ++ c :: y) :
    (∃ y', a = x ++ c :: y' ∧ y = y' ++ b) ∨ ∃ x', x = a ++ x' ∧ b = x' ++ c :: y := by
  rcases List.append_eq_append_iff.mp h with ⟨x', hx, hb⟩ | ⟨y', ha, hy⟩
  · exact .inr ⟨x', hx, hb⟩
  · rcases List.cons_eq_append_iff.mp hy with ⟨rfl, hb⟩ | ⟨y'', rfl, hy⟩
    · exact .inr ⟨[], by rw [ha, List.append_nil, List.append_nil], hb⟩
    · exact .inl ⟨y'', ha, (List.cons.inj hy).2⟩

/-- A character that does not stand in a text stands behind it. -/
theorem exists_of_append_eq_append_cons {a b x y : Text} {c : Char} (ha : c ∉ a)
    (h : a ++ b = x ++ c :: y) : ∃ x', x = a ++ x' ∧ b = x' ++ c :: y := by
  rcases append_eq_append_cons h with ⟨y', rfl, -⟩ | hbehind
  · exact absurd (List.mem_append_right x List.mem_cons_self) ha
  · exact hbehind

end Text

end GameText
