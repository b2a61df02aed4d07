import GameText.Proofs.Json.Reading

/-!
# Integers that are too long

Every refusal of a JSON text tells its place but one: an integer may have more digits than are read.
Such a refusal is told where the text comes to one (`read_longInteger`), so a text without so many
digits in a row is read or refused with a place.

The induction is on the fuel of the reader, for values, elements and members at once. What was read
in front of a refusal is a beginning of the text (`read_sound`), so the rest of a refusal is an end
of it.
-/

namespace GameText

namespace Json

/-- The text goes on with an integer of a number of digits. -/
def BeginsInteger (digits : Nat) (s : Text) : Prop :=
  ∃ (token : NumberToken) (behind : Text), token.WellFormed ∧ token.isInteger = true ∧
    token.whole.length = digits ∧ s = token.raw ++ behind

/-- No more digits stand in a row than are read. -/
def ShortDigits (s : Text) : Prop :=
  ∀ digits, digits <:+: s → (∀ c ∈ digits, c.isDigit = true) → digits.length ≤ maxDigits

theorem shortDigits_of_length_le {s : Text} (h : s.length ≤ maxDigits) : ShortDigits s :=
  fun _ hdigits _ => Nat.le_trans hdigits.length_le h

/-- If a refusal is for a long integer, one with so many digits stands in the text where it says. -/
def Refusal.Told (r : Refusal) (s : Text) : Prop :=
  ∀ digits, r.problem = .longInteger digits →
    maxDigits < digits ∧ r.rest <:+ s ∧ BeginsInteger digits r.rest

theorem Refusal.Told.mono {r : Refusal} {s t : Text} (h : r.Told s) (hst : s <:+ t) : r.Told t := by
  intro digits hproblem
  obtain ⟨hlong, hrest, hbegins⟩ := h digits hproblem
  exact ⟨hlong, hrest.trans hst, hbegins⟩

/-- A refusal with a place is for no long integer. -/
theorem told_of_hasPlace {r : Refusal} (h : r.problem.hasPlace = true) (s : Text) : r.Told s := by
  intro digits hproblem
  rw [hproblem] at h
  cases h

/-- A string is refused with a place. -/
theorem hasPlace_of_readString {opened s : Text} {r : Refusal}
    (h : readString opened s = .error r) : r.problem.hasPlace = true := by
  fun_induction readString opened s with
  | case2 => cases h
  | case1 | case3 | case4 | case5 | case9 | case11 | case12 | case14 =>
    cases h
    rfl
  | case6 | case7 | case8 | case10 | case13 | case15 =>
    rename_i ih
    exact ih (map_eq_error h)

theorem told_of_readScalar {s : Text} {r : Refusal} (h : readScalar s = .error r) : r.Told s := by
  unfold readScalar at h
  split at h
  next => cases h
  next =>
    split at h
    next token rest hnumber =>
      split at h
      next hlong =>
        cases h
        rw [Bool.and_eq_true, decide_eq_true_eq] at hlong
        obtain ⟨hformed, hs⟩ := wellFormed_of_readNumber hnumber
        rintro digits ⟨⟩
        exact ⟨hlong.2, List.suffix_rfl, token, rest, hformed, hlong.1, rfl, hs⟩
      next => cases h
    next =>
      cases h
      exact told_of_hasPlace rfl s

/-! ## Along the reader -/

/-- A value that is refused with the fuel is refused rightly. -/
def NodesTold (fuel : Nat) : Prop :=
  ∀ {s r}, readNode fuel s = .error r → r.Told s

def ElementsTold (fuel : Nat) : Prop :=
  ∀ {before s r}, readElements fuel before s = .error r → r.Told s

def MembersTold (fuel : Nat) : Prop :=
  ∀ {before s r}, readMembers fuel before s = .error r → r.Told s

theorem nodesTold_succ {fuel : Nat} (ihElements : ElementsTold fuel)
    (ihMembers : MembersTold fuel) : NodesTold (fuel + 1) := by
  intro s r h
  unfold readNode at h
  split at h
  next cs =>
    rcases bind_eq_error h with hread | ⟨_, -, hret⟩
    · exact told_of_hasPlace (hasPlace_of_readString hread) _
    · cases hret
  next cs =>
    obtain ⟨blanks, inside, hspaces, -, rfl⟩ := exists_spaces cs
    simp only [hspaces] at h
    split at h
    next => cases h
    next =>
      rcases bind_eq_error h with hread | ⟨_, -, hret⟩
      · exact (ihElements hread).mono ⟨'[' :: blanks, rfl⟩
      · cases hret
  next cs =>
    obtain ⟨blanks, inside, hspaces, -, rfl⟩ := exists_spaces cs
    simp only [hspaces] at h
    split at h
    next => cases h
    next =>
      rcases bind_eq_error h with hread | ⟨_, -, hret⟩
      · exact (ihMembers hread).mono ⟨'\x7b' :: blanks, rfl⟩
      · cases hret
  next => exact told_of_readScalar h

theorem elementsTold_succ {fuel : Nat} (ihNode : NodesTold fuel)
    (ihElements : ElementsTold fuel) : ElementsTold (fuel + 1) := by
  intro before s r h
  unfold readElements at h
  rcases bind_eq_error h with hnode | ⟨⟨node, rest₁⟩, hnode, hread⟩
  · exact ihNode hnode
  · obtain ⟨-, rfl⟩ := (read_sound fuel).1 hnode
    obtain ⟨after, rest₂, hspaces, -, rfl⟩ := exists_spaces rest₁
    simp only [hspaces] at hread
    split at hread
    next => cases hread
    next rest₃ =>
      obtain ⟨blanks, rest₄, hspaces, -, rfl⟩ := exists_spaces rest₃
      simp only [hspaces] at hread
      rcases bind_eq_error hread with hitems | ⟨_, -, hret⟩
      · exact (ihElements hitems).mono ⟨node.text ++ (after ++ ',' :: blanks), by simp⟩
      · cases hret
    next =>
      cases hread
      exact told_of_hasPlace rfl _

theorem membersTold_succ {fuel : Nat} (ihNode : NodesTold fuel)
    (ihMembers : MembersTold fuel) : MembersTold (fuel + 1) := by
  intro before s r h
  unfold readMembers at h
  split at h
  next cs =>
    rcases bind_eq_error h with hkey | ⟨⟨token, rest₁⟩, hkey, hread⟩
    · exact told_of_hasPlace (hasPlace_of_readString hkey) _
    · obtain ⟨-, hs⟩ := isStringToken_of_readString hkey
      obtain ⟨afterKey, rest₂, hspaces₁, -, rfl⟩ := exists_spaces rest₁
      simp only [hspaces₁] at hread
      split at hread
      next rest₃ =>
        obtain ⟨beforeValue, rest₄, hspaces₂, -, rfl⟩ := exists_spaces rest₃
        simp only [hspaces₂] at hread
        rcases bind_eq_error hread with hnode | ⟨⟨node, rest₅⟩, hnode, hvalue⟩
        · rw [hs]
          exact (ihNode hnode).mono ⟨token.raw ++ (afterKey ++ ':' :: beforeValue), by simp⟩
        · obtain ⟨-, rfl⟩ := (read_sound fuel).1 hnode
          obtain ⟨after, rest₆, hspaces₃, -, rfl⟩ := exists_spaces rest₅
          simp only [hspaces₃] at hvalue
          split at hvalue
          next => cases hvalue
          next rest₇ =>
            obtain ⟨blanks, rest₈, hspaces₄, -, rfl⟩ := exists_spaces rest₇
            simp only [hspaces₄] at hvalue
            rcases bind_eq_error hvalue with hmembers | ⟨_, -, hret⟩
            · rw [hs]
              exact (ihMembers hmembers).mono ⟨token.raw ++ (afterKey ++ ':' :: (beforeValue ++
                (node.text ++ (after ++ ',' :: blanks)))), by simp⟩
            · cases hret
          next =>
            cases hvalue
            exact told_of_hasPlace rfl _
      next =>
        cases hread
        exact told_of_hasPlace rfl _
  next =>
    cases h
    exact told_of_hasPlace rfl _

/-- Whatever the fuel, what is refused is refused rightly. -/
theorem refusals_told (fuel : Nat) : NodesTold fuel ∧ ElementsTold fuel ∧ MembersTold fuel := by
  induction fuel with
  | zero =>
    refine ⟨fun h => ?_, fun h => ?_, fun h => ?_⟩
    · cases h
      exact told_of_hasPlace rfl _
    · cases h
      exact told_of_hasPlace rfl _
    · cases h
      exact told_of_hasPlace rfl _
  | succ fuel ih =>
    obtain ⟨ihNode, ihElements, ihMembers⟩ := ih
    exact ⟨nodesTold_succ ihElements ihMembers, elementsTold_succ ihNode ihElements,
      membersTold_succ ihNode ihMembers⟩

/-- **A text that is refused for a long integer has one**, with as many digits as the refusal says and
more than are read. -/
theorem read_longInteger {s : Text} {r : Refusal} (h : read s = .error r) : r.Told s := by
  have hdocument := map_eq_error h
  unfold Document.read at hdocument
  split at hdocument
  next =>
    cases hdocument
    exact told_of_hasPlace rfl _
  next =>
    obtain ⟨before, rest₁, hspaces, -, rfl⟩ := exists_spaces s
    simp only [hspaces] at hdocument
    rcases bind_eq_error hdocument with hroot | ⟨⟨root, rest₂⟩, hroot, hafter⟩
    · exact ((refusals_told _).1 hroot).mono ⟨before, rfl⟩
    · simp only at hafter
      split at hafter
      next => cases hafter
      next =>
        cases hafter
        exact told_of_hasPlace rfl _

/-- **A text without more digits in a row than are read** is read or refused with a place. -/
theorem ShortDigits.hasPlace {s : Text} {r : Refusal} (short : ShortDigits s)
    (h : read s = .error r) : r.problem.hasPlace = true := by
  by_contra hplace
  obtain ⟨digits, hproblem⟩ : ∃ digits, r.problem = .longInteger digits := by
    cases hproblem : r.problem with
    | longInteger digits => exact ⟨digits, rfl⟩
    | _ =>
      rw [hproblem] at hplace
      exact absurd rfl hplace
  obtain ⟨hlong, ⟨front, hfront⟩, token, behind, hformed, -, hlength, hrest⟩ :=
    read_longInteger h digits hproblem
  have hwhole : token.whole <:+: s := by
    have hraw : token.whole <:+: token.raw := ⟨if token.negative then ['-'] else [],
      (if token.fraction.isEmpty then [] else '.' :: token.fraction) ++
        (token.exponent.map Exponent.raw).getD [], by simp [NumberToken.raw]⟩
    exact hraw.trans ⟨front, behind, by rw [List.append_assoc, ← hrest, hfront]⟩
  have hle := short token.whole hwhole hformed.whole.isDigit
  omega

end Json

end GameText
