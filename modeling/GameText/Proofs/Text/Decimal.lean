import GameText.Proofs.Json.NumberToken
import Mathlib.Algebra.Group.Nat.Defs

/-!
# Decimal digits read back

The decimal digits of a natural number are those of a number token: there is no needless zero, and
they stand for the number. So different numbers have different digits.
-/

namespace GameText

namespace Text

theorem isDigit_of_mem_ofNat {n : Nat} {c : Char} (h : c ∈ ofNat n) : c.isDigit = true :=
  Nat.isDigit_of_mem_toDigits (by decide) (by decide) h

theorem ofNat_ne_nil (n : Nat) : ofNat n ≠ [] := Nat.toDigits_ne_nil

theorem ofNat_injective {m n : Nat} (h : ofNat m = ofNat n) : m = n := by
  have hdigits : Nat.toDigits 10 m = Nat.toDigits 10 n := h
  rw [← Nat.ofDigitChars_ten_toDigits (n := m), hdigits, Nat.ofDigitChars_ten_toDigits]

/-- A number has no more digits than it takes. -/
theorem length_ofNat_le {n k : Nat} (hk : 0 < k) (h : n < 10 ^ k) : (ofNat n).length ≤ k :=
  (Nat.length_toDigits_le_iff (by decide) hk).mpr h

theorem head?_ofNat {n : Nat} (hn : n ≠ 0) : (ofNat n).head? ≠ some '0' := by
  induction n using Nat.strongRecOn with
  | ind n ih =>
    rw [ofNat]
    by_cases hlt : n < 10
    · rw [Nat.toDigits_of_lt_base hlt, List.head?_cons]
      intro heq
      exact hn (Nat.digitChar_eq_zero.mp (Option.some.inj heq))
    · have hhead := ih (n / 10) (by omega) (by omega)
      obtain ⟨c, cs, hcons⟩ := List.exists_cons_of_ne_nil (ofNat_ne_nil (n / 10))
      rw [hcons] at hhead
      rw [ofNat] at hcons
      rw [Nat.toDigits_of_base_le (by decide) (by omega), hcons]
      exact hhead

end Text

namespace Json

theorem natOfDigits_ofNat (n : Nat) : natOfDigits (Text.ofNat n) = n := by
  have h := Nat.ofDigitChars_ten_toDigits (n := n)
  rw [Nat.ofDigitChars_eq_foldl] at h
  rw [natOfDigits, Text.ofNat]
  simpa only [Nat.mul_comm] using h

theorem isWhole_ofNat (n : Nat) : IsWhole (Text.ofNat n) := by
  by_cases hn : n = 0
  · subst hn
    exact .inl rfl
  · exact .inr ⟨Text.ofNat_ne_nil n, Text.head?_ofNat hn, fun c hc => Text.isDigit_of_mem_ofNat hc⟩

/-- The token of an integer. -/
def NumberToken.ofInt (n : Int) : NumberToken := ⟨decide (n < 0), Text.ofNat n.natAbs, [], none⟩

namespace NumberToken

theorem wellFormed_ofInt (n : Int) : (ofInt n).WellFormed :=
  ⟨isWhole_ofNat n.natAbs, nofun, nofun⟩

theorem raw_ofInt (n : Int) : (ofInt n).raw = Text.ofInt n := by
  cases n with
  | ofNat n => simp [raw, ofInt, Text.ofInt]
  | negSucc n => simp [raw, ofInt, Text.ofInt]

theorem value_ofInt (n : Int) : (ofInt n).value = .int n := by
  have hinteger : (ofInt n).isInteger = true := rfl
  rw [value, if_pos hinteger]
  cases n with
  | ofNat n =>
    have hsign : ¬ Int.ofNat n < 0 := Int.not_lt.mpr (Int.natCast_nonneg n)
    simp only [ofInt, natOfDigits_ofNat, hsign, decide_false, Bool.false_eq_true, if_false]
    rfl
  | negSucc n =>
    have hsign : Int.negSucc n < 0 := Int.negSucc_lt_zero n
    simp only [ofInt, natOfDigits_ofNat, hsign, decide_true, if_true]
    rfl

end NumberToken

end Json

end GameText
