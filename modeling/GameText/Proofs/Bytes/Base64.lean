import GameText.Bytes.Base64

/-!
# Bytes read back from base64

What was written in base64 is read back (`decode_encode`). The reader takes one character after the
other, so the law is one about whole groups that leave the reader between two groups, and about the
two ways in which the last group is filled up.

Not established: what the reader makes of a text that was not written here.
-/

namespace GameText

namespace Base64

theorem toNat_lt (b : UInt8) : b.toNat < 256 := b.toNat_lt

/-- A byte is found from its number, however that was put together. -/
theorem ofNat_of_eq {n : Nat} {b : UInt8} (h : n = b.toNat) : UInt8.ofNat n = b := by
  rw [h, UInt8.ofNat_toNat]

/-- Each of the sixty-four characters stands for its six bits, and none fills a group up. -/
theorem value?_digit {n : Nat} (h : n < 64) : digit n ≠ '=' ∧ value? (digit n) = some n := by
  have hall : ∀ n < 64, digit n ≠ '=' ∧ value? (digit n) = some n := by decide +kernel
  exact hall n h

theorem digit_lt {n : Nat} (h : n < 64) : (digit n).toNat < 128 := by
  have hall : ∀ n < 64, (digit n).toNat < 128 := by decide +kernel
  exact hall n h

section Digit

variable {n groups bits fills : Nat} (h : n < 64) (rest : Text)
include h

theorem decodeFrom_first : decodeFrom ⟨groups, 0, bits, fills⟩ (digit n :: rest) =
    decodeFrom ⟨groups, 1, n, 0⟩ rest := by
  simp only [decodeFrom, (value?_digit h).1, (value?_digit h).2, if_false]

theorem decodeFrom_second : decodeFrom ⟨groups, 1, bits, fills⟩ (digit n :: rest) =
    (decodeFrom ⟨groups, 2, n % 16, 0⟩ rest).map (UInt8.ofNat (bits * 4 + n / 16) :: ·) := by
  simp only [decodeFrom, (value?_digit h).1, (value?_digit h).2, if_false]

theorem decodeFrom_third : decodeFrom ⟨groups, 2, bits, fills⟩ (digit n :: rest) =
    (decodeFrom ⟨groups, 3, n % 4, 0⟩ rest).map (UInt8.ofNat (bits * 16 + n / 4) :: ·) := by
  simp only [decodeFrom, (value?_digit h).1, (value?_digit h).2, if_false]

theorem decodeFrom_fourth : decodeFrom ⟨groups, 3, bits, fills⟩ (digit n :: rest) =
    (decodeFrom ⟨groups + 1, 0, 0, 0⟩ rest).map (UInt8.ofNat (bits * 64 + n) :: ·) := by
  simp only [decodeFrom, (value?_digit h).1, (value?_digit h).2, if_false]

end Digit

/-- Between two groups the reader reads bytes back. -/
theorem decodeFrom_encode (groups : Nat) (bytes : Bytes) :
    decodeFrom ⟨groups, 0, 0, 0⟩ (encode bytes) = .ok bytes := by
  fun_induction encode bytes generalizing groups with
  | case1 => rfl
  | case2 a =>
    have ha := toNat_lt a
    have hbyte : UInt8.ofNat (a.toNat / 4 * 4 + a.toNat % 4 * 16 / 16) = a :=
      ofNat_of_eq (by omega)
    rw [decodeFrom_first (by omega), decodeFrom_second (by omega), hbyte]
    rfl
  | case3 a b =>
    have ha := toNat_lt a
    have hb := toNat_lt b
    have hfirst : UInt8.ofNat (a.toNat / 4 * 4 + (a.toNat % 4 * 16 + b.toNat / 16) / 16) = a :=
      ofNat_of_eq (by omega)
    have hsecond : UInt8.ofNat ((a.toNat % 4 * 16 + b.toNat / 16) % 16 * 16 +
        b.toNat % 16 * 4 / 4) = b := ofNat_of_eq (by omega)
    rw [decodeFrom_first (by omega), decodeFrom_second (by omega), decodeFrom_third (by omega),
      hfirst, hsecond]
    rfl
  | case4 a b c rest ih =>
    have ha := toNat_lt a
    have hb := toNat_lt b
    have hc := toNat_lt c
    have hfirst : UInt8.ofNat (a.toNat / 4 * 4 + (a.toNat % 4 * 16 + b.toNat / 16) / 16) = a :=
      ofNat_of_eq (by omega)
    have hsecond : UInt8.ofNat ((a.toNat % 4 * 16 + b.toNat / 16) % 16 * 16 +
        (b.toNat % 16 * 4 + c.toNat / 64) / 4) = b := ofNat_of_eq (by omega)
    have hthird : UInt8.ofNat ((b.toNat % 16 * 4 + c.toNat / 64) % 4 * 64 + c.toNat % 64) = c :=
      ofNat_of_eq (by omega)
    rw [decodeFrom_first (by omega), decodeFrom_second (by omega), decodeFrom_third (by omega),
      decodeFrom_fourth (by omega), ih, hfirst, hsecond, hthird]
    rfl

/-- Only characters of ASCII are written. -/
theorem encode_ascii (bytes : Bytes) : ∀ c ∈ encode bytes, c.toNat < 128 := by
  fun_induction encode bytes with
  | case1 => exact nofun
  | case2 a =>
    have ha := toNat_lt a
    simp only [List.forall_mem_cons]
    exact ⟨digit_lt (by omega), digit_lt (by omega), by decide, by decide, nofun⟩
  | case3 a b =>
    have ha := toNat_lt a
    have hb := toNat_lt b
    simp only [List.forall_mem_cons]
    exact ⟨digit_lt (by omega), digit_lt (by omega), digit_lt (by omega), by decide, nofun⟩
  | case4 a b c rest ih =>
    have ha := toNat_lt a
    have hb := toNat_lt b
    have hc := toNat_lt c
    simp only [List.forall_mem_cons]
    exact ⟨digit_lt (by omega), digit_lt (by omega), digit_lt (by omega), digit_lt (by omega), ih⟩

/-- **Bytes are read back from base64.** -/
theorem decode_encode (bytes : Bytes) : decode (encode bytes) = .ok bytes := by
  have hascii : (encode bytes).any (128 ≤ ·.toNat) = false := by
    rw [List.any_eq_false]
    intro c hc
    simpa using encode_ascii bytes c hc
  rw [decode, if_neg (by simp [hascii]), decodeFrom_encode]

end Base64

end GameText
