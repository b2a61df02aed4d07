import GameText.Bytes.Utf8

/-!
# Texts read back from UTF-8

A text is read back from its bytes (`decode_encode`): the bytes of a character are read as that
character, whatever follows them. And bytes that are read as a text are the bytes of that text
(`encode_of_decode`): a character is read from no bytes but its own, since those that are written too
long are refused. A text that was read has no more characters than it had bytes.
-/

namespace GameText

namespace Utf8

/-- The bytes of a character of each length. -/
inductive CharBytes : Char → Bytes → Prop where
  | one {c : Char} (h : c.toNat < 0x80) : CharBytes c [UInt8.ofNat c.toNat]
  | two {c : Char} (h : 0x80 ≤ c.toNat) (h' : c.toNat < 0x800) :
    CharBytes c [UInt8.ofNat (0xC0 + c.toNat / 64), UInt8.ofNat (0x80 + c.toNat % 64)]
  | three {c : Char} (h : 0x800 ≤ c.toNat) (h' : c.toNat < 0x10000) :
    CharBytes c [UInt8.ofNat (0xE0 + c.toNat / 4096), UInt8.ofNat (0x80 + c.toNat / 64 % 64),
      UInt8.ofNat (0x80 + c.toNat % 64)]
  | four {c : Char} (h : 0x10000 ≤ c.toNat) :
    CharBytes c [UInt8.ofNat (0xF0 + c.toNat / 262144), UInt8.ofNat (0x80 + c.toNat / 4096 % 64),
      UInt8.ofNat (0x80 + c.toNat / 64 % 64), UInt8.ofNat (0x80 + c.toNat % 64)]

theorem charBytes_encodeChar (c : Char) : CharBytes c (encodeChar c) := by
  unfold encodeChar
  dsimp only
  split
  next h => exact .one h
  next h =>
    split
    next h' => exact .two (by omega) h'
    next h' =>
      split
      next h'' => exact .three (by omega) h''
      next h'' => exact .four (by omega)

theorem toNat_ofNat {n : Nat} (h : n < 256) : (UInt8.ofNat n).toNat = n :=
  UInt8.toNat_ofNat_of_lt' h

/-- No character lies between the halves of code pairs, or behind the last plane. -/
theorem valid (c : Char) : c.toNat < 0xD800 ∨ 0xDFFF < c.toNat ∧ c.toNat < 0x110000 := c.valid

theorem ofNat_of_eq {n : Nat} {c : Char} (h : n = c.toNat) : Char.ofNat n = c := by
  rw [h, Char.ofNat_toNat]

/-- A byte that continues a character holds six bits. -/
theorem continuation {n : Nat} (h : n < 64) :
    isContinuation (UInt8.ofNat (0x80 + n)) = true ∧ low6 (UInt8.ofNat (0x80 + n)) = n := by
  have hbyte := toNat_ofNat (n := 0x80 + n) (by omega)
  rw [isContinuation, low6, hbyte]
  simp only [Bool.and_eq_true, decide_eq_true_eq]
  omega

/-- A byte that continues a character is its six bits behind the mark. -/
theorem toNat_of_isContinuation {b : UInt8} (h : isContinuation b = true) :
    b.toNat = 0x80 + low6 b ∧ low6 b < 64 := by
  simp only [isContinuation, Bool.and_eq_true, decide_eq_true_eq] at h
  unfold low6
  omega

/-- The bounds on the second byte leave out what is written too long, the halves of code pairs, and
what lies behind the last plane. -/
theorem secondFits_of_bounds {first second : UInt8} (h : isContinuation second = true)
    (hE0 : first.toNat = 0xE0 → 0xA0 ≤ second.toNat)
    (hED : first.toNat = 0xED → second.toNat ≤ 0x9F)
    (hF0 : first.toNat = 0xF0 → 0x90 ≤ second.toNat)
    (hF4 : first.toNat = 0xF4 → second.toNat ≤ 0x8F) : secondFits first second = true := by
  unfold secondFits
  rw [h, Bool.true_and]
  split
  next heq => exact decide_eq_true (hE0 (congrArg UInt8.toNat (eq_of_beq heq)))
  next =>
    split
    next heq => exact decide_eq_true (hED (congrArg UInt8.toNat (eq_of_beq heq)))
    next =>
      split
      next heq => exact decide_eq_true (hF0 (congrArg UInt8.toNat (eq_of_beq heq)))
      next =>
        split
        next heq => exact decide_eq_true (hF4 (congrArg UInt8.toNat (eq_of_beq heq)))
        next => rfl

theorem bounds_of_secondFits {first second : UInt8} (h : secondFits first second = true) :
    isContinuation second = true ∧ (first.toNat = 0xE0 → 0xA0 ≤ second.toNat) ∧
      (first.toNat = 0xED → second.toNat ≤ 0x9F) ∧ (first.toNat = 0xF0 → 0x90 ≤ second.toNat) ∧
      (first.toNat = 0xF4 → second.toNat ≤ 0x8F) := by
  obtain ⟨hsecond, hbounds⟩ := Bool.and_eq_true_iff.mp h
  have hbyte : ∀ b : UInt8, (first == b) = decide (first.toNat = b.toNat) := fun b => by
    rw [Bool.eq_iff_iff, beq_iff_eq, decide_eq_true_eq, UInt8.toNat_inj]
  simp only [hbyte, decide_eq_true_eq, UInt8.reduceToNat] at hbounds
  refine ⟨hsecond, ?_, ?_, ?_, ?_⟩
  all_goals
    intro hfirst
    simpa [hfirst] using hbounds

/-- The bytes of a character are read as that character, whatever follows. -/
theorem CharBytes.decodeOne {c : Char} {bytes : Bytes} (h : CharBytes c bytes) :
    ∃ first more, bytes = first :: more ∧
      ∀ rest, Utf8.decodeOne first (more ++ rest) = .ok (c, more.length) := by
  have hvalid := valid c
  cases h with
  | one h =>
    refine ⟨_, [], rfl, fun rest => ?_⟩
    have hfirst := toNat_ofNat (n := c.toNat) (by omega)
    unfold Utf8.decodeOne
    dsimp only
    rw [hfirst, if_pos h, ofNat_of_eq rfl]
    rfl
  | two h h' =>
    refine ⟨_, [_], rfl, fun rest => ?_⟩
    have hfirst := toNat_ofNat (n := 0xC0 + c.toNat / 64) (by omega)
    obtain ⟨hsecond, hlow⟩ := continuation (n := c.toNat % 64) (by omega)
    have hchar : Char.ofNat ((0xC0 + c.toNat / 64) % 32 * 64 + c.toNat % 64) = c :=
      ofNat_of_eq (by omega)
    unfold Utf8.decodeOne
    dsimp only [List.cons_append]
    rw [hfirst, if_neg (by omega), if_pos (by omega), if_pos hsecond, hlow, hchar]
    rfl
  | three h h' =>
    refine ⟨_, [_, _], rfl, fun rest => ?_⟩
    have hfirst := toNat_ofNat (n := 0xE0 + c.toNat / 4096) (by omega)
    have hbyte := toNat_ofNat (n := 0x80 + c.toNat / 64 % 64) (by omega)
    obtain ⟨hsecond, hlow⟩ := continuation (n := c.toNat / 64 % 64) (by omega)
    obtain ⟨hthird, hlow'⟩ := continuation (n := c.toNat % 64) (by omega)
    have hfits : secondFits (UInt8.ofNat (0xE0 + c.toNat / 4096))
        (UInt8.ofNat (0x80 + c.toNat / 64 % 64)) = true :=
      secondFits_of_bounds hsecond (by omega) (by omega) (by omega) (by omega)
    have hchar : Char.ofNat (((0xE0 + c.toNat / 4096) % 16 * 64 + c.toNat / 64 % 64) * 64 +
        c.toNat % 64) = c := ofNat_of_eq (by omega)
    unfold Utf8.decodeOne
    dsimp only [List.cons_append]
    rw [hfirst, if_neg (by omega), if_neg (by omega), if_pos (by omega), hfits, hthird, hlow, hlow',
      hchar]
    rfl
  | four h =>
    refine ⟨_, [_, _, _], rfl, fun rest => ?_⟩
    have hfirst := toNat_ofNat (n := 0xF0 + c.toNat / 262144) (by omega)
    have hbyte := toNat_ofNat (n := 0x80 + c.toNat / 4096 % 64) (by omega)
    obtain ⟨hsecond, hlow⟩ := continuation (n := c.toNat / 4096 % 64) (by omega)
    obtain ⟨hthird, hlow'⟩ := continuation (n := c.toNat / 64 % 64) (by omega)
    obtain ⟨hfourth, hlow''⟩ := continuation (n := c.toNat % 64) (by omega)
    have hfits : secondFits (UInt8.ofNat (0xF0 + c.toNat / 262144))
        (UInt8.ofNat (0x80 + c.toNat / 4096 % 64)) = true :=
      secondFits_of_bounds hsecond (by omega) (by omega) (by omega) (by omega)
    have hchar : Char.ofNat ((((0xF0 + c.toNat / 262144) % 8 * 64 + c.toNat / 4096 % 64) * 64 +
        c.toNat / 64 % 64) * 64 + c.toNat % 64) = c := ofNat_of_eq (by omega)
    unfold Utf8.decodeOne
    dsimp only [List.cons_append]
    rw [hfirst, if_neg (by omega), if_neg (by omega), if_neg (by omega), if_pos (by omega), hfits,
      hthird, hfourth, hlow, hlow', hlow'', hchar]
    rfl

/-- Bytes of a character that was read are passed over. -/
theorem decodeFrom_skip (offset : Nat) (more rest : Bytes) :
    decodeFrom offset more.length (more ++ rest) = decodeFrom (offset + more.length) 0 rest := by
  induction more generalizing offset with
  | nil => rfl
  | cons b more ih =>
    rw [List.length_cons, List.cons_append, decodeFrom, ih, Nat.add_right_comm, Nat.add_assoc]

theorem decodeFrom_encode (offset : Nat) (s : Text) : decodeFrom offset 0 (encode s) = .ok s := by
  induction s generalizing offset with
  | nil => rfl
  | cons c s ih =>
    obtain ⟨first, more, hbytes, hone⟩ := (charBytes_encodeChar c).decodeOne
    have hencode : encode (c :: s) = first :: (more ++ encode s) := by
      rw [encode, List.flatMap_cons, hbytes]
      rfl
    rw [hencode, decodeFrom, hone]
    dsimp only
    rw [decodeFrom_skip, ih]
    rfl

/-- **A text is read back from its bytes.** -/
theorem decode_encode (s : Text) : decode (encode s) = .ok s := decodeFrom_encode 0 s

/-! ## Bytes of a text that was read -/

theorem CharBytes.eq_encodeChar {c : Char} {bytes : Bytes} (h : CharBytes c bytes) :
    bytes = encodeChar c := by
  unfold encodeChar
  cases h with
  | one h => exact (if_pos h).symm
  | two h h' => exact ((if_neg (Nat.not_lt.mpr h)).trans (if_pos h')).symm
  | three h h' =>
    exact ((if_neg (by omega)).trans ((if_neg (Nat.not_lt.mpr h)).trans (if_pos h'))).symm
  | four h =>
    exact ((if_neg (by omega)).trans ((if_neg (by omega)).trans (if_neg (Nat.not_lt.mpr h)))).symm

theorem toNat_char {n : Nat} (h : n < 0xD800 ∨ 0xDFFF < n ∧ n < 0x110000) :
    (Char.ofNat n).toNat = n := by
  have hvalid : n.isValidChar := h
  rw [Char.ofNat, dif_pos hvalid]
  rfl

theorem ofNat_toNat_of_eq {n : Nat} {b : UInt8} (h : n = b.toNat) : UInt8.ofNat n = b := by
  rw [h, UInt8.ofNat_toNat]

theorem CharBytes.of_one {first : UInt8} (h : first.toNat < 0x80) :
    CharBytes (Char.ofNat first.toNat) [first] := by
  have hchar := toNat_char (n := first.toNat) (by omega)
  have hbytes := CharBytes.one (c := Char.ofNat first.toNat) (by omega)
  rwa [hchar, ofNat_toNat_of_eq rfl] at hbytes

theorem CharBytes.of_two {first second : UInt8} (h : 0xC2 ≤ first.toNat ∧ first.toNat ≤ 0xDF)
    (hsecond : isContinuation second = true) :
    CharBytes (Char.ofNat (first.toNat % 32 * 64 + low6 second)) [first, second] := by
  obtain ⟨hbyte, hlow⟩ := toNat_of_isContinuation hsecond
  have hchar := toNat_char (n := first.toNat % 32 * 64 + low6 second) (by omega)
  have hbytes := CharBytes.two (c := Char.ofNat (first.toNat % 32 * 64 + low6 second))
    (by omega) (by omega)
  rwa [hchar, ofNat_toNat_of_eq (b := first) (by omega),
    ofNat_toNat_of_eq (b := second) (by omega)] at hbytes

theorem CharBytes.of_three {first second third : UInt8}
    (h : 0xE0 ≤ first.toNat ∧ first.toNat ≤ 0xEF) (hfits : secondFits first second = true)
    (hthird : isContinuation third = true) :
    CharBytes (Char.ofNat ((first.toNat % 16 * 64 + low6 second) * 64 + low6 third))
      [first, second, third] := by
  obtain ⟨hsecond, hE0, hED, -, -⟩ := bounds_of_secondFits hfits
  obtain ⟨hbyte, hlow⟩ := toNat_of_isContinuation hsecond
  obtain ⟨hbyte', hlow'⟩ := toNat_of_isContinuation hthird
  have hchar := toNat_char (n := (first.toNat % 16 * 64 + low6 second) * 64 + low6 third) (by omega)
  have hbytes := CharBytes.three
    (c := Char.ofNat ((first.toNat % 16 * 64 + low6 second) * 64 + low6 third))
    (by omega) (by omega)
  rwa [hchar, ofNat_toNat_of_eq (b := first) (by omega),
    ofNat_toNat_of_eq (b := second) (by omega),
    ofNat_toNat_of_eq (b := third) (by omega)] at hbytes

theorem CharBytes.of_four {first second third fourth : UInt8}
    (h : 0xF0 ≤ first.toNat ∧ first.toNat ≤ 0xF4) (hfits : secondFits first second = true)
    (hthird : isContinuation third = true) (hfourth : isContinuation fourth = true) :
    CharBytes (Char.ofNat
      (((first.toNat % 8 * 64 + low6 second) * 64 + low6 third) * 64 + low6 fourth))
      [first, second, third, fourth] := by
  obtain ⟨hsecond, -, -, hF0, hF4⟩ := bounds_of_secondFits hfits
  obtain ⟨hbyte, hlow⟩ := toNat_of_isContinuation hsecond
  obtain ⟨hbyte', hlow'⟩ := toNat_of_isContinuation hthird
  obtain ⟨hbyte'', hlow''⟩ := toNat_of_isContinuation hfourth
  have hchar := toNat_char
    (n := ((first.toNat % 8 * 64 + low6 second) * 64 + low6 third) * 64 + low6 fourth) (by omega)
  have hbytes := CharBytes.four (c := Char.ofNat
    (((first.toNat % 8 * 64 + low6 second) * 64 + low6 third) * 64 + low6 fourth)) (by omega)
  rwa [hchar, ofNat_toNat_of_eq (b := first) (by omega),
    ofNat_toNat_of_eq (b := second) (by omega), ofNat_toNat_of_eq (b := third) (by omega),
    ofNat_toNat_of_eq (b := fourth) (by omega)] at hbytes

/-- A character is read from its own bytes. -/
theorem charBytes_of_decodeOne {first : UInt8} {rest : Bytes} {c : Char} {more : Nat}
    (h : decodeOne first rest = .ok (c, more)) :
    ∃ behind after, rest = behind ++ after ∧ behind.length = more ∧
      CharBytes c (first :: behind) := by
  unfold decodeOne at h
  dsimp only at h
  split at h
  next hone =>
    cases h
    exact ⟨[], rest, rfl, rfl, .of_one hone⟩
  next =>
  split at h
  next htwo =>
    split at h
    next => cases h
    next second after =>
    split at h
    next hsecond =>
      cases h
      exact ⟨[second], after, rfl, rfl, .of_two htwo hsecond⟩
    next => cases h
  next =>
  split at h
  next hthree =>
    split at h
    next => cases h
    next second rest =>
    split at h
    next => cases h
    next hfits =>
    rw [Bool.not_eq_true, Bool.not_eq_false'] at hfits
    split at h
    next => cases h
    next third after =>
    split at h
    next hthird =>
      cases h
      exact ⟨[second, third], after, rfl, rfl, .of_three hthree hfits hthird⟩
    next => cases h
  next =>
  split at h
  next hfour =>
    split at h
    next => cases h
    next second rest =>
    split at h
    next => cases h
    next hfits =>
    rw [Bool.not_eq_true, Bool.not_eq_false'] at hfits
    split at h
    next => cases h
    next third rest =>
    split at h
    next => cases h
    next hthird =>
    rw [Bool.not_eq_true, Bool.not_eq_false'] at hthird
    split at h
    next => cases h
    next fourth after =>
    split at h
    next hfourth =>
      cases h
      exact ⟨[second, third, fourth], after, rfl, rfl, .of_four hfour hfits hthird hfourth⟩
    next => cases h
  next => cases h

theorem encode_of_decodeFrom {offset skip : Nat} {bytes : Bytes} {s : Text}
    (h : decodeFrom offset skip bytes = .ok s) : encode s = bytes.drop skip := by
  induction bytes generalizing offset skip s with
  | nil =>
    cases h
    rw [List.drop_nil]
    rfl
  | cons b bytes ih =>
    cases skip with
    | succ k => exact ih h
    | zero =>
      rw [decodeFrom] at h
      split at h
      next c more hone =>
        cases hrest : decodeFrom (offset + 1) more bytes with
        | error refusal =>
          rw [hrest] at h
          cases h
        | ok cs =>
          rw [hrest] at h
          cases h
          obtain ⟨behind, after, rfl, hlength, hbytes⟩ := charBytes_of_decodeOne hone
          have hafter := ih hrest
          rw [← hlength, List.drop_left] at hafter
          calc encode (c :: cs)
              = encodeChar c ++ encode cs := List.flatMap_cons
            _ = b :: behind ++ after := by rw [← hbytes.eq_encodeChar, hafter]
      next => cases h

/-- **Bytes that are read as a text** are the bytes of that text. -/
theorem encode_of_decode {bytes : Bytes} {s : Text} (h : decode bytes = .ok s) :
    encode s = bytes := encode_of_decodeFrom h

/-! ## The length of a text that was read -/

theorem length_le_of_decodeFrom {offset skip : Nat} {bytes : Bytes} {s : Text}
    (h : decodeFrom offset skip bytes = .ok s) : s.length ≤ bytes.length := by
  induction bytes generalizing offset skip s with
  | nil =>
    cases h
    exact Nat.le_refl 0
  | cons b bytes ih =>
    cases skip with
    | succ k => exact Nat.le_succ_of_le (ih h)
    | zero =>
      rw [decodeFrom] at h
      split at h
      next c more hone =>
        cases hrest : decodeFrom (offset + 1) more bytes with
        | error refusal =>
          rw [hrest] at h
          cases h
        | ok cs =>
          rw [hrest] at h
          cases h
          exact Nat.succ_le_succ (ih hrest)
      next => cases h

/-- No character is read from less than a byte. -/
theorem length_le_of_decode {bytes : Bytes} {s : Text} (h : decode bytes = .ok s) :
    s.length ≤ bytes.length := length_le_of_decodeFrom h

end Utf8

end GameText
