import GameText.Number.Basic
import Mathlib

/-!
# The order of numbers

Numbers are compared by their exact values, whatever their kinds: but for what is no number, `lt` is
the order of the levels (`Number.lt_iff`). A difference with a floating point number in it is
rounded, and rounding keeps the order (`Binary64.nearest_mono`). So the time that has gone by since
a moment never shrinks as a clock goes on (`Number.lt_sub_of_lt_sub`), if the readings of the clock
are integers throughout, or floating point numbers beside integers that are floating point numbers
exactly.

Not established: clocks that mix floating point numbers with integers of more than 52 bits. There a
difference of integers is exact while the next one, rounded, may be smaller.
-/

namespace GameText

/-! ## Rounding a quotient -/

theorem roundHalfEven_bounds (num den : Nat) :
    num / den ≤ roundHalfEven num den ∧ roundHalfEven num den ≤ num / den + 1 := by
  unfold roundHalfEven
  dsimp only
  split_ifs <;> omega

/-- Only the quotient counts. -/
theorem roundHalfEven_mul {c : Nat} (hc : 0 < c) (num den : Nat) :
    roundHalfEven (num * c) (den * c) = roundHalfEven num den := by
  unfold roundHalfEven
  simp only [Nat.mul_div_mul_right _ _ hc, Nat.mul_mod_mul_right, ← Nat.mul_assoc,
    Nat.mul_lt_mul_right hc]

theorem roundHalfEven_of_dvd {num den : Nat} (hden : 0 < den) (h : den ∣ num) :
    roundHalfEven num den = num / den := by
  unfold roundHalfEven
  simp only [Nat.mod_eq_zero_of_dvd h]
  rw [if_pos (by omega)]

theorem roundHalfEven_mono {den a b : Nat} (h : a ≤ b) :
    roundHalfEven a den ≤ roundHalfEven b den := by
  rcases (Nat.div_le_div_right (c := den) h).eq_or_lt with hsame | hless
  · -- Both have the same whole part, so the rests are in order.
    have hrest : a % den ≤ b % den := by
      have ha := Nat.div_add_mod a den
      have hb := Nat.div_add_mod b den
      rw [hsame] at ha
      omega
    unfold roundHalfEven
    rw [hsame]
    dsimp only
    split_ifs <;> omega
  · have ha := (roundHalfEven_bounds a den).2
    have hb := (roundHalfEven_bounds b den).1
    omega

namespace Binary64

/-! ## The nearest floating point number

Sizes are natural numbers of units of `2 ^ -1074`, the least positive floating point number. -/

/-- The distance of the floating point numbers beside a size. -/
def spacing (n : Nat) : Nat := 2 ^ (n.log2 - 52)

/-- The size nearest to a size among those that have 53 significant bits. -/
def nearest (n : Nat) : Nat := roundHalfEven n (spacing n) * spacing n

theorem spacing_pos (n : Nat) : 0 < spacing n := Nat.two_pow_pos _

theorem nearest_of_dvd {n : Nat} (h : spacing n ∣ n) : nearest n = n := by
  unfold nearest
  rw [roundHalfEven_of_dvd (spacing_pos n) h, Nat.div_mul_cancel h]

@[simp]
theorem nearest_zero : nearest 0 = 0 := nearest_of_dvd (Nat.dvd_zero _)

/-- A size of at least 53 bits keeps 53 of them, unless it is rounded up to the next power of
two. -/
theorem roundHalfEven_spacing {n : Nat} (h : 52 ≤ n.log2) :
    2 ^ 52 ≤ roundHalfEven n (spacing n) ∧ roundHalfEven n (spacing n) ≤ 2 ^ 53 := by
  have hn : n ≠ 0 := by
    rintro rfl
    simp at h
  have hbounds := roundHalfEven_bounds n (spacing n)
  have hlow : 2 ^ 52 ≤ n / spacing n := by
    rw [Nat.le_div_iff_mul_le (spacing_pos n), spacing, ← Nat.pow_add, Nat.add_sub_cancel' h]
    exact Nat.log2_self_le hn
  have hhigh : n / spacing n < 2 ^ 53 := by
    rw [Nat.div_lt_iff_lt_mul (spacing_pos n), spacing, ← Nat.pow_add,
      show 53 + (n.log2 - 52) = n.log2 + 1 by omega]
    exact Nat.lt_log2_self
  exact ⟨hlow.trans hbounds.1, by omega⟩

theorem spacing_of_log2_lt {n : Nat} (h : n.log2 < 52) : spacing n = 1 := by
  rw [spacing, Nat.sub_eq_zero_of_le h.le, Nat.pow_zero]

theorem two_pow_log2_le_nearest {n : Nat} (hn : n ≠ 0) : 2 ^ n.log2 ≤ nearest n := by
  by_cases h : 52 ≤ n.log2
  · calc 2 ^ n.log2 = 2 ^ 52 * spacing n := by
          rw [spacing, ← Nat.pow_add, Nat.add_sub_cancel' h]
      _ ≤ nearest n := Nat.mul_le_mul_right _ (roundHalfEven_spacing h).1
  · rw [nearest_of_dvd (by rw [spacing_of_log2_lt (by omega)]; exact Nat.one_dvd n)]
    exact Nat.log2_self_le hn

theorem nearest_le_two_pow (n : Nat) : nearest n ≤ 2 ^ (n.log2 + 1) := by
  by_cases h : 52 ≤ n.log2
  · calc nearest n ≤ 2 ^ 53 * spacing n := Nat.mul_le_mul_right _ (roundHalfEven_spacing h).2
      _ = 2 ^ (n.log2 + 1) := by
          rw [spacing, ← Nat.pow_add, show 53 + (n.log2 - 52) = n.log2 + 1 by omega]
  · rw [nearest_of_dvd (by rw [spacing_of_log2_lt (by omega)]; exact Nat.one_dvd n)]
    exact Nat.lt_log2_self.le

/-- Rounding keeps the order: between two powers of two because the spacing is the same, and powers
of two are not rounded past. -/
theorem nearest_mono {a b : Nat} (h : a ≤ b) : nearest a ≤ nearest b := by
  by_cases ha : a = 0
  · rw [ha, nearest_zero]
    exact Nat.zero_le _
  have hb : b ≠ 0 := by omega
  have hlog : a.log2 ≤ b.log2 :=
    (Nat.le_log2 hb).mpr ((Nat.log2_self_le ha).trans h)
  rcases hlog.eq_or_lt with hsame | hless
  · have hspacing : spacing a = spacing b := by rw [spacing, spacing, hsame]
    unfold nearest
    rw [hspacing]
    exact Nat.mul_le_mul_right _ (roundHalfEven_mono h)
  · calc nearest a ≤ 2 ^ (a.log2 + 1) := nearest_le_two_pow a
      _ ≤ 2 ^ b.log2 := Nat.pow_le_pow_right (by decide) hless
      _ ≤ nearest b := two_pow_log2_le_nearest hb

/-- A size with a sign, rounded. -/
def nearestInt (a : Int) : Int := if a < 0 then -(nearest a.natAbs : Int) else nearest a.natAbs

theorem nearestInt_mono {a b : Int} (h : a ≤ b) : nearestInt a ≤ nearestInt b := by
  unfold nearestInt
  split_ifs with ha hb hb
  · have := nearest_mono (a := b.natAbs) (b := a.natAbs) (by omega)
    omega
  · omega
  · omega
  · have := nearest_mono (a := a.natAbs) (b := b.natAbs) (by omega)
    omega

theorem nearestInt_of_dvd {a : Int} (h : spacing a.natAbs ∣ a.natAbs) : nearestInt a = a := by
  unfold nearestInt
  rw [nearest_of_dvd h]
  split_ifs <;> omega

/-! ## Levels -/

/-- The level of a finite value. -/
def atLevel (a : Int) : WithBot (WithTop Int) := WithBot.some (WithTop.some a)

@[simp]
theorem atLevel_le {a b : Int} : atLevel a ≤ atLevel b ↔ a ≤ b :=
  WithBot.coe_le_coe.trans WithTop.coe_le_coe

@[simp]
theorem atLevel_lt {a b : Int} : atLevel a < atLevel b ↔ a < b :=
  WithBot.coe_lt_coe.trans WithTop.coe_lt_coe

@[simp]
theorem bot_lt_atLevel (a : Int) : ⊥ < atLevel a := WithBot.bot_lt_coe _

@[simp]
theorem atLevel_lt_top (a : Int) : atLevel a < ⊤ :=
  WithBot.coe_lt_coe.mpr (WithTop.coe_lt_top a)

@[simp]
theorem atLevel_ne_bot (a : Int) : atLevel a ≠ ⊥ := (bot_lt_atLevel a).ne'

@[simp]
theorem atLevel_ne_top (a : Int) : atLevel a ≠ ⊤ := (atLevel_lt_top a).ne

theorem atLevel_inj {a b : Int} : atLevel a = atLevel b ↔ a = b :=
  WithBot.coe_inj.trans WithTop.coe_inj

/-- The value of a number in units of `2 ^ -1074`, with the infinities at the ends. What is no
number counts as the least. -/
def level : Binary64 → WithBot (WithTop Int)
  | .nan => ⊥
  | .infinite true => ⊥
  | .infinite false => ⊤
  | .finite s m e => atLevel (scaled s m e)

/-- The least power of two beyond the greatest floating point number. -/
def limit : Nat := 2 ^ (53 + (maxExponent - minExponent).toNat)

/-- The level of a size of 53 significant bits with a sign; from the limit on it is infinite. -/
def bounded (a : Int) : WithBot (WithTop Int) :=
  if a ≤ -limit then ⊥ else if limit ≤ a then ⊤ else atLevel a

theorem limit_pos : 0 < limit := Nat.two_pow_pos _

theorem bounded_of_lt {a : Int} (h : a.natAbs < limit) : bounded a = atLevel a := by
  unfold bounded
  rw [if_neg (by omega), if_neg (by omega)]

theorem bounded_mono {a b : Int} (h : a ≤ b) : bounded a ≤ bounded b := by
  unfold bounded
  split_ifs with hlow hlow' hhigh' hlow' hhigh hlow' hhigh'
  · exact le_rfl
  · exact bot_le
  · exact bot_le
  · omega
  · exact le_rfl
  · omega
  · omega
  · exact le_top
  · exact atLevel_le.mpr h

/-! ## What is rounded -/

/-- A quotient by a power of two is rounded to a multiple of a power of two. -/
theorem roundHalfEven_shifted (n d k : Nat) :
    roundHalfEven (shifted n (Nat.pow 2 d) (k - d)).1 (shifted n (Nat.pow 2 d) (k - d)).2 =
      roundHalfEven n (2 ^ k) := by
  unfold shifted
  simp only [Nat.pow_eq]
  split
  · rw [show ((k : Int) - d).toNat = k - d by omega, ← Nat.pow_add,
      Nat.add_sub_cancel' (by omega)]
  · obtain ⟨j, rfl⟩ : ∃ j, d = k + j := ⟨d - k, by omega⟩
    rw [show (-((k : Int) - (k + j : Nat))).toNat = j by omega, Nat.pow_add]
    exact roundHalfEven_mul (Nat.two_pow_pos _) n (2 ^ k)

/-- The first guess at the exponent leaves 53 bits or more. -/
theorem guess_large {n : Nat} (hn : n ≠ 0) (d : Nat) :
    Nat.pow 2 53 ≤ (shifted n (Nat.pow 2 d) (n.log2 - d - 53)).1 /
      (shifted n (Nat.pow 2 d) (n.log2 - d - 53)).2 := by
  have hself := Nat.log2_self_le hn
  unfold shifted
  simp only [Nat.pow_eq]
  split
  · rw [Nat.le_div_iff_mul_le (by positivity), ← Nat.pow_add, ← Nat.pow_add]
    rwa [show 53 + (d + ((n.log2 : Int) - d - 53).toNat) = n.log2 by omega]
  · rw [Nat.le_div_iff_mul_le (by positivity), ← Nat.pow_add]
    calc 2 ^ (53 + d) = 2 ^ n.log2 * 2 ^ (-((n.log2 : Int) - d - 53)).toNat := by
          rw [← Nat.pow_add]
          congr 1
          omega
      _ ≤ n * 2 ^ (-((n.log2 : Int) - d - 53)).toNat := Nat.mul_le_mul_right _ hself

/-- A number of units, rounded: a carry out of the 53 bits goes into the exponent. -/
theorem ofRatio_units (s : Bool) {n : Nat} (hn : n ≠ 0) :
    ofRatio s n (Nat.pow 2 (-minExponent).toNat) =
      if roundHalfEven n (spacing n) = Nat.pow 2 53 then
        if maxExponent < (n.log2 - 52 : Nat) + minExponent + 1 then .infinite s
        else .finite s (Nat.pow 2 52) ((n.log2 - 52 : Nat) + minExponent + 1)
      else
        if maxExponent < (n.log2 - 52 : Nat) + minExponent then .infinite s
        else .finite s (roundHalfEven n (spacing n)) ((n.log2 - 52 : Nat) + minExponent) := by
  have hlog (d : Nat) : Nat.log2 (Nat.pow 2 d) = d := Nat.log2_two_pow
  have hbits : ((-minExponent).toNat : Int) = -minExponent := rfl
  have hexponent : max minExponent ((n.log2 : Int) - (-minExponent).toNat - 53 + 1) =
      (n.log2 - 52 : Nat) - ((-minExponent).toNat : Int) := by
    unfold minExponent at *
    omega
  unfold ofRatio
  rw [if_neg hn, hlog (-minExponent).toNat]
  extract_lets low guess exponent exact rounded
  have hguess : exponent = (n.log2 - 52 : Nat) - ((-minExponent).toNat : Int) := by
    rw [← hexponent]
    exact congrArg (max minExponent) (if_neg (not_lt.mpr (guess_large hn _)))
  have hrounded : rounded = roundHalfEven n (spacing n) := by
    rw [spacing, ← roundHalfEven_shifted n (-minExponent).toNat, ← hguess]
  rw [hrounded, hguess, hbits, sub_neg_eq_add]
  by_cases hcarry : roundHalfEven n (spacing n) = Nat.pow 2 53
  · rw [if_pos hcarry, if_pos hcarry]
  · rw [if_neg hcarry, if_neg hcarry]

theorem level_infinite (s : Bool) {size : Nat} (h : limit ≤ size) :
    (infinite s).level = bounded (if s then -(size : Int) else size) := by
  have hlimit := limit_pos
  unfold bounded
  cases s
  case false =>
    have hsize : (limit : Int) ≤ size := Int.ofNat_le.mpr h
    rw [if_neg Bool.false_ne_true, if_neg (by omega), if_pos hsize, level]
  case true =>
    have hsize : -(size : Int) ≤ -limit := Int.neg_le_neg (Int.ofNat_le.mpr h)
    rw [if_pos rfl, if_pos hsize, level]

theorem scaled_eq (s : Bool) (m k : Nat) :
    scaled s m (k + minExponent) = if s then -((m * 2 ^ k : Nat) : Int) else (m * 2 ^ k : Nat) := by
  unfold scaled
  rw [Int.add_sub_cancel, Int.toNat_natCast, Nat.pow_eq, ← Nat.cast_mul]

theorem level_finite (s : Bool) {m k size : Nat} (hsize : m * 2 ^ k = size) (h : size < limit) :
    (finite s m (k + minExponent)).level = bounded (if s then -(size : Int) else size) := by
  have habs : (if s then -(size : Int) else size).natAbs = size := by
    cases s
    · rfl
    · exact Int.natAbs_neg _
  rw [level, scaled_eq, hsize, bounded_of_lt (by rwa [habs])]

theorem level_ofRatio (s : Bool) {n : Nat} (hn : n ≠ 0) :
    (ofRatio s n (Nat.pow 2 (-minExponent).toNat)).level =
      bounded (if s then -(nearest n : Int) else nearest n) := by
  have hpow {a b : Nat} : 2 ^ a ≤ 2 ^ b ↔ a ≤ b := Nat.pow_le_pow_iff_right (by decide)
  rw [ofRatio_units s hn]
  split
  case isTrue hcarry =>
    have hnearest : nearest n = 2 ^ (53 + (n.log2 - 52)) := by
      rw [nearest, hcarry, spacing, Nat.pow_eq, ← Nat.pow_add]
    split
    case isTrue hlarge =>
      refine level_infinite s ?_
      rw [hnearest, limit, hpow]
      omega
    case isFalse hsmall =>
      rw [show ((n.log2 - 52 : Nat) : Int) + minExponent + 1 =
        ((n.log2 - 52 + 1 : Nat) : Int) + minExponent by omega]
      refine level_finite s ?_ ?_
      · rw [hnearest, Nat.pow_eq, ← Nat.pow_add]
        congr 1
        omega
      · rw [hnearest, limit, Nat.pow_lt_pow_iff_right (by decide)]
        omega
  case isFalse hcarry =>
    split
    case isTrue hlarge =>
      have hbits : 52 < n.log2 := by
        unfold maxExponent minExponent at hlarge
        omega
      refine level_infinite s ?_
      calc limit = 2 ^ 52 * 2 ^ (1 + (maxExponent - minExponent).toNat) := by
            rw [limit, ← Nat.pow_add, ← Nat.add_assoc]
        _ ≤ 2 ^ 52 * spacing n := Nat.mul_le_mul_left _ (hpow.mpr (by omega))
        _ ≤ nearest n := Nat.mul_le_mul_right _ (roundHalfEven_spacing hbits.le).1
    case isFalse hsmall =>
      refine level_finite s rfl ?_
      have hm : roundHalfEven n (spacing n) < 2 ^ 53 := by
        by_cases hbits : 52 ≤ n.log2
        · exact lt_of_le_of_ne (roundHalfEven_spacing hbits).2 hcarry
        · rw [spacing_of_log2_lt (by omega), roundHalfEven_of_dvd Nat.one_pos (Nat.one_dvd n),
            Nat.div_one]
          exact Nat.lt_log2_self.trans_le (hpow.mpr (by omega))
      calc nearest n < 2 ^ 53 * spacing n := Nat.mul_lt_mul_of_pos_right hm (spacing_pos n)
        _ ≤ 2 ^ 53 * 2 ^ (maxExponent - minExponent).toNat :=
            Nat.mul_le_mul_left _ (hpow.mpr (by omega))
        _ = limit := by rw [limit, ← Nat.pow_add]

@[simp]
theorem scaled_zero (s : Bool) (e : Int) : scaled s 0 e = 0 := by
  unfold scaled
  cases s <;> simp

/-- An exact result is rounded to the nearest number. -/
theorem level_ofScaled (z : Bool) (a : Int) : (ofScaled z a).level = bounded (nearestInt a) := by
  unfold ofScaled
  split
  case isTrue hzero =>
    rw [hzero, nearestInt_of_dvd (Nat.dvd_zero _), bounded_of_lt (by exact limit_pos), zero,
      level, scaled_zero]
  case isFalse hsome =>
    rw [level_ofRatio _ (Int.natAbs_ne_zero.mpr hsome)]
    unfold nearestInt
    simp only [decide_eq_true_eq]

theorem two_pow_pos (j : Nat) : 0 < Nat.pow 2 j := Nat.two_pow_pos j

theorem log2_mul_two_pow {n : Nat} (hn : n ≠ 0) (j : Nat) :
    (n * Nat.pow 2 j).log2 = n.log2 + j := by
  have hpow := two_pow_pos j
  rw [Nat.log2_eq_iff (Nat.mul_ne_zero hn hpow.ne')]
  constructor
  · rw [Nat.pow_add]
    exact Nat.mul_le_mul_right _ (Nat.log2_self_le hn)
  · rw [Nat.add_right_comm, Nat.pow_add]
    exact Nat.mul_lt_mul_of_pos_right Nat.lt_log2_self hpow

/-- Only the quotient counts. -/
theorem ofRatio_mul (s : Bool) (n d j : Nat) (hn : n ≠ 0) (hd : d ≠ 0) :
    ofRatio s (n * Nat.pow 2 j) (d * Nat.pow 2 j) = ofRatio s n d := by
  have hpow := two_pow_pos j
  have hshifted (shift : Int) : shifted (n * Nat.pow 2 j) (d * Nat.pow 2 j) shift =
      ((shifted n d shift).1 * Nat.pow 2 j, (shifted n d shift).2 * Nat.pow 2 j) := by
    unfold shifted
    split
    · rw [Nat.mul_right_comm]
    · rw [Nat.mul_right_comm]
  have hlow : (((n.log2 + j : Nat) : Int)) - ((d.log2 + j : Nat) : Int) - 53 =
      (n.log2 : Int) - d.log2 - 53 := by
    omega
  unfold ofRatio
  rw [if_neg hn, if_neg (Nat.mul_ne_zero hn hpow.ne')]
  simp only [log2_mul_two_pow hn, log2_mul_two_pow hd, hlow, hshifted,
    Nat.mul_div_mul_right _ _ hpow, roundHalfEven_mul hpow]

theorem natAbs_scaledInt (n : Int) :
    (scaledInt n).natAbs = n.natAbs * Nat.pow 2 (-minExponent).toNat := by
  unfold scaledInt
  rw [Int.natAbs_mul, Int.natAbs_natCast]

@[simp]
theorem scaledInt_zero : scaledInt 0 = 0 := Int.zero_mul _

theorem scaledInt_sub (a b : Int) : scaledInt (a - b) = scaledInt a - scaledInt b :=
  Int.sub_mul ..

theorem scaledInt_lt {a b : Int} : scaledInt a < scaledInt b ↔ a < b :=
  Int.mul_lt_mul_right (Int.natCast_pos.mpr (two_pow_pos _))

theorem level_ofInt (n : Int) : (ofInt n).level = bounded (nearestInt (scaledInt n)) := by
  rw [← level_ofScaled false]
  congr 1
  unfold ofInt ofScaled
  by_cases hn : n = 0
  · simp [hn, ofRatio]
  · have hscaled : scaledInt n ≠ 0 := by
      rw [← Int.natAbs_ne_zero, natAbs_scaledInt]
      exact Nat.mul_ne_zero (Int.natAbs_ne_zero.mpr hn) (two_pow_pos _).ne'
    have hsign : scaledInt n < 0 ↔ n < 0 := by
      simpa only [scaledInt_zero] using scaledInt_lt (a := n) (b := 0)
    rw [if_neg hscaled, natAbs_scaledInt, ← ofRatio_mul _ n.natAbs 1 (-minExponent).toNat
      (Int.natAbs_ne_zero.mpr hn) one_ne_zero, Nat.one_mul]
    simp only [hsign]

/-- An integer of at most 53 bits is a floating point number. -/
theorem level_ofInt_of_lt {n : Int} (h : n.natAbs < 2 ^ 53) :
    (ofInt n).level = atLevel (scaledInt n) := by
  have hdvd : spacing (scaledInt n).natAbs ∣ (scaledInt n).natAbs := by
    by_cases hn : n = 0
    · rw [hn, scaledInt_zero]
      exact Nat.dvd_zero _
    have hlog : n.natAbs.log2 < 53 := (Nat.log2_lt (Int.natAbs_ne_zero.mpr hn)).mpr h
    rw [natAbs_scaledInt, spacing, log2_mul_two_pow (Int.natAbs_ne_zero.mpr hn)]
    generalize (-minExponent).toNat = bits
    exact (Nat.pow_dvd_pow 2 (by omega)).mul_left _
  rw [level_ofInt, nearestInt_of_dvd hdvd, bounded_of_lt]
  have hrange : (-minExponent).toNat ≤ (maxExponent - minExponent).toNat := by decide
  rw [natAbs_scaledInt, limit]
  generalize (-minExponent).toNat = bits at hrange ⊢
  generalize (maxExponent - minExponent).toNat = range at hrange ⊢
  calc n.natAbs * 2 ^ bits < 2 ^ 53 * 2 ^ bits := Nat.mul_lt_mul_of_pos_right h (two_pow_pos _)
    _ ≤ 2 ^ 53 * 2 ^ range := Nat.mul_le_mul_left _ (Nat.pow_le_pow_right (by decide) hrange)
    _ = 2 ^ (53 + range) := (Nat.pow_add ..).symm

/-! ## Differences -/

theorem scaled_not (s : Bool) (m : Nat) (e : Int) : scaled (!s) m e = -scaled s m e := by
  unfold scaled
  cases s <;> simp

theorem level_sub_finite (s t : Bool) (m n : Nat) (e f : Int) :
    ((finite s m e).sub (finite t n f)).level =
      bounded (nearestInt (scaled s m e - scaled t n f)) := by
  rw [sub, neg, add, level_ofScaled, scaled_not, sub_eq_add_neg]

theorem ofRatio_ne_nan (s : Bool) (n d : Nat) : ofRatio s n d ≠ nan := by
  unfold ofRatio
  dsimp only
  split_ifs <;> exact nofun

theorem sub_finite_ne_nan (s t : Bool) (m n : Nat) (e f : Int) :
    (finite s m e).sub (finite t n f) ≠ nan := by
  show ofScaled _ _ ≠ nan
  unfold ofScaled
  split_ifs
  · exact nofun
  · exact ofRatio_ne_nan _ _ _

theorem exists_finite {x : Binary64} {a : Int} (h : x.level = atLevel a) :
    ∃ s m e, x = finite s m e ∧ scaled s m e = a := by
  rcases x with _ | (_ | _) | ⟨s, m, e⟩
  case nan => exact absurd h.symm (atLevel_ne_bot a)
  case infinite.false => exact absurd h.symm (atLevel_ne_top a)
  case infinite.true => exact absurd h.symm (atLevel_ne_bot a)
  case finite => exact ⟨s, m, e, rfl, atLevel_inj.mp h⟩

/-- The difference from a number grows with the other, but for what is no number. -/
theorem sub_mono {t p n : Binary64} (ht : t ≠ nan) (hp : p ≠ nan) (hn : n ≠ nan)
    (htp : t.level ≤ p.level) (hpn : p.level ≤ n.level) (hsub : p.sub t ≠ nan) :
    n.sub t ≠ nan ∧ (p.sub t).level ≤ (n.sub t).level := by
  have hfinite : ∀ {s m e s' m' e' s'' m'' e''}, t = finite s m e → p = finite s' m' e' →
      n = finite s'' m'' e'' → n.sub t ≠ nan ∧ (p.sub t).level ≤ (n.sub t).level := by
    rintro s m e s' m' e' s'' m'' e'' rfl rfl rfl
    refine ⟨sub_finite_ne_nan _ _ _ _ _ _, ?_⟩
    rw [level_sub_finite, level_sub_finite]
    have hle : scaled s' m' e' ≤ scaled s'' m'' e'' := atLevel_le.mp hpn
    exact bounded_mono (nearestInt_mono (by omega))
  -- An infinite reading stays, and what would go back is excluded.
  rcases t with _ | (_ | _) | t <;> rcases p with _ | (_ | _) | p <;>
    rcases n with _ | (_ | _) | n <;>
    first
    | exact absurd rfl ht
    | exact absurd rfl hp
    | exact absurd rfl hn
    | exact absurd rfl hsub
    | exact hfinite rfl rfl rfl
    | exact ⟨nofun, le_top⟩
    | simp [level] at htp hpn

end Binary64

namespace Number

/-- The level of a number. -/
def level : Number → WithBot (WithTop Int)
  | .int n => Binary64.atLevel (Binary64.scaledInt n)
  | .float x => x.level

/-- Numbers are compared by their levels. -/
theorem lt_iff {a b : Number} (ha : a ≠ .float .nan) (hb : b ≠ .float .nan) :
    a.lt b ↔ a.level < b.level := by
  rcases a with a | _ | (_ | _) | ⟨s, m, e⟩ <;> rcases b with b | _ | (_ | _) | ⟨t, n, f⟩ <;>
    first
    | exact absurd rfl ha
    | exact absurd rfl hb
    | simp [lt, level, Binary64.level, Binary64.lt, Binary64.intLt, Binary64.ltInt,
        Binary64.scaledInt_lt]

theorem lt_nan (a : Number) : a.lt (.float .nan) = false := by
  rcases a with a | x
  · rfl
  · cases x <;> rfl

theorem nan_lt (a : Number) : lt (.float .nan) a = false := by
  cases a <;> rfl

theorem lt_of_lt_of_level_le {l a b : Number} (ha : a ≠ .float .nan) (hb : b ≠ .float .nan)
    (hla : l.lt a) (hab : a.level ≤ b.level) : l.lt b := by
  have hl : l ≠ .float .nan := by
    rintro rfl
    rw [nan_lt] at hla
    cases hla
  exact (lt_iff hl hb).mpr (((lt_iff hl ha).mp hla).trans_le hab)

/-- The number is a floating point number, or an integer whose differences from other such integers
are floating point numbers. -/
def Plain : Number → Prop
  | .int n => n.natAbs < 2 ^ 52
  | .float x => x ≠ .nan

theorem Plain.level_toFloat {a : Number} (h : a.Plain) : a.toFloat.level = a.level := by
  cases a with
  | int n => exact Binary64.level_ofInt_of_lt (h.trans (by decide))
  | float => rfl

theorem Plain.toFloat_ne_nan {a : Number} (h : a.Plain) : a.toFloat ≠ .nan := by
  cases a with
  | int => exact Binary64.ofRatio_ne_nan _ _ _
  | float => exact h

/-- A difference of plain numbers has the level of the rounded one. -/
theorem Plain.sub {a b : Number} (ha : a.Plain) (hb : b.Plain) :
    (a.sub b = .float .nan ↔ a.toFloat.sub b.toFloat = .nan) ∧
      (a.sub b).level = (a.toFloat.sub b.toFloat).level := by
  cases a with
  | float x => cases b <;> exact ⟨by simp [Number.sub, toFloat], rfl⟩
  | int x =>
    cases b with
    | float => exact ⟨by simp [Number.sub, toFloat], rfl⟩
    | int y =>
      have hx : x.natAbs < 2 ^ 52 := ha
      have hy : y.natAbs < 2 ^ 52 := hb
      obtain ⟨s, m, e, hxe, hsx⟩ :=
        Binary64.exists_finite (Binary64.level_ofInt_of_lt (hx.trans (by decide)))
      obtain ⟨t, n, f, hyf, hty⟩ :=
        Binary64.exists_finite (Binary64.level_ofInt_of_lt (hy.trans (by decide)))
      have hsub : (Binary64.ofInt x).sub (Binary64.ofInt y) =
          (Binary64.finite s m e).sub (.finite t n f) := by rw [hxe, hyf]
      refine ⟨⟨nofun, fun h => absurd (hsub.symm.trans h) ?_⟩, ?_⟩
      · exact Binary64.sub_finite_ne_nan _ _ _ _ _ _
      · calc (Number.int (x - y)).level = (Binary64.ofInt (x - y)).level :=
              (Binary64.level_ofInt_of_lt (by omega)).symm
          _ = ((Binary64.finite s m e).sub (.finite t n f)).level := by
              rw [Binary64.level_ofInt, Binary64.level_sub_finite, hsx, hty,
                Binary64.scaledInt_sub]
          _ = _ := congrArg Binary64.level hsub.symm

/-- A clock's readings: they are numbers, none lies before an earlier one, and they are integers
throughout or plain. -/
structure Steady (readings : List Number) : Prop where
  number : ∀ r ∈ readings, r ≠ .float .nan
  forward : readings.Pairwise fun earlier later => later.lt earlier = false
  comparable : (∀ r ∈ readings, ∃ n, r = .int n) ∨ ∀ r ∈ readings, r.Plain

theorem Steady.sublist {readings kept : List Number} (h : Steady readings)
    (hsub : kept.Sublist readings) : Steady kept where
  number r hr := h.number r (hsub.subset hr)
  forward := h.forward.sublist hsub
  comparable := h.comparable.imp (fun hints r hr => hints r (hsub.subset hr))
    fun hplain r hr => hplain r (hsub.subset hr)

/-- **What is long ago stays long ago.** More time than `l` has gone by since a moment when a clock
that does not go back is read again, if it had when the clock was read before. -/
theorem lt_sub_of_lt_sub {l t p n : Number} (h : Steady [t, p, n]) (hl : l.lt (p.sub t)) :
    l.lt (n.sub t) := by
  have hall := h.number
  obtain ⟨ht, hp, hn⟩ : t ≠ .float .nan ∧ p ≠ .float .nan ∧ n ≠ .float .nan := by simpa using hall
  have hforward := h.forward
  obtain ⟨⟨hpt, -⟩, hnp⟩ : (p.lt t = false ∧ n.lt t = false) ∧ n.lt p = false := by
    simpa using hforward
  have htp : t.level ≤ p.level := not_lt.mp fun hlt => by simp [(lt_iff hp ht).mpr hlt] at hpt
  have hpn : p.level ≤ n.level := not_lt.mp fun hlt => by simp [(lt_iff hn hp).mpr hlt] at hnp
  rcases h.comparable with hints | hplain
  · obtain ⟨⟨a, rfl⟩, ⟨b, rfl⟩, ⟨c, rfl⟩⟩ :
        (∃ a, t = .int a) ∧ (∃ b, p = .int b) ∧ ∃ c, n = .int c := by simpa using hints
    have hsub {x y : Int} : (int x).sub (int y) ≠ .float .nan := nofun
    refine lt_of_lt_of_level_le hsub hsub hl ?_
    have hbc : Binary64.scaledInt b ≤ Binary64.scaledInt c := Binary64.atLevel_le.mp hpn
    have hsub_le : Binary64.scaledInt (b - a) ≤ Binary64.scaledInt (c - a) := by
      rw [Binary64.scaledInt_sub, Binary64.scaledInt_sub]
      omega
    exact Binary64.atLevel_le.mpr hsub_le
  · obtain ⟨ht', hp', hn'⟩ : t.Plain ∧ p.Plain ∧ n.Plain := by simpa using hplain
    have hsub : p.sub t ≠ .float .nan := by
      intro hnan
      rw [hnan, lt_nan] at hl
      cases hl
    obtain ⟨hne, hle⟩ := Binary64.sub_mono ht'.toFloat_ne_nan hp'.toFloat_ne_nan hn'.toFloat_ne_nan
      (by rwa [ht'.level_toFloat, hp'.level_toFloat])
      (by rwa [hp'.level_toFloat, hn'.level_toFloat]) ((hp'.sub ht').1.not.mp hsub)
    refine lt_of_lt_of_level_le hsub ((hn'.sub ht').1.not.mpr hne) hl ?_
    rwa [(hp'.sub ht').2, (hn'.sub ht').2]

end Number

end GameText
