import GameText.Json.Token
import GameText.Proofs.Text.Beginning

/-!
# Number tokens read back

`NumberToken.WellFormed` says of a number that it could have been read: its digits are digits, it
has no needless zero, and an exponent has digits. The reader finds exactly these
(`wellFormed_of_readNumber`, `NumberToken.WellFormed.readNumber`). Unlike a string a number has no
closing mark, so it is read back only before a character that does not continue it.
-/

namespace GameText

namespace Json

open Text (Stops stops_cons takeWhile_append_of_stops dropWhile_append_of_stops)

theorem digits_append {ds s : Text} (hd : ∀ c ∈ ds, c.isDigit) (hs : Stops Char.isDigit s) :
    digits (ds ++ s) = (ds, s) := by
  rw [digits, takeWhile_append_of_stops hd hs, dropWhile_append_of_stops hd hs]

theorem mem_digits {s : Text} {c : Char} (h : c ∈ (digits s).1) : c.isDigit :=
  List.all_eq_true.mp List.all_takeWhile c h

/-! ## The parts of a number -/

/-- The digits before the point: a zero by itself, or a row that does not begin with one. -/
def IsWhole (ds : Text) : Prop :=
  ds = ['0'] ∨ ds ≠ [] ∧ ds.head? ≠ some '0' ∧ ∀ c ∈ ds, c.isDigit

/-- An exponent that could have been read. -/
structure Exponent.WellFormed (e : Exponent) : Prop where
  letter : e.letter = 'e' ∨ e.letter = 'E'
  sign : e.sign = none ∨ e.sign = some '-' ∨ e.sign = some '+'
  ne_nil : e.digits ≠ []
  digits : ∀ c ∈ e.digits, c.isDigit

/-- A number that could have been read. -/
structure NumberToken.WellFormed (t : NumberToken) : Prop where
  whole : IsWhole t.whole
  fraction : ∀ c ∈ t.fraction, c.isDigit
  exponent : ∀ e ∈ t.exponent, e.WellFormed

theorem isWhole_of_readWhole {s ds rest : Text} (h : readWhole s = (ds, rest)) (hne : ds ≠ []) :
    IsWhole ds ∧ s = ds ++ rest := by
  unfold readWhole at h
  split at h
  next =>
    cases h
    exact ⟨Or.inl rfl, rfl⟩
  next hzero =>
    cases h
    refine ⟨Or.inr ⟨hne, ?_, fun c hc => mem_digits hc⟩,
      (List.takeWhile_append_dropWhile).symm⟩
    intro hhead
    cases s with
    | nil => cases hhead
    | cons c s =>
      simp only [List.takeWhile_cons] at hhead
      split at hhead
      next => exact hzero s (by rw [Option.some.inj hhead])
      next => cases hhead

theorem IsWhole.readWhole {ds s : Text} (h : IsWhole ds) (hs : Stops Char.isDigit s) :
    readWhole (ds ++ s) = (ds, s) := by
  rcases h with rfl | ⟨hne, hhead, hdigits⟩
  · rfl
  · obtain ⟨c, ds, rfl⟩ := List.exists_cons_of_ne_nil hne
    rw [List.cons_append, Json.readWhole, ← List.cons_append, digits_append hdigits hs]
    intro s' heq
    exact hhead (congrArg some (List.cons.inj heq).1)

theorem IsWhole.exists_cons {ds : Text} (h : IsWhole ds) :
    ∃ c cs, ds = c :: cs ∧ c.isDigit = true := by
  rcases h with rfl | ⟨hne, -, hdigits⟩
  · exact ⟨_, _, rfl, by decide⟩
  · obtain ⟨c, cs, rfl⟩ := List.exists_cons_of_ne_nil hne
    exact ⟨c, cs, rfl, hdigits c List.mem_cons_self⟩

theorem readFraction_sound (s : Text) :
    (∀ c ∈ (readFraction s).1, c.isDigit) ∧
      s = (if (readFraction s).1.isEmpty then [] else '.' :: (readFraction s).1) ++
        (readFraction s).2 := by
  unfold readFraction
  split
  next s =>
    split
    next => exact ⟨fun c hc => (nomatch hc), rfl⟩
    next h =>
      refine ⟨fun c hc => mem_digits hc, ?_⟩
      rw [List.cons_append, digits, List.takeWhile_append_dropWhile]
  next => exact ⟨fun c hc => (nomatch hc), rfl⟩

theorem readFraction_append {ds s : Text} (hd : ∀ c ∈ ds, c.isDigit) (hs : Stops Char.isDigit s)
    (hpoint : Stops (· == '.') s) :
    readFraction ((if ds.isEmpty then [] else '.' :: ds) ++ s) = (ds, s) := by
  cases ds with
  | nil =>
    rw [List.isEmpty_nil, if_pos rfl, List.nil_append]
    unfold readFraction
    split
    next => exact absurd (stops_cons.mp hpoint) (by decide)
    next => rfl
  | cons d ds =>
    rw [List.isEmpty_cons, if_neg Bool.false_ne_true, List.cons_append, readFraction,
      digits_append hd hs]
    rfl

theorem readExponent_sound (s : Text) :
    (∀ e ∈ (readExponent s).1, e.WellFormed) ∧
      s = ((readExponent s).1.map Exponent.raw).getD [] ++ (readExponent s).2 := by
  unfold readExponent
  split
  next =>
    refine ⟨?_, rfl⟩
    intro e he
    cases he
  next c s =>
    split
    next h =>
      simp only [Bool.and_eq_true, Bool.or_eq_true, decide_eq_true_eq, Bool.not_eq_true',
        List.isEmpty_eq_false_iff] at h
      have hsign : ((readSign s).1 = none ∨ (readSign s).1 = some '-' ∨ (readSign s).1 = some '+') ∧
          s = (readSign s).1.toList ++ (readSign s).2 := by
        unfold readSign
        split
        next => exact ⟨Or.inr (Or.inl rfl), rfl⟩
        next => exact ⟨Or.inr (Or.inr rfl), rfl⟩
        next => exact ⟨Or.inl rfl, rfl⟩
      refine ⟨?_, ?_⟩
      · intro e he
        cases he
        exact ⟨h.1, hsign.1, h.2, fun c hc => mem_digits hc⟩
      · simp only [Option.map_some, Option.getD_some, Exponent.raw, digits, List.cons_append,
          List.append_assoc, List.takeWhile_append_dropWhile]
        rw [← hsign.2]
    next =>
      refine ⟨?_, rfl⟩
      intro e he
      cases he

theorem Exponent.WellFormed.readExponent {e : Exponent} (h : e.WellFormed) {s : Text}
    (hs : Stops Char.isDigit s) : readExponent (e.raw ++ s) = (some e, s) := by
  obtain ⟨letter, sign, ds⟩ := e
  obtain ⟨hletter, hsigns, hne, hdigits⟩ := h
  have hsign : readSign (sign.toList ++ (ds ++ s)) = (sign, ds ++ s) := by
    rcases hsigns with rfl | rfl | rfl
    · obtain ⟨d, ds, rfl⟩ := List.exists_cons_of_ne_nil hne
      have hd := hdigits d List.mem_cons_self
      rw [Option.toList_none, List.nil_append, List.cons_append, readSign]
      · intro s' heq
        rw [(List.cons.inj heq).1] at hd
        exact absurd hd (by decide)
      · intro s' heq
        rw [(List.cons.inj heq).1] at hd
        exact absurd hd (by decide)
    · rfl
    · rfl
  have hsome : (letter = 'e' || letter = 'E') && !ds.isEmpty := by
    simp only [Bool.and_eq_true, Bool.or_eq_true, decide_eq_true_eq, Bool.not_eq_true',
      List.isEmpty_eq_false_iff]
    exact ⟨hletter, hne⟩
  rw [raw, List.cons_append, List.cons_append, List.append_assoc, Json.readExponent, hsign,
    digits_append hdigits hs]
  exact if_pos hsome

/-! ## The characters of a number -/

/-- A character of numbers and words. -/
def isScalarChar (c : Char) : Bool := c.isAlphanum || c == '-' || c == '+' || c == '.'

theorem isScalarChar_of_isDigit {c : Char} (h : c.isDigit = true) : isScalarChar c = true := by
  simp only [isScalarChar, Char.isAlphanum, h, Bool.or_true, Bool.true_or]

theorem IsWhole.isDigit {ds : Text} (h : IsWhole ds) : ∀ c ∈ ds, c.isDigit = true := by
  rcases h with rfl | ⟨-, -, hdigits⟩
  · rw [List.forall_mem_singleton]
    rfl
  · exact hdigits

theorem Exponent.WellFormed.isScalarChar {e : Exponent} (h : e.WellFormed) :
    ∀ c ∈ e.raw, isScalarChar c = true := by
  intro c hc
  rw [raw, List.mem_append, List.mem_cons, Option.mem_toList] at hc
  rcases hc with (rfl | hsign) | hdigit
  · rcases h.letter with hletter | hletter <;> rw [hletter] <;> rfl
  · rcases h.sign with hnone | hminus | hplus
    · rw [hnone] at hsign
      cases hsign
    · obtain rfl := Option.some.inj (hminus.symm.trans hsign)
      rfl
    · obtain rfl := Option.some.inj (hplus.symm.trans hsign)
      rfl
  · exact isScalarChar_of_isDigit (h.digits c hdigit)

theorem NumberToken.WellFormed.isScalarChar {t : NumberToken} (h : t.WellFormed) :
    ∀ c ∈ t.raw, isScalarChar c = true := by
  intro c hc
  simp only [raw, List.mem_append] at hc
  rcases hc with ((hsign | hwhole) | hfraction) | hexponent
  · split at hsign
    · rw [List.mem_singleton.mp hsign]
      rfl
    · cases hsign
  · exact isScalarChar_of_isDigit (h.whole.isDigit c hwhole)
  · split at hfraction
    · cases hfraction
    · rcases List.mem_cons.mp hfraction with rfl | hdigit
      · rfl
      · exact isScalarChar_of_isDigit (h.fraction c hdigit)
  · cases he : t.exponent with
    | none =>
      rw [he] at hexponent
      cases hexponent
    | some e =>
      rw [he] at hexponent
      exact (h.exponent e he).isScalarChar c hexponent

/-! ## Numbers -/

/-- The first character of what follows the point's place of a number. -/
theorem stops_exponent {e : Option Exponent} (he : ∀ x ∈ e, x.WellFormed) {p : Char → Bool}
    (hp : p 'e' = false ∧ p 'E' = false) {s : Text} (hs : Stops p s) :
    Stops p ((e.map Exponent.raw).getD [] ++ s) := by
  cases e with
  | none => exact hs
  | some x =>
    rw [Option.map_some, Option.getD_some, Exponent.raw, List.cons_append, List.cons_append,
      stops_cons]
    rcases (he x rfl).letter with h | h
    · exact h ▸ hp.1
    · exact h ▸ hp.2

/-- **What is read is the beginning of the text, and is a number.** -/
theorem wellFormed_of_readNumber {s rest : Text} {t : NumberToken}
    (h : readNumber s = some (t, rest)) : t.WellFormed ∧ s = t.raw ++ rest := by
  unfold readNumber at h
  split at h
  next negative unsigned hsign =>
    have hs : s = (if negative then ['-'] else []) ++ unsigned := by
      split at hsign
      next => cases hsign; rfl
      next => cases hsign; rfl
    split at h
    next whole afterWhole hwhole =>
      split at h
      next => cases h
      next hne =>
        split at h
        next fraction afterFraction hfraction =>
          split at h
          next exponent rest' hexponent =>
            cases h
            obtain ⟨hdigits, hunsigned⟩ :=
              isWhole_of_readWhole hwhole (List.isEmpty_eq_false_iff.mp (Bool.eq_false_iff.mpr hne))
            have hafterWhole := readFraction_sound afterWhole
            have hafterFraction := readExponent_sound afterFraction
            rw [hfraction] at hafterWhole
            rw [hexponent] at hafterFraction
            refine ⟨⟨hdigits, hafterWhole.1, hafterFraction.1⟩, ?_⟩
            simp only [NumberToken.raw, List.append_assoc]
            rw [← hafterFraction.2, ← hafterWhole.2, ← hunsigned, ← hs]

/-- A number is read part by part. -/
theorem readNumber_of_parts {negative : Bool}
    {unsigned whole afterWhole fraction afterFraction rest : Text} {exponent : Option Exponent}
    (hwhole : readWhole unsigned = (whole, afterWhole)) (hne : whole ≠ [])
    (hdash : ∀ s, unsigned ≠ '-' :: s) (hfraction : readFraction afterWhole = (fraction, afterFraction))
    (hexponent : readExponent afterFraction = (exponent, rest)) :
    readNumber ((if negative then ['-'] else []) ++ unsigned) =
      some (⟨negative, whole, fraction, exponent⟩, rest) := by
  have hempty : whole.isEmpty = false := List.isEmpty_eq_false_iff.mpr hne
  cases negative with
  | true =>
    simp only [readNumber, if_true, List.cons_append, List.nil_append, hwhole, hfraction, hexponent,
      hempty, Bool.false_eq_true, if_false]
  | false =>
    simp only [readNumber, Bool.false_eq_true, if_false, List.nil_append, hwhole, hfraction,
      hexponent, hempty]

/-- The text does not go on with a character that could continue a number. -/
def EndsNumber (s : Text) : Prop :=
  Stops (fun c => c.isDigit || c == '.' || c == 'e' || c == 'E') s

/-- **A number is read wherever nothing continues it.** -/
theorem NumberToken.WellFormed.readNumber {t : NumberToken} (h : t.WellFormed) {s : Text}
    (hs : EndsNumber s) : readNumber (t.raw ++ s) = some (t, s) := by
  obtain ⟨negative, whole, fraction, exponent⟩ := t
  obtain ⟨hwhole, hfraction, hexponent⟩ := h
  dsimp only at hwhole hfraction hexponent
  have hends : ∀ {p : Char → Bool}, (∀ c, p c → c.isDigit || c == '.' || c == 'e' || c == 'E') →
      Stops p s := fun hp c hc =>
    Bool.eq_false_iff.mpr fun hpc => Bool.eq_false_iff.mp (hs c hc) (hp c hpc)
  have hdigit : Stops Char.isDigit s := hends fun c hc => by simp only [hc, Bool.true_or]
  have hpoint : Stops (· == '.') s :=
    hends fun c hc => by simp only [hc, Bool.or_true, Bool.true_or]
  -- the text behind each part, and what the part's reader makes of it
  have hexp : readExponent ((exponent.map Exponent.raw).getD [] ++ s) = (exponent, s) := by
    cases exponent with
    | none =>
      cases s with
      | nil => rfl
      | cons c s =>
        have hletter : (c = 'e' || c = 'E') = false := by
          have hstop := stops_cons.mp hs
          simp only [Bool.or_eq_false_iff, beq_eq_false_iff_ne] at hstop
          simp only [hstop.1.2, hstop.2, decide_false, Bool.or_self]
        simp only [Option.map_none, Option.getD_none, List.nil_append, readExponent, hletter,
          Bool.false_and, Bool.false_eq_true, if_false]
    | some e => exact (hexponent e rfl).readExponent hdigit
  have hfrac := readFraction_append hfraction
    (stops_exponent hexponent ⟨rfl, rfl⟩ hdigit) (stops_exponent hexponent ⟨rfl, rfl⟩ hpoint)
  have hstop : Stops Char.isDigit ((if fraction.isEmpty then [] else '.' :: fraction) ++
      ((exponent.map Exponent.raw).getD [] ++ s)) := by
    cases fraction with
    | nil => exact stops_exponent hexponent ⟨rfl, rfl⟩ hdigit
    | cons d ds => exact stops_cons.mpr rfl
  have hread := hwhole.readWhole hstop
  obtain ⟨c, cs, rfl, hc⟩ := hwhole.exists_cons
  have hdash : c ≠ '-' := fun h => absurd (h ▸ hc) (by decide)
  have hraw : NumberToken.raw ⟨negative, c :: cs, fraction, exponent⟩ ++ s =
      (if negative then ['-'] else []) ++ (c :: cs ++
        ((if fraction.isEmpty then [] else '.' :: fraction) ++
          ((exponent.map Exponent.raw).getD [] ++ s))) := by
    simp only [NumberToken.raw, List.append_assoc]
  rw [hraw]
  exact readNumber_of_parts hread (List.cons_ne_nil c cs)
    (fun t heq => hdash (List.cons.inj heq).1) hfrac hexp

end Json

end GameText
