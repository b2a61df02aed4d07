import GameText.Json.Token
import GameText.Json.Writer

/-!
# String tokens read back

`Inside written text` says that `written` stands inside a string token, after its opening quote up
to and with the closing one, and stands for `text`: plain characters, escapes of one letter, escapes
by code, and pairs of codes that make up one character. The reader finds exactly these
(`inside_of_readString`, `Inside.readString`), whatever follows the token, so a token is read back
wherever it is put; and `quote` writes one of them for every text (`inside_quote`).

Not established: which refusal a text gets that is no string token.
-/

namespace GameText

namespace Json

/-- The text begins with the escape of the second half of a code pair, and goes on behind it. -/
def beginsLow : Text → Bool
  | '\\' :: 'u' :: a :: b :: c :: d :: _ :: _ => (hexCode? a b c d).any isLowHalf
  | _ => false

/-- What is written inside a string token, its closing quote included, and the text that it stands
for. -/
inductive Inside : Text → Text → Prop
  | close : Inside ['"'] []
  | plain {c : Char} {w t : Text} (quote : c ≠ '"') (backslash : c ≠ '\\')
      (control : ¬ c.toNat < 0x20) (tail : Inside w t) : Inside (c :: w) (c :: t)
  | short {c value : Char} {w t : Text} (code : c ≠ 'u') (escape : shortEscape? c = some value)
      (tail : Inside w t) : Inside ('\\' :: c :: w) (value :: t)
  | code {a b c d : Char} {n : Nat} {w t : Text} (digits : hexCode? a b c d = some n)
      (single : isHighHalf n → beginsLow w = false) (tail : Inside w t) :
      Inside ('\\' :: 'u' :: a :: b :: c :: d :: w) (charOfCode n :: t)
  | pair {a b c d a' b' c' d' : Char} {high low : Nat} {w t : Text}
      (first : hexCode? a b c d = some high) (isHigh : isHighHalf high)
      (second : hexCode? a' b' c' d' = some low) (isLow : isLowHalf low) (tail : Inside w t) :
      Inside ('\\' :: 'u' :: a :: b :: c :: d :: '\\' :: 'u' :: a' :: b' :: c' :: d' :: w)
        (joinHalves high low :: t)

/-- The digits of a code have values. -/
theorem isSome_hexValue?_of_hexCode? {a b c d : Char} {n : Nat} (h : hexCode? a b c d = some n) :
    ∀ e ∈ [a, b, c, d], (hexValue? e).isSome := by
  unfold hexCode? at h
  obtain ⟨va, ha, h⟩ := Option.bind_eq_some_iff.mp h
  obtain ⟨vb, hb, h⟩ := Option.bind_eq_some_iff.mp h
  obtain ⟨vc, hc, h⟩ := Option.bind_eq_some_iff.mp h
  obtain ⟨vd, hd, -⟩ := Option.bind_eq_some_iff.mp h
  simp only [List.forall_mem_cons, ha, hb, hc, hd, Option.isSome_some, true_and]
  nofun

namespace Inside

theorem ne_nil {w t : Text} (h : Inside w t) : w ≠ [] := by
  cases h <;> exact List.cons_ne_nil _ _

end Inside

/-! ## What is read -/

/-- Putting characters before a token that was read succeeds with the token. -/
theorem map_putBefore_eq_ok {read : Except Refusal (StringToken × Text)} {written : Text} {c : Char}
    {t : StringToken} {rest : Text} (h : read.map (putBefore written c) = .ok (t, rest)) :
    ∃ t', read = .ok (t', rest) ∧ t = ⟨written ++ t'.written, c :: t'.text⟩ := by
  cases read with
  | error => cases h
  | ok found =>
    obtain ⟨t', rest'⟩ := found
    cases h
    exact ⟨t', rfl, rfl⟩

/-- What follows an escape decides whether it is half of a pair, and is part of the token. -/
theorem beginsLow_append {w rest t : Text} (h : Inside w t) :
    beginsLow (w ++ rest) = beginsLow w := by
  cases h with
  | close => cases rest <;> rfl
  | plain _ hb _ _ =>
    unfold beginsLow
    split
    next heq => exact absurd (List.cons.inj heq).1 hb
    next =>
      split
      next heq => exact absurd (List.cons.inj heq).1 hb
      next => rfl
  | short hu _ _ =>
    unfold beginsLow
    split
    next heq => exact absurd (List.cons.inj (List.cons.inj heq).2).1 hu
    next =>
      split
      next heq => exact absurd (List.cons.inj (List.cons.inj heq).2).1 hu
      next => rfl
  | code _ _ tail =>
    obtain ⟨e, w, rfl⟩ := List.exists_cons_of_ne_nil tail.ne_nil
    rfl
  | pair _ _ _ _ tail =>
    obtain ⟨e, w, rfl⟩ := List.exists_cons_of_ne_nil tail.ne_nil
    rfl

/-- **What is read is the beginning of the text, and is a string token.** -/
theorem inside_of_readString {opened s rest : Text} {t : StringToken}
    (h : readString opened s = .ok (t, rest)) : Inside t.written t.text ∧ s = t.written ++ rest := by
  fun_induction readString opened s generalizing t with
  | case1 => cases h
  | case2 =>
    cases h
    exact ⟨.close, rfl⟩
  | case3 => cases h
  | case4 => cases h
  | case5 => cases h
  | case6 a b c d a' b' c' d' e rest' high hfirst hhigh low hsecond hlow ih =>
    obtain ⟨t', hread, rfl⟩ := map_putBefore_eq_ok h
    obtain ⟨hinside, hrest⟩ := ih hread
    exact ⟨.pair hfirst hhigh hsecond hlow hinside,
      by simp only [hrest, List.cons_append, List.nil_append]⟩
  | case7 a b c d a' b' c' d' e rest' high hfirst hhigh low hsecond hlow ih =>
    obtain ⟨t', hread, rfl⟩ := map_putBefore_eq_ok h
    obtain ⟨hinside, hrest⟩ := ih hread
    have hnext : beginsLow t'.written = false := by
      rw [← beginsLow_append hinside, ← hrest, beginsLow, hsecond, Option.any_some]
      exact Bool.eq_false_iff.mpr hlow
    exact ⟨.code hfirst (fun _ => hnext) hinside,
      by simp only [hrest, List.cons_append, List.nil_append]⟩
  | case8 a b c d a' b' c' d' e rest' code hfirst hhigh ih =>
    obtain ⟨t', hread, rfl⟩ := map_putBefore_eq_ok h
    obtain ⟨hinside, hrest⟩ := ih hread
    exact ⟨.code hfirst (fun hhigh' => absurd hhigh' hhigh) hinside,
      by simp only [hrest, List.cons_append, List.nil_append]⟩
  | case9 => cases h
  | case10 a b c d e rest' hnext code hfirst ih =>
    obtain ⟨t', hread, rfl⟩ := map_putBefore_eq_ok h
    obtain ⟨hinside, hrest⟩ := ih hread
    have hlow : beginsLow t'.written = false := by
      rw [← beginsLow_append hinside, ← hrest]
      unfold beginsLow
      split
      next heq => exact (hnext _ _ _ _ _ _ (List.cons.inj heq).1 (List.cons.inj heq).2).elim
      next => rfl
    exact ⟨.code hfirst (fun _ => hlow) hinside,
      by simp only [hrest, List.cons_append, List.nil_append]⟩
  | case11 => cases h
  | case12 => cases h
  | case13 c rest' _ _ hcode value hescape ih =>
    obtain ⟨t', hread, rfl⟩ := map_putBefore_eq_ok h
    obtain ⟨hinside, hrest⟩ := ih hread
    exact ⟨.short hcode hescape hinside, by simp only [hrest, List.cons_append, List.nil_append]⟩
  | case14 => cases h
  | case15 c rest' hquote hend _ _ _ hslash hcontrol ih =>
    obtain ⟨t', hread, rfl⟩ := map_putBefore_eq_ok h
    obtain ⟨hinside, hrest⟩ := ih hread
    refine ⟨.plain hquote ?_ hcontrol hinside,
      by simp only [hrest, List.cons_append, List.nil_append]⟩
    intro hc
    cases rest' with
    | nil => exact hend hc rfl
    | cons d rest' => exact hslash d rest' hc rfl

/-- A code that is no half of a pair, or whose second half does not follow, stands by itself. -/
theorem readString_code {opened w rest t : Text} {a b c d : Char} {n : Nat}
    (digits : hexCode? a b c d = some n) (single : isHighHalf n → beginsLow w = false)
    (tail : Inside w t) :
    readString opened ('\\' :: 'u' :: a :: b :: c :: d :: (w ++ rest)) =
      (readString opened (w ++ rest)).map (putBefore ['\\', 'u', a, b, c, d] (charOfCode n)) := by
  have hagree : beginsLow (w ++ rest) = beginsLow w := beginsLow_append tail
  rw [← hagree] at single
  obtain ⟨e, s, hs⟩ : ∃ e s, w ++ rest = e :: s :=
    List.exists_cons_of_ne_nil (List.append_ne_nil_of_left_ne_nil tail.ne_nil rest)
  rw [hs] at single ⊢
  by_cases hnext : ∃ a' b' c' d' e' s', e = '\\' ∧ s = 'u' :: a' :: b' :: c' :: d' :: e' :: s'
  · obtain ⟨a', b', c', d', e', s', rfl, rfl⟩ := hnext
    obtain ⟨low, hlow⟩ : ∃ low, hexCode? a' b' c' d' = some low := by
      cases tail with
      | close => cases hs
      | plain _ hslash => exact absurd (List.cons.inj hs).1 hslash
      | short hcode => exact absurd (List.cons.inj (List.cons.inj hs).2).1 hcode
      | code digits | pair digits =>
        simp only [List.cons_append, List.cons.injEq] at hs
        obtain ⟨-, -, rfl, rfl, rfl, rfl, -⟩ := hs
        exact ⟨_, digits⟩
    rw [readString]
    simp only [digits, hlow]
    split
    next hhigh =>
      have hno := single hhigh
      rw [beginsLow, hlow, Option.any_some] at hno
      rw [if_neg (Bool.eq_false_iff.mp hno)]
    next => rfl
  · rw [readString]
    · simp only [digits]
    · intro a' b' c' d' e' s' he hs'
      exact hnext ⟨a', b', c', d', e', s', he, hs'⟩

/-- **A string token is read wherever it stands.** -/
theorem Inside.readString {w t : Text} (h : Inside w t) (opened rest : Text) :
    readString opened (w ++ rest) = .ok (⟨w, t⟩, rest) := by
  induction h with
  | close => rfl
  | plain hquote hslash hcontrol tail ih =>
    rw [List.cons_append, Json.readString, if_neg hcontrol, ih]
    · rfl
    · exact hquote
    all_goals
      intros
      exact hslash ‹_›
  | short hcode hescape tail ih =>
    rw [List.cons_append, List.cons_append, Json.readString]
    · simp only [hescape, ih]
      rfl
    all_goals
      intros
      exact hcode ‹_›
  | code digits single tail ih =>
    simp only [List.cons_append, readString_code digits single tail, ih]
    rfl
  | pair hfirst hhigh hsecond hlow tail ih =>
    obtain ⟨e, w, rfl⟩ := List.exists_cons_of_ne_nil tail.ne_nil
    simp only [List.cons_append, Json.readString, hfirst, hhigh, hsecond, hlow, if_true]
    rw [← List.cons_append, ih]
    rfl

/-- The characters are those of a string token, quotes included, and stand for the text. -/
def IsStringToken (raw text : Text) : Prop := ∃ written, raw = '"' :: written ∧ Inside written text

/-! ## What is written -/

/-- The escape of a control character by its code stands for it. -/
theorem hexCode?_control {n : Nat} (h : n < 0x20) :
    hexCode? '0' '0' (hexDigit (n / 16)) (hexDigit (n % 16)) = some n := by
  have hall : ∀ n : Fin 0x20,
      hexCode? '0' '0' (hexDigit (n.val / 16)) (hexDigit (n.val % 16)) = some n.val := by
    decide
  exact hall ⟨n, h⟩

theorem Inside.escapeChar {w t : Text} (tail : Inside w t) (c : Char) :
    Inside (escapeChar c ++ w) (c :: t) := by
  unfold Json.escapeChar
  split
  next h =>
    subst h
    exact .short (by decide) rfl tail
  split
  next h =>
    subst h
    exact .short (by decide) rfl tail
  split
  next h =>
    subst h
    exact .short (by decide) rfl tail
  split
  next h =>
    subst h
    exact .short (by decide) rfl tail
  split
  next h =>
    subst h
    exact .short (by decide) rfl tail
  split
  next h =>
    subst h
    exact .short (by decide) rfl tail
  split
  next h =>
    subst h
    exact .short (by decide) rfl tail
  split
  next hquote hslash _ _ _ _ _ hcontrol =>
    have hhigh : isHighHalf c.toNat = false := by
      simp only [isHighHalf, Bool.and_eq_false_iff, decide_eq_false_iff_not]
      omega
    have hlow : isLowHalf c.toNat = false := by
      simp only [isLowHalf, Bool.and_eq_false_iff, decide_eq_false_iff_not]
      omega
    have hchar : charOfCode c.toNat = c := by
      rw [charOfCode, hhigh, hlow]
      exact Char.ofNat_toNat c
    have hcode := Inside.code (hexCode?_control hcontrol)
      (fun h => absurd h (Bool.eq_false_iff.mp hhigh)) tail
    rwa [hchar] at hcode
  next hquote hslash _ _ _ _ _ hcontrol => exact .plain hquote hslash hcontrol tail

/-- **Every text has a string token**: the one that `quote` writes. -/
theorem inside_quote (s : Text) : Inside (s.flatMap escapeChar ++ ['"']) s := by
  induction s with
  | nil => exact .close
  | cons c s ih =>
    rw [List.flatMap_cons, List.append_assoc]
    exact ih.escapeChar c

theorem isStringToken_quote (s : Text) : IsStringToken (quote s) s :=
  ⟨s.flatMap escapeChar ++ ['"'], rfl, inside_quote s⟩

end Json

end GameText
