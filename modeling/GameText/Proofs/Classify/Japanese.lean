import GameText.Classify.Dialogue
import GameText.Proofs.Markup.Tokens
import GameText.Proofs.Text.Trim

/-!
# Japanese lines

A line of an event message is judged twice: the rules against garbage look at the line as it stands,
and evidence for dialogue is looked for once codes and spare blanks are gone. Neither loses a Japanese
character on the way (`filter_normalizeDialogue`), so a run of them that is left is evidence and rules
out whatever is too short, blank, a number or bare punctuation.

The one rule that can still take the line is the one that asks for a letter, and its table is not the
table of Japanese characters: it lacks the half-width katakana and the kanji of extension A
(`isProseLetter_of_isJapanese`). So a Japanese line whose shape is in order counts as dialogue exactly
if a letter of that table stands in it (`japanese_dialogue_iff`).
-/

namespace GameText

/-! ## Classes of characters -/

/-- A Japanese character is decided by its code point: each range of the class lies in one of these. -/
theorem toNat_of_isJapanese {c : Char} (h : isJapanese c = true) :
    (0x3040 ≤ c.toNat ∧ c.toNat ≤ 0x30FF) ∨ (0x3400 ≤ c.toNat ∧ c.toNat ≤ 0x4DBF) ∨
      (0x4E00 ≤ c.toNat ∧ c.toNat ≤ 0x9FFF) ∨ (0xFF65 ≤ c.toNat ∧ c.toNat ≤ 0xFF9F) := by
  simp only [isJapanese, Bool.or_eq_true, Bool.and_eq_true, decide_eq_true_eq] at h
  omega

theorem isBlank_of_isJapanese {c : Char} (h : isJapanese c = true) : isBlank c = false := by
  have hcode := toNat_of_isJapanese h
  simp only [isBlank, Bool.or_eq_false_iff, Bool.and_eq_false_iff, decide_eq_false_iff_not,
    beq_eq_false_iff_ne]
  omega

theorem not_isJapanese_of_isBlank (c : Char) (h : isBlank c = true) : isJapanese c = false := by
  by_contra hjapanese
  rw [isBlank_of_isJapanese (Bool.of_not_eq_false hjapanese)] at h
  cases h

/-- No range of decimal digits meets the Japanese characters. -/
theorem isDigitChar_of_isJapanese {c : Char} (h : isJapanese c = true) : isDigitChar c = false := by
  have hcode := toNat_of_isJapanese h
  have hclear : ∀ range ∈ decimalDigitRanges, range.2 < 0x3040 ∨
      (0x9FFF < range.1 ∧ range.2 < 0xFF65) ∨ 0xFF9F < range.1 := by decide
  rw [isDigitChar, if_neg (by omega), inRanges, List.any_eq_false]
  rintro ⟨low, high⟩ hrange
  have hends := hclear (low, high) hrange
  simp only [Bool.and_eq_true, decide_eq_true_eq]
  omega

theorem isMark_of_isJapanese {c : Char} (h : isJapanese c = true) : Classify.isMark c = false := by
  have hmarks : ".…,!?;:-_=+*#@$%^&()[]\x7b\x7d|/\\<>~`'\"".toList.all (!isJapanese ·) = true := by
    decide
  rw [Classify.isMark, Bool.eq_false_iff, Ne, List.contains_iff_mem]
  intro hmem
  have hc := List.all_eq_true.mp hmarks c hmem
  rw [h] at hc
  cases hc

/-- A kanji of extension A, or half-width katakana. -/
def isRareJapanese (c : Char) : Bool :=
  (0x3400 ≤ c.toNat && c.toNat ≤ 0x4DBF) || (0xFF65 ≤ c.toNat && c.toNat ≤ 0xFF9F)

theorem toNat_of_isAlpha {c : Char} (h : c.isAlpha = true) : c.toNat < 0x80 := by
  have hcode : c.val.toNat = c.toNat := rfl
  have hends : 'Z'.val.toNat = 90 ∧ 'z'.val.toNat = 122 := by decide
  have hcase : c.isUpper = true ∨ c.isLower = true := (Bool.or_eq_true _ _).mp h
  rcases hcase with hupper | hlower
  · have hrange : c.val ≥ 'A'.val ∧ c.val ≤ 'Z'.val := of_decide_eq_true hupper
    have hle := UInt32.le_iff_toNat_le.mp hrange.2
    omega
  · have hrange := (Bool.and_eq_true _ _).mp hlower
    have hle := UInt32.le_iff_toNat_le.mp (of_decide_eq_true hrange.2)
    omega

/-- **The Japanese characters that are no letters of prose** are the rare ones. -/
theorem isProseLetter_of_isJapanese {c : Char} (h : isJapanese c = true) :
    isProseLetter c = !isRareJapanese c := by
  have hcode := toNat_of_isJapanese h
  have halpha : c.isAlpha = false := by
    rw [Bool.eq_false_iff]
    intro halpha
    have hsmall := toNat_of_isAlpha halpha
    omega
  rw [Bool.eq_iff_iff]
  simp only [isProseLetter, isRareJapanese, halpha, Bool.false_or, Bool.or_eq_true,
    Bool.and_eq_true, decide_eq_true_eq, Bool.not_eq_true', Bool.or_eq_false_iff,
    Bool.and_eq_false_iff, decide_eq_false_iff_not]
  omega

/-! ## What is left of a line -/

namespace Text

section Filter

variable {p : Char → Bool} (hp : ∀ c, isBlank c = true → p c = false)

include hp

theorem filter_squeezeFrom (inRun : Bool) (s : Text) : (squeezeFrom inRun s).filter p = s.filter p := by
  have hspace : p ' ' = false := hp ' ' (by decide)
  fun_induction squeezeFrom inRun s with
  | case1 => rfl
  | case2 inRun c cs hblank ih =>
    rw [List.filter_append, ih, List.filter_cons_of_neg (by rw [hp c hblank]; decide)]
    cases inRun <;> simp [hspace]
  | case3 inRun c cs hblank ih => rw [List.filter_cons, List.filter_cons, ih]

theorem filter_trim (s : Text) : s.trim.filter p = s.filter p := by
  have hblanks : ∀ t : Text, (t.dropWhile isBlank).filter p = t.filter p := by
    intro t
    have hfront : (t.takeWhile isBlank).filter p = [] :=
      List.filter_eq_nil_iff.mpr fun c hc => by
        rw [hp c (List.all_eq_true.mp List.all_takeWhile c hc)]
        decide
    calc (t.dropWhile isBlank).filter p
        = (t.takeWhile isBlank ++ t.dropWhile isBlank).filter p := by
          rw [List.filter_append, hfront, List.nil_append]
      _ = t.filter p := by rw [List.takeWhile_append_dropWhile]
  rw [trim, trimEnd, List.filter_reverse, hblanks, ← List.filter_reverse, List.reverse_reverse,
    trimStart, hblanks]

/-- Where tokens become spaces, no character that is not blank is added. -/
theorem filter_mapTokens_sublist {α : Type} {recognize : Recognizer α} (hcuts : recognize.Cuts)
    (s : Text) :
    ((mapTokens recognize (fun _ _ => [' ']) s).filter p).Sublist (s.filter p) := by
  have hspace : p ' ' = false := hp ' ' (by decide)
  have hpieces : ∀ ps : List (Piece α), ((Piece.renderWith (fun _ _ => [' ']) ps).filter p).Sublist
      ((ps.flatMap Piece.raw).filter p) := by
    intro ps
    induction ps with
    | nil => exact List.Sublist.refl _
    | cons piece ps ih =>
      cases piece with
      | gap c =>
        rw [Piece.renderWith_gap, List.flatMap_cons, Piece.raw, List.singleton_append,
          List.filter_cons, List.filter_cons]
        split
        · exact ih.cons_cons c
        · exact ih
      | token value own =>
        have hnothing : [' '].filter p = [] :=
          List.filter_cons_of_neg (by rw [hspace]; decide)
        rw [Piece.renderWith_token, List.flatMap_cons, List.filter_append, List.filter_append,
          hnothing]
        exact ih.trans (List.sublist_append_right _ _)
  have hsub := hpieces (pieces recognize s)
  rwa [flatMap_raw_pieces hcuts] at hsub

end Filter

/-- A run has as many Japanese characters as it is long. -/
theorem le_length_of_hasJapaneseRun {n : Nat} {t : Text} (h : hasJapaneseRun n t = true) :
    n ≤ (t.filter isJapanese).length := by
  induction t with
  | nil =>
    rw [hasJapaneseRun, beq_iff_eq] at h
    rw [h]
    exact Nat.le_refl 0
  | cons c cs ih =>
    rw [hasJapaneseRun, Bool.or_eq_true, Bool.and_eq_true, beq_iff_eq] at h
    rcases h with ⟨hlength, hall⟩ | hrest
    · calc n = (((c :: cs).take n).filter isJapanese).length := by
            rw [List.filter_eq_self.mpr (List.all_eq_true.mp hall), hlength]
        _ ≤ ((c :: cs).filter isJapanese).length :=
            ((List.take_sublist n (c :: cs)).filter isJapanese).length_le
    · exact (ih hrest).trans ((List.sublist_cons_self c cs).filter isJapanese).length_le

/-- A run holds every shorter one. -/
theorem hasJapaneseRun_of_le {m n : Nat} (hle : m ≤ n) {t : Text} (h : hasJapaneseRun n t = true) :
    hasJapaneseRun m t = true := by
  induction t with
  | nil =>
    rw [hasJapaneseRun, beq_iff_eq] at h ⊢
    omega
  | cons c cs ih =>
    rw [hasJapaneseRun, Bool.or_eq_true, Bool.and_eq_true, beq_iff_eq] at h ⊢
    rcases h with ⟨hlength, hall⟩ | hrest
    · have htake : (c :: cs).take m = ((c :: cs).take n).take m := by
        rw [List.take_take, Nat.min_eq_left hle]
      refine Or.inl ⟨?_, ?_⟩
      · rw [htake, List.length_take, hlength, Nat.min_eq_left hle]
      · rw [htake, List.all_eq_true]
        exact fun d hd => List.all_eq_true.mp hall d (List.mem_of_mem_take hd)
    · exact Or.inr (ih hrest)

end Text

namespace Classify

theorem controlCode?_cuts : Recognizer.Cuts Markup.controlCode? := fun _ _ _ _ h =>
  have ⟨raw, hraw, hsplit⟩ := Markup.isMarkup_of_controlCode? h
  ⟨raw, hraw.ne_nil, hsplit⟩

/-- **The Japanese characters of a normalized line** stand in the line, in the same order. -/
theorem filter_normalizeDialogue (body : Text) :
    ((normalizeDialogue body).filter isJapanese).Sublist (body.trim.filter isJapanese) := by
  have hblank := @not_isJapanese_of_isBlank
  rw [normalizeDialogue, Text.filter_trim hblank, Text.squeeze, Text.filter_squeezeFrom hblank,
    Text.filter_trim hblank]
  exact Text.filter_mapTokens_sublist hblank controlCode?_cuts body

/-! ## Rules and evidence -/

/-- A string is garbage exactly if a rule holds for it. -/
theorem isGarbage_eq_true_iff {s : Text} :
    isGarbage s = true ↔ ∃ reason, GarbageReason.holds reason s.trim = true := by
  rw [isGarbage, garbageReason?, List.find?_isSome]
  constructor
  · rintro ⟨reason, -, h⟩
    exact ⟨reason, h⟩
  · rintro ⟨reason, h⟩
    exact ⟨reason, by cases reason <;> decide, h⟩

section Shape

variable {t : Text}

/-- The rules about length and about the kind of all characters leave a text with three Japanese
characters alone. -/
theorem holds_eq_false_of_japanese (h : 3 ≤ (t.filter isJapanese).length) {reason : GarbageReason}
    (hreason : reason ∈
      [GarbageReason.blankOrNumeric, .punctuationOnly, .tooShort, .singleGlyph]) :
    reason.holds t = false := by
  have hlength : 3 ≤ t.length := h.trans (List.length_filter_le _ _)
  have hne : t ≠ [] := by
    rintro rfl
    cases hlength
  obtain ⟨c, hc⟩ := List.exists_mem_of_length_pos (Nat.lt_of_lt_of_le (by decide) h)
  obtain ⟨hmem, hjapanese⟩ := List.mem_filter.mp hc
  simp only [List.mem_cons, List.not_mem_nil, or_false] at hreason
  rcases hreason with rfl | rfl | rfl | rfl
  · have hdigits : t.all isDigitChar = false :=
      List.all_eq_false.mpr ⟨c, hmem, by rw [isDigitChar_of_isJapanese hjapanese]; decide⟩
    simp [GarbageReason.holds, isBlankOrNumeric, hne, hdigits]
  · have hmarks : t.all isMark = false :=
      List.all_eq_false.mpr ⟨c, hmem, by rw [isMark_of_isJapanese hjapanese]; decide⟩
    simp [GarbageReason.holds, isPunctuationOnly, hmarks]
  · have hlong : ¬ t.length ≤ 2 := by omega
    simp [GarbageReason.holds, isTooShort, hlong]
  · have hglyphs : 3 ≤ (t.filter (!isBlank ·)).length := by
      rw [← List.countP_eq_length_filter] at h ⊢
      exact h.trans (List.countP_mono_left fun d _ hd => by rw [isBlank_of_isJapanese hd]; rfl)
    have hmany : ¬ (t.filter (!isBlank ·)).length ≤ 1 := by omega
    simp [GarbageReason.holds, isSingleGlyph, hmany]

end Shape

/-- Garbage with three Japanese characters is garbage for its shape, or has no letter. -/
theorem isGarbage_iff_of_japanese {s : Text} (h : 3 ≤ (s.trim.filter isJapanese).length)
    (hshape : ∀ reason ∈ [GarbageReason.uiToken, .resourceId, .markupOnly, .escapeCode, .codeLike],
      reason.holds s.trim = false) :
    isGarbage s = true ↔ hasNoLetter s.trim = true := by
  rw [isGarbage_eq_true_iff]
  refine ⟨fun ⟨reason, hreason⟩ => ?_, fun hletter => ⟨.noLetter, hletter⟩⟩
  cases reason with
  | noLetter => exact hreason
  | blankOrNumeric | punctuationOnly | tooShort | singleGlyph =>
    rw [holds_eq_false_of_japanese h (by decide)] at hreason
    cases hreason
  | uiToken | resourceId | markupOnly | escapeCode | codeLike =>
    rw [hshape _ (by decide)] at hreason
    cases hreason

/-- A run of Japanese characters is evidence. -/
theorem evidence?_isSome_of_japanese {t : Text} (h : Text.hasJapaneseRun 2 t = true) :
    (evidence? t).isSome = true := by
  rw [evidence?, List.find?_isSome]
  exact ⟨.japaneseRun, by decide, h⟩

/-- **When a Japanese line is dialogue.** The line, behind a speaker's name if there is one, has three
Japanese characters side by side once its codes are gone; it is no bare command behind a name, and
none of the five rules about the shape of interface words, resource names, markup, escape codes and
program text takes it. Then it is dialogue exactly if it has a letter of prose, as every kana of full
width is and every kanji but those of extension A. -/
theorem japanese_dialogue_iff {s : Text}
    (hrun : Text.hasJapaneseRun 3 (normalizeDialogue (splitSpeaker s).2) = true)
    (hcommand : (splitSpeaker s).1 = [] ∨ isBareCommand (splitSpeaker s).2.trim = false)
    (hshape : ∀ reason ∈ [GarbageReason.uiToken, .resourceId, .markupOnly, .escapeCode, .codeLike],
      reason.holds (splitSpeaker s).2.trim = false) :
    (isDialogue s = true ↔ ∃ c ∈ (splitSpeaker s).2.trim, isProseLetter c = true) ∧
      ((∃ c ∈ (splitSpeaker s).2, isJapanese c = true ∧ isRareJapanese c = false) →
        isDialogue s = true) := by
  cases hsplit : splitSpeaker s with
  | mk speaker body =>
  rw [hsplit] at hrun hcommand hshape
  dsimp only at hrun hcommand hshape ⊢
  have hcount : 3 ≤ (body.trim.filter isJapanese).length :=
    (Text.le_length_of_hasJapaneseRun hrun).trans (filter_normalizeDialogue body).length_le
  have hbody : body.trim ≠ [] := by
    intro hnil
    rw [hnil] at hcount
    cases hcount
  have hnormalized : normalizeDialogue body ≠ [] := by
    intro hnil
    rw [hnil] at hrun
    cases hrun
  have hguard : (!speaker.isEmpty && (body.trim.isEmpty || isBareCommand body.trim)) = false := by
    rcases hcommand with rfl | hcommand
    · rfl
    · simp [hbody, hcommand]
  have hevidence := evidence?_isSome_of_japanese (Text.hasJapaneseRun_of_le (by decide : 2 ≤ 3) hrun)
  have hgarbage := isGarbage_iff_of_japanese hcount hshape
  have hdialogue : isDialogue s = !isGarbage body := by
    rw [isDialogue, hsplit]
    dsimp only
    rw [hguard, hevidence]
    cases isGarbage body <;> simp [hnormalized]
  have hiff : isDialogue s = true ↔ ∃ c ∈ body.trim, isProseLetter c = true := by
    rw [hdialogue, Bool.not_eq_true', ← Bool.not_eq_true, hgarbage, hasNoLetter,
      Bool.not_eq_true', Bool.not_eq_false, List.any_eq_true]
  refine ⟨hiff, ?_⟩
  rintro ⟨c, hc, hjapanese, hcommon⟩
  have hmem : c ∈ body.trim.filter isJapanese := by
    rw [Text.filter_trim not_isJapanese_of_isBlank]
    exact List.mem_filter.mpr ⟨hc, hjapanese⟩
  refine hiff.mpr ⟨c, (List.mem_filter.mp hmem).1, ?_⟩
  rw [isProseLetter_of_isJapanese hjapanese, hcommon]
  rfl

/-- Behind a name and a code, one kana of full width makes half-width katakana and a rare kanji
dialogue. -/
theorem kana_among_rare_is_dialogue :
    let s : Text := "Ann.\\V[1]㐂ｶﾅだ".toList
    let body : Text := "\\V[1]㐂ｶﾅだ".toList
    splitSpeaker s = ("Ann.".toList, body) ∧
      Text.hasJapaneseRun 3 (normalizeDialogue body) = true ∧ isBareCommand body.trim = false ∧
      (∀ reason ∈ [GarbageReason.uiToken, .resourceId, .markupOnly, .escapeCode, .codeLike],
        reason.holds body.trim = false) ∧
      isDialogue s = true := by
  intro s body
  have hsplit : splitSpeaker s = ("Ann.".toList, body) := by decide +kernel
  have hrun : Text.hasJapaneseRun 3 (normalizeDialogue body) = true := by decide +kernel
  have hcommand : isBareCommand body.trim = false := by decide +kernel
  have hshape : ∀ reason ∈
      [GarbageReason.uiToken, .resourceId, .markupOnly, .escapeCode, .codeLike],
      reason.holds body.trim = false := by decide +kernel
  have hdialogue := @japanese_dialogue_iff s
  rw [hsplit] at hdialogue
  exact ⟨hsplit, hrun, hcommand, hshape,
    (hdialogue hrun (Or.inr hcommand) hshape).2 ⟨'だ', by decide, by decide, by decide⟩⟩

/-- **A line in half-width katakana is hidden.** It has five Japanese characters side by side, no
speaker and no shape of control text, and is rejected for want of a letter. -/
theorem half_width_line_rejected :
    let s : Text := "ｺﾝﾆﾁﾊ".toList
    splitSpeaker s = ([], s) ∧ Text.hasJapaneseRun 3 (normalizeDialogue s) = true ∧
      (∀ reason ∈ [GarbageReason.uiToken, .resourceId, .markupOnly, .escapeCode, .codeLike],
        reason.holds s.trim = false) ∧
      garbageReason? s = some .noLetter ∧ isDialogue s = false := by
  decide +kernel

end Classify

end GameText
