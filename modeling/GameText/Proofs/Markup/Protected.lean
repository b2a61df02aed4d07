import GameText.Proofs.Markup.Tokens
import GameText.Proofs.Text.Find

/-!
# What protection leaves of the markup

Protection replaces what one scan of the text finds. Placeholders begin no markup and hold no
bracket, so markup can only be left where a character outside the scanned markup begins it, and then
the text behind that character has been changed: a bracket that holds markup with brackets of its
own is no markup in the text, but it is one once its inside has been replaced.

`enclosesMarkup` says of the pieces of a text that this happens. Control codes are never left.
-/

namespace GameText

namespace Markup

/-! ## Control codes, by their first character -/

theorem controlCode?_backslash_eq_none_iff {before : Option Char} {cs : Text} :
    controlCode? before ('\\' :: cs) = none ↔
      command? cs = none ∧ ∀ c ∈ cs.head?, isCodeSymbol c = false := by
  cases hcommand : command? cs with
  | some rest => simp [controlCode?, hcommand]
  | none => cases cs <;> simp [controlCode?, hcommand]

theorem controlCode?_angle_eq_none_iff {before : Option Char} {c : Char} {cs : Text} :
    controlCode? before ('<' :: c :: cs) = none ↔ c = '>' ∨ '>' ∉ cs := by
  rw [controlCode?]
  by_cases hc : c = '>'
  · simp [hc]
  · rw [if_neg hc, Option.map_eq_none_iff, ← Option.not_isSome_iff_eq_none,
      upTo?_isSome_iff_mem]
    simp [hc]

theorem controlCode?_percent_eq_none_iff {before : Option Char} {cs : Text} :
    controlCode? before ('%' :: cs) = none ↔ ∀ c ∈ cs.head?, isDigitChar c = false := by
  rw [controlCode?]
  cases cs with
  | nil => simp
  | cons c cs => cases hc : isDigitChar c <;> simp [hc]

theorem controlCode?_of_not_mem {c : Char} (hc : c ∉ "\\<%".toList) (before : Option Char)
    (cs : Text) : controlCode? before (c :: cs) = none := by
  have hne : c ≠ '\\' ∧ c ≠ '<' ∧ c ≠ '%' := by simpa using hc
  simp [controlCode?, hne]

/-! ## What stands in front of the first placeholder -/

section Rewritten

variable {ps : List (Piece Unit)} {w : Text}

/-- The tokens among pieces are markup. -/
def OfMarkup (ps : List (Piece Unit)) : Prop := ∀ raw, .token () raw ∈ ps → IsMarkup raw

/-- A beginning without `«` stands outside the markup, so the text begins with it as well. -/
theorem plain_front {front rest : Text} (h : Piece.Rewritten IsPlaceholder ps (front ++ rest))
    (hfront : '«' ∉ front) : ∃ qs : List (Piece Unit),
      ps.flatMap Piece.raw = front ++ qs.flatMap Piece.raw ∧
        Piece.Rewritten IsPlaceholder qs rest := by
  have hkind : ∀ new, IsPlaceholder new → ∃ c cs, new = c :: cs ∧ ¬ c ≠ '«' := by
    rintro new ⟨n, rfl⟩
    exact ⟨'«', _, placeholder_eq n, fun h => h rfl⟩
  obtain ⟨qs, rfl, hqs⟩ := h.split hkind (p := (· ≠ '«')) fun c hc heq => hfront (heq ▸ hc)
  exact ⟨qs, Piece.flatMap_raw_map_gap front qs, hqs⟩

/-- A character that no placeholder has stands in the text as well. -/
theorem mem_of_mem_rewritten (h : Piece.Rewritten IsPlaceholder ps w) {c : Char}
    (hplaceholder : ¬ OfPlaceholder c) (hc : c ∈ w) : .gap c ∈ ps := by
  refine (h.mem hc).resolve_right ?_
  rintro ⟨new, ⟨n, rfl⟩, hmem⟩
  exact hplaceholder (mem_placeholder hmem)

theorem mem_raw_of_gap_mem {c : Char} (h : .gap c ∈ ps) : c ∈ ps.flatMap Piece.raw :=
  List.mem_flatMap.mpr ⟨_, h, List.mem_singleton_self c⟩

/-! ## Control codes -/

/-- A command that is there once markup has been replaced was there before. -/
theorem command?_rewritten (h : Piece.Rewritten IsPlaceholder ps w)
    (hnone : command? (ps.flatMap Piece.raw) = none) : command? w = none := by
  rw [Option.eq_none_iff_forall_ne_some]
  intro rest hcommand
  obtain ⟨letters, hname, hshape⟩ := command?_eq_some_iff.mp hcommand
  have hletters : '«' ∉ letters := fun hmem => absurd (hname.2 _ hmem) (by decide)
  rcases hshape with ⟨digits, hdigits, rfl⟩ | ⟨inside, -, rfl⟩
  · have hplain : '«' ∉ letters ++ '[' :: (digits ++ [']']) := by
      have hnumber : '«' ∉ digits := fun hmem => absurd (hdigits _ hmem) (by decide)
      simp [hletters, hnumber]
    have hsplit : letters ++ '[' :: (digits ++ ']' :: rest) =
        letters ++ '[' :: (digits ++ [']']) ++ rest := by simp
    rw [hsplit] at h
    obtain ⟨qs, hraw, -⟩ := plain_front h hplain
    have hfound : command? (ps.flatMap Piece.raw) = some (qs.flatMap Piece.raw) :=
      command?_eq_some_iff.mpr ⟨letters, hname, .inl ⟨digits, hdigits, by simp [hraw]⟩⟩
    rw [hfound] at hnone
    cases hnone
  · have hplain : '«' ∉ letters ++ ['<'] := by simp [hletters]
    rw [List.append_cons] at h
    obtain ⟨qs, hraw, hqs⟩ := plain_front h hplain
    have hclose : '>' ∈ qs.flatMap Piece.raw :=
      mem_raw_of_gap_mem (mem_of_mem_rewritten hqs (by decide)
        (List.mem_append_right _ List.mem_cons_self))
    obtain ⟨inside', rest', hqs, hinside⟩ := List.eq_append_cons_of_mem hclose
    have hfound : command? (ps.flatMap Piece.raw) = some rest' :=
      command?_eq_some_iff.mpr ⟨letters, hname, .inr ⟨inside', hinside, by simp [hraw, hqs]⟩⟩
    rw [hfound] at hnone
    cases hnone

/-- A first character of a kind that no placeholder begins with is the text's own. -/
theorem head?_rewritten (h : Piece.Rewritten IsPlaceholder ps w) {c : Char} (hc : w.head? = some c)
    (hplain : c ≠ '«') : (ps.flatMap Piece.raw).head? = some c := by
  obtain ⟨rest, rfl⟩ := List.head?_eq_some_iff.mp hc
  have hfront : '«' ∉ [c] := fun hmem => hplain (List.mem_singleton.mp hmem).symm
  have hcons : Piece.Rewritten IsPlaceholder ps ([c] ++ rest) := h
  obtain ⟨qs, hraw, -⟩ := plain_front hcons hfront
  rw [hraw]
  rfl

/-- An angle tag that is there once markup has been replaced was there before. -/
theorem angle_rewritten (h : Piece.Rewritten IsPlaceholder ps w) (hmarkup : OfMarkup ps)
    (before : Option Char) (hnone : controlCode? before ('<' :: ps.flatMap Piece.raw) = none) :
    controlCode? before ('<' :: w) = none := by
  cases h with
  | nil => exact hnone
  | @gap c qs w' hrest =>
    rw [List.flatMap_cons, Piece.raw, List.singleton_append,
      controlCode?_angle_eq_none_iff] at hnone
    rw [controlCode?_angle_eq_none_iff]
    refine hnone.imp_right fun hraw hmem => hraw ?_
    exact mem_raw_of_gap_mem (mem_of_mem_rewritten hrest (by decide) hmem)
  | @token value own new qs w' hnew hrest =>
    obtain ⟨n, rfl⟩ := hnew
    obtain ⟨e, es, rfl, hopening⟩ := (hmarkup own List.mem_cons_self).exists_opening
    have he : e ≠ '>' := by
      rintro rfl
      exact absurd hopening (by decide)
    rw [List.flatMap_cons, Piece.raw, List.cons_append, controlCode?_angle_eq_none_iff] at hnone
    have hraw := hnone.resolve_left he
    rw [placeholder_eq, List.cons_append, controlCode?_angle_eq_none_iff]
    refine .inr fun hmem => ?_
    rcases List.mem_append.mp hmem with hmem | hmem
    · exact absurd (mem_placeholder (n := n) (List.mem_cons_of_mem _ hmem)) (by decide)
    · refine hraw (List.mem_append_right _ ?_)
      exact mem_raw_of_gap_mem (mem_of_mem_rewritten hrest (by decide) hmem)

/-- **No control code arises**: where a character outside the markup begins none, it begins none
once the markup behind it has been replaced. -/
theorem controlCode?_rewritten (h : Piece.Rewritten IsPlaceholder ps w) (hmarkup : OfMarkup ps)
    {before : Option Char} {c : Char}
    (hnone : controlCode? before (c :: ps.flatMap Piece.raw) = none) :
    controlCode? before (c :: w) = none := by
  by_cases hc : c ∈ "\\<%".toList
  · have hcases : c = '\\' ∨ c = '<' ∨ c = '%' := by simpa using hc
    rcases hcases with rfl | rfl | rfl
    · obtain ⟨hcommand, hsymbol⟩ := controlCode?_backslash_eq_none_iff.mp hnone
      refine controlCode?_backslash_eq_none_iff.mpr ⟨command?_rewritten h hcommand, ?_⟩
      intro d hd
      by_cases hplain : d = '«'
      · rw [hplain]
        decide
      · exact hsymbol d (head?_rewritten h hd hplain)
    · exact angle_rewritten h hmarkup before hnone
    · have hdigit := controlCode?_percent_eq_none_iff.mp hnone
      refine controlCode?_percent_eq_none_iff.mpr fun d hd => ?_
      by_cases hplain : d = '«'
      · rw [hplain]
        decide
      · exact hdigit d (head?_rewritten h hd hplain)
  · exact controlCode?_of_not_mem hc before w

end Rewritten

/-! ## Tags around markup -/

/-- Outside the markup a closing character comes before the next opening one. -/
def closes (close opening : Char) : List (Piece Unit) → Bool
  | [] => false
  | .token _ _ :: ps => closes close opening ps
  | .gap c :: ps => c == close || (c != opening && closes close opening ps)

/-- A tag or interpolation begins here if markup inside it does not count. -/
def opensTag : List (Piece Unit) → Bool
  | .gap '[' :: ps => closes ']' '[' ps
  | .gap '\x7b' :: .gap '/' :: .gap c :: ps => isBraceTagStart c && closes '\x7d' '\x7b' ps
  | .gap '\x7b' :: .gap c :: ps => isBraceTagStart c && closes '\x7d' '\x7b' ps
  | _ => false

/-- Somewhere outside the markup of a text a tag or interpolation begins if the markup inside it
does not count. It is no markup itself, so it holds markup with brackets of its own. -/
def enclosesMarkup : List (Piece Unit) → Bool
  | [] => false
  | p :: ps => opensTag (p :: ps) || enclosesMarkup ps

theorem upTo?_isSome_append {close : Char} {forbidden : Char → Bool} {front : Text}
    (hfront : ∀ c ∈ front, c ≠ close ∧ forbidden c = false) (rest : Text) :
    (upTo? close forbidden (front ++ rest)).isSome = (upTo? close forbidden rest).isSome := by
  induction front with
  | nil => rfl
  | cons c cs ih =>
    obtain ⟨⟨hclose, hforbidden⟩, hcs⟩ := List.forall_mem_cons.mp hfront
    rw [List.cons_append, upTo?, if_neg hclose, if_neg (Bool.eq_false_iff.mp hforbidden),
      Option.isSome_map, ih hcs]

section Rewritten

variable {ps : List (Piece Unit)} {w : Text}

theorem upTo?_rewritten {close opening : Char} (hclose : ¬ OfPlaceholder close)
    (hopening : ¬ OfPlaceholder opening) (h : Piece.Rewritten IsPlaceholder ps w) :
    (upTo? close (· == opening) w).isSome = closes close opening ps := by
  induction h with
  | nil => rfl
  | @gap c ps w _ ih =>
    rw [upTo?, closes]
    by_cases hc : c = close
    · simp [hc]
    · cases ho : c == opening <;> simp [hc, ho, ih, bne]
  | @token value own new ps w hnew _ ih =>
    obtain ⟨n, rfl⟩ := hnew
    rw [upTo?_isSome_append, ih, closes]
    intro c hc
    have hkind := mem_placeholder hc
    refine ⟨fun heq => hclose (heq ▸ hkind), ?_⟩
    exact beq_eq_false_iff_ne.mpr fun heq => hopening (heq ▸ hkind)

theorem bracketTag?_rewritten (before : Option Char) (h : Piece.Rewritten IsPlaceholder ps w) :
    (bracketTag? before ('[' :: w)).isSome = closes ']' '[' ps := by
  rw [← upTo?_rewritten (by decide) (by decide) h]
  simp [bracketTag?]

/-- Behind an opening brace, and a slash perhaps, it is the next character that decides. -/
theorem braceTag?_start_rewritten {front : Text} (hfront : front = [] ∨ front = ['/']) {c : Char}
    (hslash : c ≠ '/') (before : Option Char) (h : Piece.Rewritten IsPlaceholder ps w) :
    (braceTag? before ('\x7b' :: (front ++ c :: w))).isSome =
      (isBraceTagStart c && closes '\x7d' '\x7b' ps) := by
  rw [← upTo?_rewritten (by decide) (by decide) h]
  rcases hfront with rfl | rfl <;> cases hstart : isBraceTagStart c <;>
    simp [braceTag?, hslash, hstart]

theorem braceTag?_rewritten (before : Option Char) (h : Piece.Rewritten IsPlaceholder ps w) :
    (braceTag? before ('\x7b' :: w)).isSome = opensTag (.gap '\x7b' :: ps) := by
  cases h with
  | nil => rfl
  | @token value own new qs w' hnew hrest =>
    obtain ⟨n, rfl⟩ := hnew
    rfl
  | @gap c qs w' hrest =>
    by_cases hslash : c = '/'
    · subst hslash
      cases hrest with
      | nil => rfl
      | @token value own new qs w' hnew hrest =>
        obtain ⟨n, rfl⟩ := hnew
        rfl
      | @gap d qs w' hrest =>
        by_cases hd : d = '/'
        · subst hd
          rfl
        · exact braceTag?_start_rewritten (.inr rfl) hd before hrest
    · rw [← List.nil_append (c :: w'), braceTag?_start_rewritten (.inl rfl) hslash before hrest]
      simp [opensTag, hslash]

/-- **What begins outside the markup**, once the markup behind it has been replaced. -/
theorem markup?_rewritten (h : Piece.Rewritten IsPlaceholder ps w) (hmarkup : OfMarkup ps)
    {before : Option Char} {c : Char} (hnone : markup? before (c :: ps.flatMap Piece.raw) = none) :
    (markup? before (c :: w)).isSome = opensTag (.gap c :: ps) := by
  have hcontrol := controlCode?_rewritten h hmarkup (markup?_eq_none_iff.mp hnone).1
  by_cases hbrace : c = '\x7b'
  · subst hbrace
    have hbracket : bracketTag? before ('\x7b' :: w) = none := by simp [bracketTag?]
    rw [← braceTag?_rewritten before h, markup?, hcontrol, hbracket]
    simp
  · by_cases hbracket : c = '['
    · subst hbracket
      rw [opensTag, ← bracketTag?_rewritten before h, markup?, hcontrol, braceTag?_of_ne hbrace]
      simp
    · have hopens : opensTag (.gap c :: ps) = false := by simp [opensTag, hbrace, hbracket]
      have hnone' : bracketTag? before (c :: w) = none := by simp [bracketTag?, hbracket]
      rw [hopens, markup?, hcontrol, braceTag?_of_ne hbrace, hnone']
      rfl

end Rewritten

/-! ## The whole text -/

theorem controlCode?_of_not_opening {c : Char} (hc : ¬ IsOpening c) (before : Option Char)
    (cs : Text) : controlCode? before (c :: cs) = none := by
  refine controlCode?_of_not_mem (fun hmem => hc ?_) before cs
  have hall : "\\<%".toList.all (fun c => decide (IsOpening c)) = true := by decide
  exact of_decide_eq_true (List.all_eq_true.mp hall c hmem)

theorem markup?_of_not_opening {c : Char} (hc : ¬ IsOpening c) (before : Option Char) (cs : Text) :
    markup? before (c :: cs) = none := by
  have hbrace : c ≠ '\x7b' := fun heq => hc (heq ▸ (by decide))
  have hbracket : c ≠ '[' := fun heq => hc (heq ▸ (by decide))
  refine markup?_eq_none_iff.mpr ⟨controlCode?_of_not_opening hc before cs,
    braceTag?_of_ne hbrace before cs, ?_⟩
  simp [bracketTag?, hbracket]

theorem not_opening_of_mem_placeholder {n : Nat} {c : Char} (h : c ∈ placeholder n) :
    ¬ IsOpening c := fun hopening => hopening.not_ofPlaceholder (mem_placeholder h)

theorem ofMarkup_piecesFrom (before : Option Char) (s : Text) :
    OfMarkup (piecesFrom markup? before s) := fun _ => isMarkup_of_token_mem

/-- What a search finds in a text whose markup has given way to placeholders. -/
theorem finds_rewritten {before : Option Char} {s w : Text}
    (h : Piece.Rewritten IsPlaceholder (piecesFrom markup? before s) w) :
    Text.finds controlCode? w = false ∧
      Text.finds markup? w = enclosesMarkup (piecesFrom markup? before s) := by
  induction before, s using scan_induction markup?_cuts generalizing w with
  | nil before =>
    rw [piecesFrom_nil] at h ⊢
    cases h
    exact ⟨rfl, rfl⟩
  | token before value raw rest _ _ hpieces ih =>
    rw [hpieces] at h ⊢
    cases h with
    | @token _ _ new _ w' hnew hrest =>
      obtain ⟨n, rfl⟩ := hnew
      have hpassed : ∀ c ∈ placeholder n, ¬ IsOpening c := fun c => not_opening_of_mem_placeholder
      rw [Text.finds_append controlCode?_blind
          fun c hc => controlCode?_of_not_opening (hpassed c hc) none,
        Text.finds_append markup?_blind fun c hc => markup?_of_not_opening (hpassed c hc) none]
      exact ih hrest
  | gap before c cs hnone hpieces ih =>
    rw [hpieces] at h ⊢
    cases h with
    | @gap _ _ w' hrest =>
      obtain ⟨hcontrols, hfinds⟩ := ih hrest
      have hmarkup := ofMarkup_piecesFrom (some c) cs
      rw [markup?_blind before none,
        ← flatMap_raw_piecesFrom markup?_cuts (some c) cs] at hnone
      have hcontrol := controlCode?_rewritten hrest hmarkup (markup?_eq_none_iff.mp hnone).1
      rw [Text.finds_cons controlCode?_blind, hcontrol, hcontrols, Text.finds_cons markup?_blind,
        markup?_rewritten hrest hmarkup hnone, hfinds]
      exact ⟨rfl, rfl⟩

/-- **What protection leaves**: a protected text holds no control code, and it holds markup exactly
if a bracket or brace of the text encloses markup that was replaced, so that it begins a tag now. -/
theorem protected_finds_iff (s : Text) :
    Text.finds controlCode? (protect s).1 = false ∧
      (Text.finds markup? (protect s).1 = true ↔ enclosesMarkup (pieces markup? s) = true) := by
  obtain ⟨hcontrol, hmarkup⟩ := finds_rewritten (rewritten_protectPieces 0 (pieces markup? s))
  refine ⟨hcontrol, ?_⟩
  rw [protect, hmarkup]
  rfl

/-- An interpolation inside a tag: the tag is left once the interpolation has been replaced. -/
theorem nested_tag_left :
    let s : Text := "[emb exp=\"f.party[0]\"]さん".toList
    (protect s).1 = "[emb exp=\"f.party«CODE1»\"]さん".toList ∧
      Text.find? markup? (protect s).1 =
        some ([], (), "さん".toList) := by
  decide +kernel

end Markup

end GameText
