import GameText.Markup.Placeholder
import GameText.Proofs.Text.Beginning
import GameText.Proofs.Text.Decimal
import GameText.Proofs.Text.Pieces

/-!
# What markup and placeholders look like

The characters of each kind of markup (`IsMarkup`), and what follows for all kinds at once: markup
begins with one of five characters and ends in a bracket, a code symbol, or digits behind a percent
sign. A placeholder begins with a `«` that it has nowhere else and ends at its first `»`, so no
placeholder begins inside another or is the beginning of another (`eq_of_placeholder_begins`).
-/

namespace GameText

namespace Markup

/-! ## Up to a closing character -/

theorem upTo?_eq_some_iff {close : Char} {forbidden : Char → Bool} {s inside rest : Text} :
    upTo? close forbidden s = some (inside, rest) ↔
      s = inside ++ close :: rest ∧ ∀ c ∈ inside, c ≠ close ∧ forbidden c = false := by
  constructor
  · intro h
    fun_induction upTo? close forbidden s generalizing inside with
    | case1 => cases h
    | case2 cs =>
      cases h
      exact ⟨rfl, nofun⟩
    | case3 => cases h
    | case4 c cs hclose hforbidden ih =>
      obtain ⟨⟨inside', rest'⟩, hfound, heq⟩ := Option.map_eq_some_iff.mp h
      cases heq
      obtain ⟨rfl, hinside⟩ := ih hfound
      refine ⟨rfl, List.forall_mem_cons.mpr ⟨⟨hclose, ?_⟩, hinside⟩⟩
      exact Bool.eq_false_iff.mpr hforbidden
  · rintro ⟨rfl, hinside⟩
    induction inside with
    | nil => rw [List.nil_append, upTo?, if_pos rfl]
    | cons c cs ih =>
      obtain ⟨⟨hclose, hforbidden⟩, hcs⟩ := List.forall_mem_cons.mp hinside
      rw [List.cons_append, upTo?, if_neg hclose, if_neg (Bool.eq_false_iff.mp hforbidden), ih hcs]
      rfl

/-- Where nothing is forbidden, a closing character anywhere will do. -/
theorem upTo?_isSome_iff_mem {close : Char} {s : Text} :
    (upTo? close (fun _ => false) s).isSome ↔ close ∈ s := by
  rw [Option.isSome_iff_exists]
  constructor
  · rintro ⟨⟨inside, rest⟩, h⟩
    rw [(upTo?_eq_some_iff.mp h).1]
    exact List.mem_append_right _ List.mem_cons_self
  · intro hmem
    obtain ⟨inside, rest, rfl, hinside⟩ := List.eq_append_cons_of_mem hmem
    refine ⟨(inside, rest), upTo?_eq_some_iff.mpr ⟨rfl, fun c hc => ⟨?_, rfl⟩⟩⟩
    rintro rfl
    exact hinside hc

/-! ## Kinds of markup -/

/-- The characters of a command behind its backslash, up to the bracket of its argument. -/
def IsCommandName (letters : Text) : Prop := letters ≠ [] ∧ ∀ c ∈ letters, c.isAlpha = true

theorem command?_eq_some_iff {s rest : Text} :
    command? s = some rest ↔ ∃ letters, IsCommandName letters ∧
      ((∃ digits : Text, (∀ d ∈ digits, isDigitChar d = true) ∧
          s = letters ++ '[' :: (digits ++ ']' :: rest)) ∨
        ∃ inside : Text, '>' ∉ inside ∧ s = letters ++ '<' :: (inside ++ '>' :: rest)) := by
  constructor
  · intro h
    have hsplit := List.takeWhile_append_dropWhile (p := Char.isAlpha) (l := s)
    have hall : ∀ c ∈ s.takeWhile Char.isAlpha, c.isAlpha = true :=
      List.all_eq_true.mp List.all_takeWhile
    rw [command?] at h
    split at h
    next => cases h
    next hletters =>
      refine ⟨s.takeWhile Char.isAlpha, ⟨by simpa using hletters, hall⟩, ?_⟩
      split at h
      next cs hdrop =>
        split at h
        next rest' hdigits =>
          cases h
          refine Or.inl ⟨cs.takeWhile isDigitChar, List.all_eq_true.mp List.all_takeWhile, ?_⟩
          rw [← hdigits, List.takeWhile_append_dropWhile, ← hdrop, hsplit]
        next => cases h
      next cs hdrop =>
        obtain ⟨⟨inside, rest'⟩, hfound, rfl⟩ := Option.map_eq_some_iff.mp h
        obtain ⟨rfl, hinside⟩ := upTo?_eq_some_iff.mp hfound
        refine Or.inr ⟨inside, fun hmem => (hinside _ hmem).1 rfl, ?_⟩
        rw [← hdrop, hsplit]
      next => cases h
  · rintro ⟨letters, ⟨hne, hletters⟩, ⟨digits, hdigits, rfl⟩ | ⟨inside, hinside, rfl⟩⟩
    · have hstops : Text.Stops Char.isAlpha ('[' :: (digits ++ ']' :: rest)) :=
        Text.stops_cons.mpr (by decide)
      have hclose : Text.Stops isDigitChar (']' :: rest) := Text.stops_cons.mpr (by decide)
      rw [command?, Text.takeWhile_append_of_stops hletters hstops,
        Text.dropWhile_append_of_stops hletters hstops]
      simp only [List.isEmpty_iff, hne, if_false, Text.dropWhile_append_of_stops hdigits hclose]
    · have hstops : Text.Stops Char.isAlpha ('<' :: (inside ++ '>' :: rest)) :=
        Text.stops_cons.mpr (by decide)
      have hfound : upTo? '>' (fun _ => false) (inside ++ '>' :: rest) = some (inside, rest) :=
        upTo?_eq_some_iff.mpr ⟨rfl, fun c hc => ⟨fun h => hinside (h ▸ hc), rfl⟩⟩
      rw [command?, Text.takeWhile_append_of_stops hletters hstops,
        Text.dropWhile_append_of_stops hletters hstops]
      simp only [List.isEmpty_iff, hne, if_false, hfound, Option.map_some]

/-- What markup can be. -/
inductive IsMarkup : Text → Prop where
  | numbered {letters digits : Text} (name : IsCommandName letters)
      (number : ∀ d ∈ digits, isDigitChar d = true) :
      IsMarkup ('\\' :: (letters ++ '[' :: (digits ++ [']'])))
  | named {letters : Text} (name : IsCommandName letters) (inside : Text) :
      IsMarkup ('\\' :: (letters ++ '<' :: (inside ++ ['>'])))
  | symbol {c : Char} (symbol : isCodeSymbol c = true) : IsMarkup ['\\', c]
  | angled (inside : Text) : IsMarkup ('<' :: (inside ++ ['>']))
  | percent {digits : Text} (number : ∀ d ∈ digits, isDigitChar d = true) :
      IsMarkup ('%' :: digits)
  | braced (inside : Text) : IsMarkup ('\x7b' :: (inside ++ ['\x7d']))
  | bracketed (inside : Text) : IsMarkup ('[' :: (inside ++ [']']))

theorem isMarkup_of_controlCode? {before : Option Char} {s rest : Text}
    (h : controlCode? before s = some ((), rest)) : ∃ raw, IsMarkup raw ∧ s = raw ++ rest := by
  unfold controlCode? at h
  split at h
  next cs =>
    split at h
    next rest' hcommand =>
      cases h
      obtain ⟨letters, hname, ⟨digits, hdigits, rfl⟩ | ⟨inside, -, rfl⟩⟩ :=
        command?_eq_some_iff.mp hcommand
      · exact ⟨_, .numbered hname hdigits, by simp⟩
      · exact ⟨_, .named hname inside, by simp⟩
    next =>
      split at h
      next c cs _ =>
        obtain ⟨hsymbol, heq⟩ := Option.ite_none_right_eq_some.mp h
        cases heq
        exact ⟨_, .symbol hsymbol, rfl⟩
      next => cases h
  next c cs =>
    split at h
    next => cases h
    next =>
      obtain ⟨⟨inside, rest'⟩, hfound, heq⟩ := Option.map_eq_some_iff.mp h
      cases heq
      have hsplit := (upTo?_eq_some_iff.mp hfound).1
      exact ⟨_, .angled (c :: inside), by simp [hsplit]⟩
  next cs =>
    obtain ⟨-, heq⟩ := Option.ite_none_left_eq_some.mp h
    cases heq
    refine ⟨_, .percent (List.all_eq_true.mp (List.all_takeWhile (l := cs))), ?_⟩
    rw [List.cons_append, List.takeWhile_append_dropWhile]
  next => cases h

theorem controlCode?_blind : Recognizer.Blind controlCode? := fun before before' s => by
  fun_cases controlCode? before s <;> simp_all [controlCode?]

theorem braceTag?_of_ne {c : Char} (hc : c ≠ '\x7b') (before : Option Char) (cs : Text) :
    braceTag? before (c :: cs) = none := by
  simp [braceTag?, hc]

theorem braceTag?_blind : Recognizer.Blind braceTag? := fun before before' s => by
  cases s with
  | nil => rfl
  | cons c cs =>
    by_cases hc : c = '\x7b'
    · subst hc
      rfl
    · rw [braceTag?_of_ne hc, braceTag?_of_ne hc]

/-- A tag in braces: a slash perhaps, a character that a tag begins with, and no brace up to the
closing one. -/
theorem braceTag?_eq_some_iff {before : Option Char} {cs rest : Text} :
    braceTag? before ('\x7b' :: cs) = some ((), rest) ↔
      ∃ slash c tail inside, (slash = [] ∨ slash = ['/']) ∧ isBraceTagStart c = true ∧
        cs = slash ++ c :: tail ∧ upTo? '\x7d' (· == '\x7b') tail = some (inside, rest) := by
  constructor
  · intro h
    simp only [braceTag?] at h
    split at h
    next c tail hnamed =>
      obtain ⟨hstart, h⟩ := Option.ite_none_right_eq_some.mp h
      obtain ⟨⟨inside, rest'⟩, hfound, heq⟩ := Option.map_eq_some_iff.mp h
      cases heq
      split at hnamed
      next ds => exact ⟨['/'], c, tail, inside, Or.inr rfl, hstart, by rw [hnamed]; rfl, hfound⟩
      next => exact ⟨[], c, tail, inside, Or.inl rfl, hstart, hnamed, hfound⟩
    next => cases h
  · rintro ⟨slash, c, tail, inside, rfl | rfl, hstart, rfl, hfound⟩
    · have hslash : c ≠ '/' := by
        rintro rfl
        cases hstart
      simp [braceTag?, hslash, hstart, hfound]
    · simp [braceTag?, hstart, hfound]

theorem isMarkup_of_braceTag? {before : Option Char} {s rest : Text}
    (h : braceTag? before s = some ((), rest)) : ∃ raw, IsMarkup raw ∧ s = raw ++ rest := by
  cases s with
  | nil => cases h
  | cons d cs =>
    by_cases hd : d = '\x7b'
    · subst hd
      obtain ⟨slash, c, tail, inside, -, -, rfl, hfound⟩ := braceTag?_eq_some_iff.mp h
      have hsplit := (upTo?_eq_some_iff.mp hfound).1
      exact ⟨_, .braced (slash ++ c :: inside), by simp [hsplit]⟩
    · rw [braceTag?_of_ne hd] at h
      cases h

theorem bracketTag?_eq_some_iff {before : Option Char} {s rest : Text} :
    bracketTag? before s = some ((), rest) ↔
      ∃ cs inside, s = '[' :: cs ∧ upTo? ']' (· == '[') cs = some (inside, rest) := by
  unfold bracketTag?
  split
  next cs =>
    simp only [Option.map_eq_some_iff, Prod.exists, Prod.mk.injEq, true_and, List.cons.injEq]
    constructor
    · rintro ⟨inside, rest', hfound, rfl⟩
      exact ⟨cs, inside, rfl, hfound⟩
    · rintro ⟨_, inside, rfl, hfound⟩
      exact ⟨inside, rest, hfound, rfl⟩
  next hbracket =>
    constructor
    · intro h
      cases h
    · rintro ⟨cs, inside, rfl, -⟩
      exact absurd rfl (hbracket cs)

theorem isMarkup_of_bracketTag? {before : Option Char} {s rest : Text}
    (h : bracketTag? before s = some ((), rest)) : ∃ raw, IsMarkup raw ∧ s = raw ++ rest := by
  obtain ⟨cs, inside, rfl, hfound⟩ := bracketTag?_eq_some_iff.mp h
  have hsplit := (upTo?_eq_some_iff.mp hfound).1
  exact ⟨_, .bracketed inside, by simp [hsplit]⟩

theorem bracketTag?_blind : Recognizer.Blind bracketTag? := fun before before' s => by
  fun_cases bracketTag? before s <;> simp_all [bracketTag?]

theorem isMarkup_of_markup? {before : Option Char} {s rest : Text}
    (h : markup? before s = some ((), rest)) : ∃ raw, IsMarkup raw ∧ s = raw ++ rest := by
  simp only [markup?, Option.orElse_eq_orElse, Option.orElse_eq_or, Option.or_eq_some_iff] at h
  rcases h with hcontrol | ⟨-, hbrace | ⟨-, hbracket⟩⟩
  · exact isMarkup_of_controlCode? hcontrol
  · exact isMarkup_of_braceTag? hbrace
  · exact isMarkup_of_bracketTag? hbracket

theorem markup?_eq_none_iff {before : Option Char} {s : Text} : markup? before s = none ↔
    controlCode? before s = none ∧ braceTag? before s = none ∧ bracketTag? before s = none := by
  simp only [markup?, Option.orElse_eq_orElse, Option.orElse_eq_or, Option.or_eq_none_iff]

theorem IsMarkup.ne_nil {raw : Text} (h : IsMarkup raw) : raw ≠ [] := by
  cases h <;> exact List.cons_ne_nil _ _

theorem markup?_cuts : Recognizer.Cuts markup? := fun _ _ _ _ h =>
  have ⟨raw, hraw, hsplit⟩ := isMarkup_of_markup? h
  ⟨raw, hraw.ne_nil, hsplit⟩

theorem markup?_blind : Recognizer.Blind markup? := fun before before' s => by
  rw [markup?, markup?, controlCode?_blind before before', braceTag?_blind before before',
    bracketTag?_blind before before']

/-- The tokens of a text are markup. -/
theorem isMarkup_of_token_mem {before : Option Char} {s raw : Text}
    (h : .token () raw ∈ piecesFrom markup? before s) : IsMarkup raw := by
  obtain ⟨-, before', rest, hrec⟩ := recognized_of_token_mem markup?_cuts h
  obtain ⟨raw', hraw, hsplit⟩ := isMarkup_of_markup? hrec
  rwa [List.append_cancel_right hsplit]

/-! ## The ends of markup -/

/-- A character that markup begins with. -/
def IsOpening (c : Char) : Prop := c ∈ "\\<%\x7b[".toList

instance (c : Char) : Decidable (IsOpening c) := inferInstanceAs (Decidable (c ∈ _))

/-- A character between the ends of a placeholder. -/
def IsCounting (c : Char) : Prop := c ∈ "CODE".toList ∨ c.isDigit = true

instance (c : Char) : Decidable (IsCounting c) := inferInstanceAs (Decidable (_ ∨ _))

theorem IsMarkup.exists_opening {raw : Text} (h : IsMarkup raw) :
    ∃ c cs, raw = c :: cs ∧ IsOpening c := by
  cases h <;> exact ⟨_, _, rfl, by decide⟩

/-- What codes end in, digits apart, is none of the characters of a placeholder but the last. -/
theorem not_counting_of_closing {c : Char} (h : c = ']' ∨ isCodeSymbol c = true) :
    c ≠ '«' ∧ ¬ IsCounting c := by
  have hall : (']' :: "\x7b\x7d$.|!><^".toList).all
      (fun c => decide (c ≠ '«' ∧ ¬ IsCounting c)) = true := by
    decide
  refine of_decide_eq_true (List.all_eq_true.mp hall c ?_)
  rcases h with rfl | h
  · exact List.mem_cons_self
  · exact List.mem_cons_of_mem _ (List.contains_iff_mem.mp h)

/-- A code that has a `«` does not end in a character of a placeholder but its last. -/
theorem IsMarkup.end_not_counting {raw : Text} (h : IsMarkup raw) (hmem : '«' ∈ raw) {c : Char}
    (hc : raw.getLast? = some c) : c ≠ '«' ∧ ¬ IsCounting c := by
  have hconcat : ∀ (d e : Char) (body : Text), (d :: (body ++ [e])).getLast? = some c → c = e :=
    fun d e body hlast => by
      rw [← List.cons_append, List.getLast?_concat] at hlast
      exact (Option.some.inj hlast).symm
  cases h with
  | @numbered letters digits name number =>
    have hraw : '\\' :: (letters ++ '[' :: (digits ++ [']'])) =
        '\\' :: ((letters ++ '[' :: digits) ++ [']']) := by simp
    rw [hraw] at hc
    rw [hconcat _ _ _ hc]
    exact not_counting_of_closing (.inl rfl)
  | @named letters name inside =>
    have hraw : '\\' :: (letters ++ '<' :: (inside ++ ['>'])) =
        '\\' :: ((letters ++ '<' :: inside) ++ ['>']) := by simp
    rw [hraw] at hc
    rw [hconcat _ _ _ hc]
    exact not_counting_of_closing (.inr rfl)
  | @symbol d symbol =>
    obtain rfl : d = c := Option.some.inj hc
    exact not_counting_of_closing (.inr symbol)
  | angled =>
    rw [hconcat _ _ _ hc]
    exact not_counting_of_closing (.inr rfl)
  | @percent digits number =>
    rcases List.mem_cons.mp hmem with heq | hmem
    · exact absurd heq (by decide)
    · exact absurd (number _ hmem) (by decide)
  | braced =>
    rw [hconcat _ _ _ hc]
    exact not_counting_of_closing (.inr rfl)
  | bracketed =>
    rw [hconcat _ _ _ hc]
    exact not_counting_of_closing (.inl rfl)

/-! ## Placeholders -/

/-- What stands between the ends of a placeholder. -/
def counting (n : Nat) : Text := "CODE".toList ++ Text.ofNat n

theorem placeholder_eq (n : Nat) : placeholder n = '«' :: (counting n ++ ['»']) := rfl

theorem isCounting_of_mem {n : Nat} {c : Char} (h : c ∈ counting n) : IsCounting c :=
  (List.mem_append.mp h).imp id Text.isDigit_of_mem_ofNat

theorem placeholder_ne_nil (n : Nat) : placeholder n ≠ [] := List.cons_ne_nil _ _

/-- A character that placeholders consist of. -/
def OfPlaceholder (c : Char) : Prop := c = '«' ∨ IsCounting c ∨ c = '»'

instance (c : Char) : Decidable (OfPlaceholder c) := inferInstanceAs (Decidable (_ ∨ _))

theorem mem_placeholder {n : Nat} {c : Char} (h : c ∈ placeholder n) : OfPlaceholder c := by
  rw [placeholder_eq, List.mem_cons, List.mem_append, List.mem_singleton] at h
  exact h.imp_right (Or.imp_left isCounting_of_mem)

/-- Markup begins with none of the characters of a placeholder. -/
theorem IsOpening.not_ofPlaceholder {c : Char} (h : IsOpening c) : ¬ OfPlaceholder c := by
  have hall : "\\<%\x7b[".toList.all (fun c => decide (¬ OfPlaceholder c)) = true := by decide
  exact of_decide_eq_true (List.all_eq_true.mp hall c h)

/-- A placeholder that begins like another is the other. -/
theorem eq_of_placeholder_begins {m n : Nat} {rest : Text}
    (h : placeholder m <+: placeholder n ++ rest) : m = n := by
  obtain ⟨rest', hsplit⟩ := h
  have hdigits : ∀ k, ∀ c ∈ Text.ofNat k, c.isDigit = true := fun _ _ => Text.isDigit_of_mem_ofNat
  have hstops : ∀ t, Text.Stops Char.isDigit ('»' :: t) := fun t => Text.stops_cons.mpr (by decide)
  simp only [placeholder_eq, counting, List.cons_append, List.append_assoc, List.cons.injEq,
    true_and, List.append_cancel_left_eq, List.nil_append] at hsplit
  have hcut := congrArg (List.takeWhile Char.isDigit) hsplit
  rw [Text.takeWhile_append_of_stops (hdigits m) (hstops _),
    Text.takeWhile_append_of_stops (hdigits n) (hstops _)] at hcut
  exact Text.ofNat_injective hcut

/-- No placeholder begins behind the beginning of one. -/
theorem not_prefix_behind {m n : Nat} {tail rest : Text} (htail : tail <:+ placeholder m)
    (hproper : tail ≠ placeholder m) (hnil : tail ≠ []) : ¬ placeholder n <+: tail ++ rest := by
  rintro ⟨rest', hrest⟩
  obtain ⟨front, hfront⟩ := htail
  obtain ⟨c, cs, rfl⟩ := List.exists_cons_of_ne_nil hnil
  obtain rfl : '«' = c := (List.cons.inj hrest).1
  cases front with
  | nil => exact hproper hfront
  | cons d ds =>
    have hbehind : ds ++ '«' :: cs = counting m ++ ['»'] := (List.cons.inj hfront).2
    have hmem : '«' ∈ counting m ++ ['»'] := by
      rw [← hbehind]
      exact List.mem_append_right _ List.mem_cons_self
    rw [List.mem_append] at hmem
    rcases hmem with hmem | hmem
    · exact absurd (isCounting_of_mem hmem) (by decide)
    · exact absurd hmem (by decide)

/-- No placeholder begins inside another. -/
theorem not_prefix_inside {m n : Nat} (hne : n ≠ m) {tail rest : Text}
    (htail : tail <:+ placeholder m) (hnil : tail ≠ []) : ¬ placeholder n <+: tail ++ rest := by
  by_cases hwhole : tail = placeholder m
  · intro hbegins
    rw [hwhole] at hbegins
    exact hne (eq_of_placeholder_begins hbegins)
  · exact not_prefix_behind htail hwhole hnil

/-- **No placeholder begins in markup that holds none**, whatever follows the markup. -/
theorem IsMarkup.not_prefix_of_suffix {raw : Text} (h : IsMarkup raw) {n : Nat}
    (hfree : ¬ placeholder n <:+: raw) {tail rest : Text} (htail : tail <:+ raw)
    (hnil : tail ≠ []) : ¬ placeholder n <+: tail ++ rest := by
  intro hbegins
  have hwhole : tail <+: tail ++ rest := List.prefix_append _ _
  by_cases hlength : (placeholder n).length ≤ tail.length
  · have hinside := List.prefix_of_prefix_length_le hbegins hwhole hlength
    exact hfree (hinside.isInfix.trans htail.isInfix)
  · -- the markup would end inside the placeholder
    have hfront : '«' :: counting n <+: tail ++ rest := by
      refine List.IsPrefix.trans ?_ hbegins
      rw [placeholder_eq, ← List.cons_append]
      exact List.prefix_append _ _
    have hshort : tail.length ≤ ('«' :: counting n).length := by
      rw [placeholder_eq, List.length_cons, List.length_append, List.length_singleton] at hlength
      rw [List.length_cons]
      omega
    have hinside := List.prefix_of_prefix_length_le hwhole hfront hshort
    obtain ⟨c, hc⟩ : ∃ c, tail.getLast? = some c :=
      ⟨_, List.getLast?_eq_some_getLast hnil⟩
    have hlast : raw.getLast? = some c := by
      obtain ⟨front, rfl⟩ := htail
      rw [List.getLast?_append, hc]
      rfl
    have hmem : '«' ∈ raw := by
      obtain ⟨d, ds, rfl⟩ := List.exists_cons_of_ne_nil hnil
      obtain ⟨more, hmore⟩ := hinside
      obtain rfl := (List.cons.inj hmore).1
      exact htail.subset List.mem_cons_self
    have hend := h.end_not_counting hmem hlast
    rcases List.mem_cons.mp (hinside.subset (List.mem_of_getLast? hc)) with heq | hcount
    · exact hend.1 heq
    · exact hend.2 (isCounting_of_mem hcount)

/-! ## The protected text -/

/-- A text that is a placeholder. -/
def IsPlaceholder (t : Text) : Prop := ∃ n, t = placeholder n

/-- Protection writes placeholders in the place of the markup and keeps the rest. -/
theorem rewritten_protectPieces (used : Nat) (ps : List (Piece Unit)) :
    Piece.Rewritten IsPlaceholder ps (protectPieces used ps).1 := by
  induction ps generalizing used with
  | nil => exact .nil
  | cons p ps ih =>
    cases p with
    | gap c => exact .gap (ih used)
    | token value own => exact .token ⟨used + 1, rfl⟩ (ih (used + 1))

/-- Placeholders are numbered in order. -/
theorem map_fst_protectPieces (used : Nat) (ps : List (Piece Unit)) :
    (protectPieces used ps).2.map (·.1) =
      (List.range' (used + 1) (Piece.tokenCount ps)).map placeholder := by
  induction ps generalizing used with
  | nil => rfl
  | cons p ps ih =>
    cases p with
    | gap c => exact ih used
    | token value own =>
      have hcount : Piece.tokenCount (.token value own :: ps) = Piece.tokenCount ps + 1 := rfl
      rw [protectPieces, List.map_cons, ih, hcount, List.range'_succ, List.map_cons]

/-- Each placeholder stands for a piece of markup. -/
theorem token_of_mem_protectPieces {used : Nat} {ps : List (Piece Unit)} {m : Text × Text}
    (h : m ∈ (protectPieces used ps).2) : .token () m.2 ∈ ps := by
  induction ps generalizing used with
  | nil => cases h
  | cons p ps ih =>
    cases p with
    | gap c => exact List.mem_cons_of_mem _ (ih h)
    | token value own =>
      rcases List.mem_cons.mp h with rfl | h
      · exact List.mem_cons_self
      · exact List.mem_cons_of_mem _ (ih h)

end Markup

end GameText
