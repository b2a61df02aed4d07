import GameText.Proofs.Json.Entries
import GameText.Proofs.Markup.Tokens
import GameText.Proofs.Text.ReplaceAll

/-!
# Placeholders are put back at once

Restoring replaces one placeholder after another, each time in a text that already holds markup.
Markup begins with a character that no placeholder goes on with, and no placeholder begins in markup
that holds none (`IsMarkup.not_prefix_of_suffix`), so on the way no placeholder is formed that the
reply did not have. After some placeholders the text is the reply with these written as their markup
(`shown`); replacing the next one keeps that form (`replaceAll_shown`).

A reply may hold placeholders that the text did not; they stay. Nothing is said of texts that hold a
placeholder themselves.
-/

namespace GameText

namespace Markup

/-! ## The placeholders of a text -/

/-- Placeholders with different numbers, each with markup that holds none. -/
structure Sound (marks : Placeholders) : Prop where
  keys : ∀ m ∈ marks, IsPlaceholder m.1
  distinct : (marks.map (·.1)).Nodup
  markup : ∀ m ∈ marks, IsMarkup m.2
  free : ∀ m ∈ marks, ∀ n, ¬ placeholder n <:+: m.2

theorem placeholder_injective {m n : Nat} (h : placeholder m = placeholder n) : m = n := by
  have hbegins : placeholder m <+: placeholder n ++ [] := by
    rw [h]
    exact List.prefix_append _ _
  exact eq_of_placeholder_begins hbegins

/-- **The placeholders of a text that holds none are sound.** -/
theorem sound_protect {text : Text} (unmarked : ∀ n, ¬ placeholder n <:+: text) :
    Sound (protect text).2 := by
  have hkeys := map_fst_protectPieces 0 (pieces markup? text)
  refine ⟨fun m hm => ?_, ?_, fun m hm => ?_, fun m hm n hinside => unmarked n ?_⟩
  · have hmem : m.1 ∈ (protect text).2.map (·.1) := List.mem_map_of_mem hm
    rw [protect, hkeys] at hmem
    obtain ⟨n, -, hn⟩ := List.mem_map.mp hmem
    exact ⟨n, hn.symm⟩
  · rw [protect, hkeys]
    exact List.pairwise_map.mpr
      (List.Pairwise.imp (fun hne heq => hne (placeholder_injective heq)) List.nodup_range')
  · exact isMarkup_of_token_mem (token_of_mem_protectPieces hm)
  · obtain ⟨before, after, hsplit⟩ := List.append_of_mem (token_of_mem_protectPieces hm)
    refine hinside.trans ⟨before.flatMap Piece.raw, after.flatMap Piece.raw, ?_⟩
    rw [← flatMap_raw_pieces markup?_cuts text, hsplit, List.flatMap_append, List.flatMap_cons,
      List.append_assoc]
    rfl

section Known

variable {marks : Placeholders}

theorem Sound.key_ne_nil (h : Sound marks) {m : Text × Text} (hm : m ∈ marks) : m.1 ≠ [] := by
  obtain ⟨n, hn⟩ := h.keys m hm
  rw [hn]
  exact placeholder_ne_nil n

/-- A text begins with one placeholder at most. -/
theorem Sound.eq_of_append_eq (h : Sound marks) {m m' : Text × Text} (hm : m ∈ marks)
    (hm' : m' ∈ marks) {rest rest' : Text} (heq : m.1 ++ rest = m'.1 ++ rest') :
    m = m' ∧ rest = rest' := by
  obtain ⟨n, hn⟩ := h.keys m hm
  obtain ⟨n', hn'⟩ := h.keys m' hm'
  have hbegins : placeholder n <+: placeholder n' ++ rest' := by
    rw [← hn, ← hn', ← heq]
    exact List.prefix_append _ _
  have hsame := eq_of_placeholder_begins hbegins
  have hkey : m.1 = m'.1 := by rw [hn, hn', hsame]
  have hvalue := lookup?_of_mem h.distinct hm
  rw [hkey, lookup?_of_mem h.distinct hm'] at hvalue
  rw [hkey] at heq
  exact ⟨Prod.ext hkey (Option.some.inj hvalue).symm, List.append_cancel_left heq⟩

/-- Recognises a placeholder that is known; the answer is its markup. -/
def known? (marks : Placeholders) : Recognizer Text := fun _ s =>
  marks.findSome? fun (mark, raw) => (Text.after? mark s).map fun rest => (raw, rest)

theorem known?_eq_some_iff (h : Sound marks) {before : Option Char} {s raw rest : Text} :
    known? marks before s = some (raw, rest) ↔ ∃ mark, (mark, raw) ∈ marks ∧ s = mark ++ rest := by
  have hfound : ∀ {raw' rest'}, known? marks before s = some (raw', rest') →
      ∃ mark, (mark, raw') ∈ marks ∧ s = mark ++ rest' := by
    intro raw' rest' hknown
    obtain ⟨⟨mark, raw''⟩, hmem, hafter⟩ := List.exists_of_findSome?_eq_some hknown
    obtain ⟨rest'', hafter, heq⟩ := Option.map_eq_some_iff.mp hafter
    cases heq
    exact ⟨mark, hmem, Text.after?_eq_some_iff.mp hafter⟩
  refine ⟨hfound, ?_⟩
  rintro ⟨mark, hmem, hs⟩
  cases hknown : known? marks before s with
  | none =>
    have hnone : (Text.after? mark s).map (fun rest => (raw, rest)) = none :=
      List.findSome?_eq_none_iff.mp hknown (mark, raw) hmem
    rw [Text.after?_eq_some_iff.mpr hs] at hnone
    cases hnone
  | some found =>
    obtain ⟨mark', hmem', hs'⟩ := hfound hknown
    obtain ⟨heq, hrest⟩ := h.eq_of_append_eq hmem hmem' (hs.symm.trans hs')
    rw [(Prod.mk.inj heq).2, hrest]

theorem known?_cuts (h : Sound marks) : Recognizer.Cuts (known? marks) :=
  fun _ _ _ _ hknown => by
    obtain ⟨mark, hmem, hsplit⟩ := (known?_eq_some_iff h).mp hknown
    exact ⟨mark, h.key_ne_nil hmem, hsplit⟩

theorem known?_eq_none (h : Sound marks) {before : Option Char} {s : Text}
    (hnone : known? marks before s = none) {m : Text × Text} (hm : m ∈ marks) : ¬ m.1 <+: s := by
  rintro ⟨rest, hs⟩
  rw [(known?_eq_some_iff h).mpr ⟨m.1, hm, hs.symm⟩] at hnone
  cases hnone

/-- The tokens among the pieces of a text are placeholders with their markup. -/
theorem mem_of_token_mem (h : Sound marks) {before : Option Char} {s raw own : Text}
    (hmem : .token raw own ∈ piecesFrom (known? marks) before s) : (own, raw) ∈ marks := by
  obtain ⟨-, before', rest, hrec⟩ := recognized_of_token_mem (known?_cuts h) hmem
  obtain ⟨mark, hmark, hsplit⟩ := (known?_eq_some_iff h).mp hrec
  rwa [List.append_cancel_right hsplit]

/-! ## One placeholder after another -/

/-- A text that a placeholder cannot go on with. -/
def Breaks (t : Text) : Prop := ∃ c cs, t = c :: cs ∧ ¬ (IsCounting c ∨ c = '»')

theorem breaks_placeholder (n : Nat) : Breaks (placeholder n) :=
  ⟨'«', _, placeholder_eq n, by decide⟩

theorem IsMarkup.breaks {raw : Text} (h : IsMarkup raw) : Breaks raw := by
  obtain ⟨c, cs, rfl, hopening⟩ := h.exists_opening
  exact ⟨c, cs, rfl, fun hinner => hopening.not_ofPlaceholder (.inr hinner)⟩

/-- A placeholder that begins outside the tokens was there before they were written. -/
theorem placeholder_prefix_of_rewritten {α : Type} {ps : List (Piece α)} {w : Text}
    (h : Piece.Rewritten Breaks ps w) {n : Nat} {c : Char} (hbegins : placeholder n <+: c :: w) :
    placeholder n <+: c :: ps.flatMap Piece.raw := by
  obtain ⟨rest, hrest⟩ := hbegins
  rw [placeholder_eq, List.cons_append] at hrest
  obtain ⟨rfl, hw⟩ := List.cons.inj hrest
  have hinner : ∀ c ∈ counting n ++ ['»'], IsCounting c ∨ c = '»' := by
    intro c hc
    rcases List.mem_append.mp hc with hc | hc
    · exact .inl (isCounting_of_mem hc)
    · exact .inr (List.mem_singleton.mp hc)
  rw [← hw] at h
  obtain ⟨qs, rfl, -⟩ := h.split (fun _ hnew => hnew) hinner
  rw [Piece.flatMap_raw_map_gap, placeholder_eq]
  exact ⟨qs.flatMap Piece.raw, rfl⟩

/-- What stands in the place of a placeholder once those in `done` have been replaced. -/
def shown (done : Placeholders) (_ own : Text) : Text := (lookup? own done).getD own

theorem breaks_shown (h : Sound marks) {done : Placeholders} (hdone : ∀ m ∈ done, m ∈ marks)
    {before : Option Char} {s raw own : Text}
    (hmem : .token raw own ∈ piecesFrom (known? marks) before s) : Breaks (shown done raw own) := by
  rw [shown]
  cases hlookup : lookup? own done with
  | some raw' => exact (h.markup _ (hdone _ (mem_of_lookup? hlookup))).breaks
  | none =>
    obtain ⟨n, rfl⟩ := h.keys _ (mem_of_token_mem h hmem)
    exact breaks_placeholder n

/-- A placeholder is none of those before it. -/
theorem Sound.lookup?_before {done later : Placeholders} {mark raw : Text}
    (h : Sound (done ++ (mark, raw) :: later)) : lookup? mark done = none := by
  cases hlookup : lookup? mark done with
  | none => rfl
  | some raw' =>
    have hkeys := h.distinct
    rw [List.map_append, List.map_cons, List.nodup_append] at hkeys
    exact absurd rfl (hkeys.2.2 mark (List.mem_map_of_mem (mem_of_lookup? hlookup)) mark
      List.mem_cons_self)

/-- No other placeholder begins in what stands in the place of a placeholder. -/
theorem not_prefix_shown (h : Sound marks) {done : Placeholders} (hdone : ∀ m ∈ done, m ∈ marks)
    {m : Text × Text} (hm : m ∈ marks) {n : Nat} (hne : m.1 ≠ placeholder n) {tail rest : Text}
    (htail : tail <:+ shown done m.2 m.1) (hnil : tail ≠ []) :
    ¬ placeholder n <+: tail ++ rest := by
  rw [shown] at htail
  cases hlookup : lookup? m.1 done with
  | some raw' =>
    have hmem := hdone _ (mem_of_lookup? hlookup)
    rw [hlookup] at htail
    exact (h.markup _ hmem).not_prefix_of_suffix (h.free _ hmem n) htail hnil
  | none =>
    obtain ⟨k, hk⟩ := h.keys m hm
    rw [hlookup, Option.getD_none, hk] at htail
    refine not_prefix_inside ?_ htail hnil
    rintro rfl
    exact hne hk

/-- Writing one more placeholder as its markup changes what stands in its place alone. -/
theorem shown_concat (done : Placeholders) (mark raw value own : Text)
    (hnew : lookup? mark done = none) : shown (done ++ [(mark, raw)]) value own =
      if mark = own then raw else shown done value own := by
  rw [shown, lookup?_append, lookup?, lookup?]
  split
  next heq =>
    rw [← heq, hnew]
    rfl
  next => rw [Option.or_none, shown]

/-- **One replacement**: with the placeholders in `done` written as their markup, replacing the next
one writes it as its markup and changes nothing else. -/
theorem replaceAll_shown (h : Sound marks) {done later : Placeholders} {mark raw : Text}
    (hmarks : marks = done ++ (mark, raw) :: later) (before : Option Char) (s : Text) :
    Text.replaceAll mark raw
        (Piece.renderWith (shown done) (piecesFrom (known? marks) before s)) =
      Piece.renderWith (shown (done ++ [(mark, raw)])) (piecesFrom (known? marks) before s) := by
  have hmem : (mark, raw) ∈ marks := hmarks ▸ List.mem_append_right _ List.mem_cons_self
  have hdone : ∀ m ∈ done, m ∈ marks := fun m hm => hmarks ▸ List.mem_append_left _ hm
  obtain ⟨n, hn⟩ : IsPlaceholder mark := h.keys _ hmem
  have hmark : mark ≠ [] := h.key_ne_nil hmem
  have hnew : lookup? mark done = none := Sound.lookup?_before (hmarks ▸ h)
  induction before, s using scan_induction (known?_cuts h) with
  | nil before =>
    rw [piecesFrom_nil]
    exact Text.replaceAll_nil hmark raw
  | gap before c cs hnone hpieces ih =>
    -- a placeholder that begins here now would have begun here in the reply
    have hoff : ¬ mark <+: c :: Piece.renderWith (shown done)
        (piecesFrom (known? marks) (some c) cs) := by
      intro hbegins
      have hwritten : Piece.Rewritten Breaks (piecesFrom (known? marks) (some c) cs) _ :=
        .of_renderWith fun _ _ htoken => breaks_shown h hdone htoken
      rw [hn] at hbegins
      have hbegins := placeholder_prefix_of_rewritten hwritten hbegins
      rw [flatMap_raw_piecesFrom (known?_cuts h), ← hn] at hbegins
      exact known?_eq_none h hnone hmem hbegins
    rw [hpieces, Piece.renderWith_gap, Piece.renderWith_gap, Text.replaceAll_other hmark raw hoff,
      ih]
  | token before value own rest hne hrec hpieces ih =>
    have hown : (own, value) ∈ marks := mem_of_token_mem h (hpieces ▸ List.mem_cons_self)
    rw [hpieces, Piece.renderWith_token, Piece.renderWith_token,
      shown_concat done mark raw value own hnew]
    by_cases heq : mark = own
    · subst heq
      have hshown : shown done value mark = mark := by rw [shown, hnew, Option.getD_none]
      rw [if_pos rfl, hshown, Text.replaceAll_old hmark, ih]
    · -- markup, or a placeholder that is still to come
      rw [if_neg heq, Text.replaceAll_append hmark raw, ih]
      intro tail htail hnil
      rw [hn]
      exact not_prefix_shown h hdone hown (fun hsame => heq (hn.trans hsame.symm)) htail hnil

/-- **A run of replacements**: in the end every placeholder stands as its markup. -/
theorem foldl_replaceAll_shown (h : Sound marks) {done later : Placeholders}
    (hmarks : marks = done ++ later) (s : Text) :
    later.foldl (fun s (mark, raw) => Text.replaceAll mark raw s)
        (Piece.renderWith (shown done) (pieces (known? marks) s)) =
      Piece.renderWith (shown marks) (pieces (known? marks) s) := by
  induction later generalizing done with
  | nil => rw [List.foldl_nil, hmarks, List.append_nil]
  | cons m later ih =>
    rw [List.foldl_cons]
    dsimp only
    rw [pieces, replaceAll_shown h hmarks]
    exact ih (by rw [hmarks, List.append_assoc, List.singleton_append])

/-- Restoring writes every known placeholder as its markup. -/
theorem restore_eq_renderWith (h : Sound marks) (s : Text) :
    restore s marks = Piece.renderWith (fun raw _ => raw) (pieces (known? marks) s) := by
  have hstart : Piece.renderWith (shown []) (pieces (known? marks) s) = s :=
    (Piece.renderWith_own _).trans (flatMap_raw_pieces (known?_cuts h) s)
  have hend : Piece.renderWith (shown marks) (pieces (known? marks) s) =
      Piece.renderWith (fun raw _ => raw) (pieces (known? marks) s) := by
    refine Piece.renderWith_congr fun raw own htoken => ?_
    have hlookup := lookup?_of_mem h.distinct (mem_of_token_mem h htoken)
    rw [shown, hlookup, Option.getD_some]
  have hrun := foldl_replaceAll_shown h (List.nil_append marks).symm s
  rw [hstart, hend] at hrun
  exact hrun

/-! ## The occurrences of placeholders -/

/-- The known placeholders that begin at a place, each with its markup. -/
def occurringAt (marks : Placeholders) (offset : Nat) (s : Text) : List Replacement :=
  (marks.filter fun m => Text.startsWith m.1 s).map fun m => ⟨offset, offset + m.1.length, m.2⟩

/-- Every occurrence of a known placeholder in a text that begins at an offset, each with its
markup. -/
def occurrencesFrom (marks : Placeholders) (offset : Nat) : Text → List Replacement
  | [] => []
  | c :: cs => occurringAt marks offset (c :: cs) ++ occurrencesFrom marks (offset + 1) cs

theorem startsWith_iff {mark s : Text} : Text.startsWith mark s = true ↔ mark <+: s := by
  rw [Text.startsWith, Option.isSome_iff_exists]
  exact exists_congr fun rest => Text.after?_eq_some_iff.trans eq_comm

theorem occurringAt_eq_nil {offset : Nat} {s : Text} (h : ∀ m ∈ marks, ¬ m.1 <+: s) :
    occurringAt marks offset s = [] := by
  rw [occurringAt, List.map_eq_nil_iff, List.filter_eq_nil_iff]
  exact fun m hm hstarts => h m hm (startsWith_iff.mp hstarts)

/-- In a stretch in which no placeholder begins there is none. -/
theorem occurrencesFrom_append {front rest : Text}
    (h : ∀ tail, tail <:+ front → tail ≠ [] → ∀ m ∈ marks, ¬ m.1 <+: tail ++ rest) (offset : Nat) :
    occurrencesFrom marks offset (front ++ rest) =
      occurrencesFrom marks (offset + front.length) rest := by
  induction front generalizing offset with
  | nil => rfl
  | cons c cs ih =>
    have hhere := h (c :: cs) List.suffix_rfl (List.cons_ne_nil _ _)
    rw [List.cons_append] at hhere
    rw [List.cons_append, occurrencesFrom, occurringAt_eq_nil hhere, List.nil_append,
      ih fun tail htail => h tail (htail.trans (List.suffix_cons c cs)), List.length_cons,
      Nat.add_assoc, Nat.add_comm 1]

/-- Where a known placeholder stands, no other begins. -/
theorem occurringAt_mark (h : Sound marks) {m : Text × Text} (hm : m ∈ marks) (offset : Nat)
    (rest : Text) :
    occurringAt marks offset (m.1 ++ rest) = [⟨offset, offset + m.1.length, m.2⟩] := by
  have honly : ∀ m' ∈ marks, Text.startsWith m'.1 (m.1 ++ rest) = (m' == m) := by
    intro m' hm'
    rw [Bool.eq_iff_iff, startsWith_iff, beq_iff_eq]
    refine ⟨?_, ?_⟩
    · rintro ⟨rest', hrest⟩
      exact (h.eq_of_append_eq hm' hm hrest).1
    · rintro rfl
      exact List.prefix_append _ _
  have hnodup : marks.Nodup :=
    (List.pairwise_map.mp h.distinct).imp fun hkey heq => hkey (congrArg Prod.fst heq)
  rw [occurringAt, List.filter_congr honly, List.filter_beq, hnodup.count, if_pos hm]
  rfl

/-- Where a known placeholder stands, it is the one occurrence up to its end. -/
theorem occurrencesFrom_mark (h : Sound marks) {m : Text × Text} (hm : m ∈ marks) (offset : Nat)
    (rest : Text) : occurrencesFrom marks offset (m.1 ++ rest) =
      ⟨offset, offset + m.1.length, m.2⟩ ::
        occurrencesFrom marks (offset + m.1.length) rest := by
  obtain ⟨c, cs, hcons⟩ := List.exists_cons_of_ne_nil (h.key_ne_nil hm)
  obtain ⟨n, hn⟩ := h.keys m hm
  have hinside : ∀ tail, tail <:+ cs → tail ≠ [] → ∀ m' ∈ marks, ¬ m'.1 <+: tail ++ rest := by
    intro tail htail hnil m' hm'
    obtain ⟨k, hk⟩ := h.keys m' hm'
    have hlength := htail.length_le
    have hbehind : tail <:+ m.1 := hcons ▸ htail.trans (List.suffix_cons c cs)
    have hproper : tail ≠ m.1 := by
      rintro rfl
      rw [hcons, List.length_cons] at hlength
      omega
    rw [hn] at hbehind hproper
    rw [hk]
    exact not_prefix_behind hbehind hproper hnil
  have hhere := occurringAt_mark h hm offset rest
  rw [hcons, List.cons_append] at hhere ⊢
  rw [occurrencesFrom, hhere, occurrencesFrom_append hinside, List.length_cons, Nat.add_assoc,
    Nat.add_comm 1]
  rfl

/-- The occurrences of placeholders are the tokens of the text. -/
theorem occurrencesFrom_eq (h : Sound marks) (before : Option Char) (s : Text) (offset : Nat) :
    occurrencesFrom marks offset s =
      Piece.replacementsFrom (fun raw _ => raw) offset (piecesFrom (known? marks) before s) := by
  induction before, s using scan_induction (known?_cuts h) generalizing offset with
  | nil before =>
    rw [piecesFrom_nil]
    rfl
  | gap before c cs hnone hpieces ih =>
    rw [hpieces, occurrencesFrom, occurringAt_eq_nil fun m hm => known?_eq_none h hnone hm, ih]
    rfl
  | token before raw own rest hne hrec hpieces ih =>
    have hown : (own, raw) ∈ marks := mem_of_token_mem h (hpieces ▸ List.mem_cons_self)
    rw [hpieces, occurrencesFrom_mark h hown, ih]
    rfl

end Known

/-- Every occurrence of a known placeholder in a text, each with its markup. -/
def occurrences (marks : Placeholders) (s : Text) : List Replacement := occurrencesFrom marks 0 s

/-! ## Main results -/

/-- The known placeholders of a protected text are those that were written. -/
theorem renderWith_protectPieces {marks : Placeholders} (h : Sound marks) {used : Nat}
    {ps : List (Piece Unit)} (hmarks : ∀ m ∈ (protectPieces used ps).2, m ∈ marks)
    (unmarked : ∀ n, ¬ placeholder n <:+: ps.flatMap Piece.raw) (before : Option Char) :
    Piece.renderWith (fun raw _ => raw)
        (piecesFrom (known? marks) before (protectPieces used ps).1) = ps.flatMap Piece.raw := by
  induction ps generalizing used before with
  | nil =>
    rw [protectPieces, piecesFrom_nil]
    rfl
  | cons p ps ih =>
    rw [List.flatMap_cons] at unmarked
    have hrest : ∀ n, ¬ placeholder n <:+: ps.flatMap Piece.raw := fun n hinside =>
      unmarked n (hinside.trans (List.suffix_append _ _).isInfix)
    cases p with
    | gap c =>
      have hwritten : Piece.Rewritten Breaks ps (protectPieces used ps).1 := by
        refine (rewritten_protectPieces used ps).imp ?_
        rintro _ ⟨n, rfl⟩
        exact breaks_placeholder n
      have hnone : known? marks before (c :: (protectPieces used ps).1) = none := by
        cases hknown : known? marks before (c :: (protectPieces used ps).1) with
        | none => rfl
        | some found =>
          obtain ⟨mark, hmark, hsplit⟩ := (known?_eq_some_iff h).mp hknown
          obtain ⟨n, hn⟩ : IsPlaceholder mark := h.keys _ hmark
          have hbegins := placeholder_prefix_of_rewritten hwritten (n := n) (c := c)
            ⟨found.2, by rw [hsplit, hn]⟩
          exact absurd hbegins.isInfix (unmarked n)
      rw [protectPieces, piecesFrom_gap hnone, Piece.renderWith_gap, ih hmarks hrest]
      rfl
    | token value own =>
      obtain ⟨hmark, hmarks⟩ := List.forall_mem_cons.mp hmarks
      have hknown : known? marks before
          (placeholder (used + 1) ++ (protectPieces (used + 1) ps).1) =
            some (own, (protectPieces (used + 1) ps).1) :=
        (known?_eq_some_iff h).mpr ⟨_, hmark, rfl⟩
      rw [protectPieces, piecesFrom_token hknown (placeholder_ne_nil _), Piece.renderWith_token,
        ih hmarks hrest]
      rfl

/-- **Restoring replaces every known placeholder at once.** For a text without placeholders, the
occurrences of its placeholders in a reply, whatever the reply, have no character in common, and
restoring writes in the place of each the markup it stands for and changes nothing else. Restoring
the protected text itself gives the text. -/
theorem restore_at_once {text : Text} (unmarked : ∀ n, ¬ placeholder n <:+: text) :
    (∀ reply, (occurrences (protect text).2 reply).Pairwise (fun a b => a.stop ≤ b.start) ∧
      restore reply (protect text).2 = reply.replaceSpans (occurrences (protect text).2 reply)) ∧
    restore (protect text).1 (protect text).2 = text := by
  have hsound := sound_protect unmarked
  refine ⟨fun reply => ?_, ?_⟩
  · have hcuts := known?_cuts hsound
    have htokens : ∀ raw own, .token raw own ∈ pieces (known? (protect text).2) reply → own ≠ [] :=
      fun _ _ htoken => ne_nil_of_token_mem htoken
    have hoccurrences := occurrencesFrom_eq hsound none reply 0
    rw [occurrences, hoccurrences]
    refine ⟨Text.Stretch.replacements_pairwise (Piece.raw_ne_nil_of_mem_stretch htokens), ?_⟩
    rw [restore_eq_renderWith hsound, ← Piece.replaceSpans_replacementsFrom htokens,
      flatMap_raw_pieces hcuts]
    rfl
  · have htext := flatMap_raw_pieces markup?_cuts text
    have hprotected : Piece.renderWith (fun raw _ => raw)
        (pieces (known? (protect text).2) (protect text).1) =
          (pieces markup? text).flatMap Piece.raw :=
      renderWith_protectPieces hsound (fun _ => id) (htext.symm ▸ unmarked) none
    rw [restore_eq_renderWith hsound, hprotected, htext]

/-- Eleven codes, one with the beginning of a placeholder in it. The reply moves, repeats and drops
placeholders, breaks one and has one that is unknown. -/
theorem moved_and_repeated_restored :
    let text : Text := "\\N[1]<«CODE2>\x7bb\x7dé[x]\\.\\!%1\\c[3]\x7b/b\x7d\\\x7b[y]".toList
    let reply : Text := "«CODE11»«CODE1»«CODE2»»«CODE12»«CODE1»«CODE«CODE10»1»".toList
    (∀ n, ¬ placeholder n <:+: text) ∧
      restore reply (protect text).2 =
        "[y]\\N[1]<«CODE2>»«CODE12»\\N[1]«CODE\\\x7b1»".toList ∧
      restore (protect text).1 (protect text).2 = text := by
  intro text reply
  have hclose : '»' ∉ text := by decide
  have hunmarked : ∀ n, ¬ placeholder n <:+: text := by
    intro n hinside
    refine hclose (hinside.subset ?_)
    rw [placeholder_eq, ← List.cons_append]
    exact List.mem_append_right _ List.mem_cons_self
  obtain ⟨hreplies, hback⟩ := restore_at_once hunmarked
  exact ⟨hunmarked, (hreplies reply).2.trans (by decide +kernel), hback⟩

end Markup

end GameText
