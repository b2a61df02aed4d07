import GameText.Proofs.Text.Replacement
import GameText.Text.Scan

/-!
# The pieces of a text

What every law about replacing tokens rests on: pieces put together are the text, a scan reads a
token or a single character and goes on behind it, and writing one token anew leaves the characters
of all other pieces alone. A recogniser owes one thing, `Recognizer.Cuts`: what it recognises are
characters from the front of the text, at least one.

That a text with a token written anew is cut into the same pieces again is a fact about the
recogniser, and false of some. `Recognizer.Firm` is the property of a piece that carries it: firm
pieces are cut again whatever follows them (`Recognizer.Blind.pieces_firm_append`), so a token
behind them can be written by its ordinal on a line that has changed behind it
(`Text.mapNthToken_firm`). Writing every token anew needs no such property: it is replacing their
spans at once (`Piece.replaceSpans_replacementsFrom`). At a character that no token reaches, a text
is scanned as two (`Recognizer.Spares.piecesFrom_append`).
-/

namespace GameText

variable {α : Type}

/-- What is recognised are characters from the front of the text, at least one. -/
def Recognizer.Cuts (recognize : Recognizer α) : Prop :=
  ∀ before s value rest, recognize before s = some (value, rest) →
    ∃ raw, raw ≠ [] ∧ s = raw ++ rest

/-- The character before a place plays no part in what is recognised there. -/
def Recognizer.Blind (recognize : Recognizer α) : Prop :=
  ∀ before before' s, recognize before s = recognize before' s

/-- Nothing is recognised at the end. -/
theorem Recognizer.Cuts.nil {recognize : Recognizer α} (hcuts : recognize.Cuts)
    (before : Option Char) : recognize before [] = none := by
  cases hrec : recognize before [] with
  | none => rfl
  | some found =>
    obtain ⟨raw, hraw, hsplit⟩ := hcuts before [] found.1 found.2 hrec
    exact absurd (List.append_eq_nil_iff.mp hsplit.symm).1 hraw

theorem consumed_append (raw rest : Text) : consumed (raw ++ rest) rest = raw := by
  rw [consumed, List.length_append, Nat.add_sub_cancel, List.take_left']
  rfl

/-! ## One step of a scan -/

theorem piecesFrom_nil (recognize : Recognizer α) (before : Option Char) :
    piecesFrom recognize before [] = [] := by
  rw [piecesFrom]

/-- Where a token begins, the scan takes it and goes on behind it. -/
theorem piecesFrom_token {recognize : Recognizer α} {before : Option Char} {value : α}
    {raw rest : Text} (h : recognize before (raw ++ rest) = some (value, rest)) (hraw : raw ≠ []) :
    piecesFrom recognize before (raw ++ rest) =
      .token value raw :: piecesFrom recognize raw.getLast? rest := by
  obtain ⟨c, cs, rfl⟩ := List.exists_cons_of_ne_nil hraw
  have hconsumed := consumed_append (c :: cs) rest
  rw [List.cons_append] at h hconsumed ⊢
  rw [piecesFrom, h]
  simp only [hconsumed]
  rw [if_pos]
  simp only [List.length_append]
  omega

/-- Where no token begins, the scan goes on behind the character. -/
theorem piecesFrom_gap {recognize : Recognizer α} {before : Option Char} {c : Char} {cs : Text}
    (h : recognize before (c :: cs) = none) :
    piecesFrom recognize before (c :: cs) = .gap c :: piecesFrom recognize (some c) cs := by
  rw [piecesFrom, h]

/-- Induction along a scan: at each place it takes a token or a single character. -/
@[elab_as_elim]
theorem scan_induction {recognize : Recognizer α} (hcuts : recognize.Cuts)
    {motive : Option Char → Text → Prop} (nil : ∀ before, motive before [])
    (token : ∀ before value raw rest, raw ≠ [] →
      recognize before (raw ++ rest) = some (value, rest) →
      piecesFrom recognize before (raw ++ rest) =
        .token value raw :: piecesFrom recognize raw.getLast? rest →
      motive raw.getLast? rest → motive before (raw ++ rest))
    (gap : ∀ before c cs, recognize before (c :: cs) = none →
      piecesFrom recognize before (c :: cs) = .gap c :: piecesFrom recognize (some c) cs →
      motive (some c) cs → motive before (c :: cs))
    (before : Option Char) (s : Text) : motive before s := by
  induction hlen : s.length using Nat.strongRecOn generalizing before s with
  | ind n ih =>
    cases s with
    | nil => exact nil before
    | cons c cs =>
      cases hrec : recognize before (c :: cs) with
      | none =>
        refine gap before c cs hrec (piecesFrom_gap hrec) (ih cs.length ?_ _ cs rfl)
        rw [← hlen, List.length_cons]
        omega
      | some found =>
        obtain ⟨value, rest⟩ := found
        obtain ⟨raw, hraw, hsplit⟩ := hcuts before (c :: cs) value rest hrec
        rw [hsplit] at hrec hlen ⊢
        refine token before value raw rest hraw hrec (piecesFrom_token hrec hraw)
          (ih rest.length ?_ _ rest rfl)
        have hpos := List.length_pos_iff.mpr hraw
        rw [← hlen, List.length_append]
        omega

/-! ## What pieces are -/

/-- The pieces put together are the text. -/
theorem flatMap_raw_piecesFrom {recognize : Recognizer α} (hcuts : recognize.Cuts)
    (before : Option Char) (s : Text) :
    (piecesFrom recognize before s).flatMap Piece.raw = s := by
  induction before, s using scan_induction hcuts with
  | nil before =>
    rw [piecesFrom_nil]
    rfl
  | token before value raw rest _ _ hpieces ih =>
    rw [hpieces, List.flatMap_cons, ih]
    rfl
  | gap before c cs _ hpieces ih =>
    rw [hpieces, List.flatMap_cons, ih]
    rfl

/-- A piece has at least one character. -/
theorem length_piecesFrom_le (recognize : Recognizer α) (before : Option Char) (s : Text) :
    (piecesFrom recognize before s).length ≤ s.length := by
  fun_induction piecesFrom recognize before s with
  | case1 => exact Nat.le_refl _
  | case2 before c cs value rest _ hshorter ih => simp only [List.length_cons]; omega
  | case3 before c cs value rest _ _ ih => simp only [List.length_cons]; omega
  | case4 before c cs _ ih => simp only [List.length_cons]; omega

theorem Text.length_tokens_le (recognize : Recognizer α) (s : Text) :
    (s.tokens recognize).length ≤ s.length :=
  Nat.le_trans (List.length_filterMap_le _ _) (length_piecesFrom_le recognize none s)

theorem flatMap_raw_pieces {recognize : Recognizer α} (hcuts : recognize.Cuts) (s : Text) :
    (pieces recognize s).flatMap Piece.raw = s :=
  flatMap_raw_piecesFrom hcuts none s

/-- For a blind recogniser a scan does not look back. -/
theorem Recognizer.Blind.piecesFrom_eq {recognize : Recognizer α} (hblind : recognize.Blind)
    (before before' : Option Char) (s : Text) :
    piecesFrom recognize before s = piecesFrom recognize before' s := by
  cases s with
  | nil => rw [piecesFrom_nil, piecesFrom_nil]
  | cons c cs => rw [piecesFrom, piecesFrom, hblind before before']

/-- A token stands where the recogniser finds it. -/
theorem recognized_of_token_mem {recognize : Recognizer α} (hcuts : recognize.Cuts)
    {before : Option Char} {s own : Text} {v : α}
    (h : .token v own ∈ piecesFrom recognize before s) :
    own ≠ [] ∧ ∃ before' rest, recognize before' (own ++ rest) = some (v, rest) := by
  induction before, s using scan_induction hcuts with
  | nil before =>
    rw [piecesFrom_nil] at h
    cases h
  | token before value raw rest hraw hrec hpieces ih =>
    rw [hpieces, List.mem_cons] at h
    rcases h with heq | h
    · cases heq
      exact ⟨hraw, before, rest, hrec⟩
    · exact ih h
  | gap before c cs _ hpieces ih =>
    rw [hpieces, List.mem_cons] at h
    rcases h with heq | h
    · cases heq
    · exact ih h

/-- A token has at least one character, whatever the recogniser does. -/
theorem ne_nil_of_token_mem {recognize : Recognizer α} {before : Option Char} {s own : Text} {v : α}
    (h : .token v own ∈ piecesFrom recognize before s) : own ≠ [] := by
  fun_induction piecesFrom recognize before s with
  | case1 => cases h
  | case2 before c cs value rest _ hshorter ih =>
    rcases List.mem_cons.mp h with heq | h
    · cases heq
      refine List.ne_nil_of_length_pos ?_
      simp only [consumed, List.length_take, List.length_cons]
      omega
    · exact ih h
  | case3 before c cs value rest _ _ ih =>
    rcases List.mem_cons.mp h with heq | h
    · cases heq
    · exact ih h
  | case4 before c cs _ ih =>
    rcases List.mem_cons.mp h with heq | h
    · cases heq
    · exact ih h

/-! ## Pieces that stay whatever follows -/

/-- The piece is cut wherever its characters stand, whatever follows them. -/
def Recognizer.Firm (recognize : Recognizer α) : Piece α → Prop
  | .token value raw => raw ≠ [] ∧
      ∀ before rest, recognize before (raw ++ rest) = some (value, rest)
  | .gap c => ∀ before rest, recognize before (c :: rest) = none

/-- Firm pieces are cut again in front of any text. -/
theorem Recognizer.Blind.pieces_firm_append {recognize : Recognizer α} (hblind : recognize.Blind)
    {done : List (Piece α)} (h : ∀ p ∈ done, recognize.Firm p) (before : Option Char)
    (rest : Text) :
    piecesFrom recognize before (done.flatMap Piece.raw ++ rest) =
      done ++ pieces recognize rest := by
  induction done generalizing before with
  | nil => exact hblind.piecesFrom_eq before none rest
  | cons p done ih =>
    have hp := h p List.mem_cons_self
    have hdone : ∀ p ∈ done, recognize.Firm p := fun p hp => h p (List.mem_cons_of_mem _ hp)
    rw [List.flatMap_cons, List.append_assoc]
    cases p with
    | gap c =>
      rw [Piece.raw, List.singleton_append, piecesFrom_gap (hp _ _), ih hdone]
      rfl
    | token value raw =>
      rw [Piece.raw, piecesFrom_token (hp.2 _ _) hp.1, ih hdone]
      rfl

/-! ## Characters that no token reaches -/

/-- No token reaches the character: in front of it the same is recognised whatever follows. -/
def Recognizer.Spares (recognize : Recognizer α) (c : Char) : Prop :=
  ∀ before s rest, recognize before (s ++ c :: rest) =
    (recognize before s).map fun (value, behind) => (value, behind ++ c :: rest)

/-- A scan cuts a text in two at a character that no token reaches. -/
theorem Recognizer.Spares.piecesFrom_append {recognize : Recognizer α} {c : Char}
    (h : recognize.Spares c) (hcuts : recognize.Cuts) (before : Option Char) (s rest : Text) :
    piecesFrom recognize before (s ++ c :: rest) =
      piecesFrom recognize before s ++ .gap c :: piecesFrom recognize (some c) rest := by
  induction before, s using scan_induction hcuts with
  | nil before =>
    have hgap : recognize before (c :: rest) = none := by
      have hspared := h before [] rest
      rwa [hcuts.nil] at hspared
    rw [piecesFrom_nil, List.nil_append, piecesFrom_gap hgap]
    rfl
  | token before value raw tail hraw hrec hpieces ih =>
    have hspared : recognize before (raw ++ (tail ++ c :: rest)) =
        some (value, tail ++ c :: rest) := by
      rw [← List.append_assoc, h, hrec]
      rfl
    rw [List.append_assoc, piecesFrom_token hspared hraw, hpieces, ih]
    rfl
  | gap before d ds hrec hpieces ih =>
    have hspared : recognize before (d :: (ds ++ c :: rest)) = none := by
      rw [← List.cons_append, h, hrec]
      rfl
    rw [List.cons_append, piecesFrom_gap hspared, hpieces, ih]
    rfl

namespace Piece

/-- The number of tokens among pieces. -/
def tokenCount (ps : List (Piece α)) : Nat := (ps.filterMap value?).length

theorem tokenCount_append (ps qs : List (Piece α)) :
    tokenCount (ps ++ qs) = tokenCount ps + tokenCount qs := by
  rw [tokenCount, List.filterMap_append, List.length_append]
  rfl

/-! ## Where tokens stand -/

theorem length_spansFrom (offset : Nat) (ps : List (Piece α)) :
    (spansFrom offset ps).length = tokenCount ps := by
  fun_induction spansFrom offset ps with
  | case1 => rfl
  | case2 offset c ps ih => exact ih
  | case3 offset value own ps ih => rw [List.length_cons, ih]; rfl

theorem spansFrom_add (m offset : Nat) (ps : List (Piece α)) :
    spansFrom (m + offset) ps =
      (spansFrom offset ps).map fun (start, stop, value) => (m + start, m + stop, value) := by
  induction ps generalizing offset with
  | nil => rfl
  | cons p ps ih =>
    cases p with
    | gap c => rw [spansFrom, spansFrom, Nat.add_assoc, ih]
    | token value own => rw [spansFrom, spansFrom, Nat.add_assoc, ih]; rfl

theorem spansFrom_append (offset : Nat) (ps qs : List (Piece α)) :
    spansFrom offset (ps ++ qs) =
      spansFrom offset ps ++ spansFrom (offset + (ps.flatMap raw).length) qs := by
  induction ps generalizing offset with
  | nil => rfl
  | cons p ps ih =>
    cases p with
    | gap c =>
      rw [List.cons_append, spansFrom, spansFrom, ih, Nat.add_assoc, List.flatMap_cons,
        List.length_append]
      rfl
    | token value own =>
      rw [List.cons_append, spansFrom, spansFrom, ih, Nat.add_assoc, List.flatMap_cons,
        List.length_append]
      rfl

theorem map_value_spansFrom (offset : Nat) (ps : List (Piece α)) :
    (spansFrom offset ps).map (·.2.2) = ps.filterMap value? := by
  fun_induction spansFrom offset ps with
  | case1 => rfl
  | case2 offset c ps ih => exact ih
  | case3 offset value own ps ih => rw [List.map_cons, ih]; rfl

/-- A span is the place of a token: what stands before it and its own characters. -/
theorem exists_of_mem_spansFrom {offset start stop : Nat} {ps : List (Piece α)} {v : α}
    (h : (start, stop, v) ∈ spansFrom offset ps) :
    ∃ before own after, ps = before ++ .token v own :: after ∧
      start = offset + (before.flatMap raw).length ∧ stop = start + own.length := by
  fun_induction spansFrom offset ps with
  | case1 => cases h
  | case2 offset c ps ih =>
    obtain ⟨before, own, after, rfl, hstart, hstop⟩ := ih h
    refine ⟨.gap c :: before, own, after, rfl, ?_, hstop⟩
    rw [hstart, List.flatMap_cons, List.length_append, raw, List.length_singleton, Nat.add_assoc]
  | case3 offset value own ps ih =>
    rcases List.mem_cons.mp h with heq | h
    · cases heq
      exact ⟨[], own, ps, rfl, rfl, rfl⟩
    · obtain ⟨before, own', after, rfl, hstart, hstop⟩ := ih h
      refine ⟨.token value own :: before, own', after, rfl, ?_, hstop⟩
      rw [hstart, List.flatMap_cons, List.length_append, raw, Nat.add_assoc]

/-- The span of a token among the spans of all. -/
theorem getElem?_spansFrom (offset : Nat) (before after : List (Piece α)) (v : α) (own : Text) :
    (spansFrom offset (before ++ .token v own :: after))[tokenCount before]? =
      some (offset + (before.flatMap raw).length,
        offset + (before.flatMap raw).length + own.length, v) := by
  rw [spansFrom_append, ← length_spansFrom offset, List.getElem?_append_right (Nat.le_refl _),
    Nat.sub_self, spansFrom, List.getElem?_cons_zero]

/-- Tokens stand one after another. -/
theorem spansFrom_pairwise (offset : Nat) (ps : List (Piece α)) :
    (spansFrom offset ps).Pairwise fun a b => a.2.1 ≤ b.1 := by
  fun_induction spansFrom offset ps with
  | case1 => exact List.Pairwise.nil
  | case2 offset c ps ih => exact ih
  | case3 offset value own ps ih =>
    refine List.pairwise_cons.mpr ⟨?_, ih⟩
    rintro ⟨start, stop, v⟩ hmem
    obtain ⟨before, -, -, -, hstart, -⟩ := exists_of_mem_spansFrom hmem
    rw [hstart]
    exact Nat.le_add_right _ _

/-! ## Writing one token anew -/

/-- Pieces in front of the token to be written anew stay. -/
theorem mapNth_append (done : List (Piece α)) (n : Nat) (write : α → Text → Text)
    (ps : List (Piece α)) :
    mapNth (tokenCount done + n) write (done ++ ps) = done.flatMap raw ++ mapNth n write ps := by
  induction done with
  | nil => rw [tokenCount, List.filterMap_nil, List.length_nil, Nat.zero_add]; rfl
  | cons p done ih =>
    cases p with
    | gap c =>
      have hcount : tokenCount (.gap c :: done) = tokenCount done := rfl
      rw [hcount, List.cons_append, mapNth, ih]
      rfl
    | token value own =>
      have hcount : tokenCount (.token value own :: done) + n = tokenCount done + n + 1 := by
        simp only [tokenCount, List.filterMap_cons, value?, List.length_cons]
        omega
      rw [hcount, List.cons_append, mapNth, ih, List.flatMap_cons, List.append_assoc]
      rfl

/-- Writing the characters of a token in its place changes nothing. -/
theorem mapNth_of_raw {ps : List (Piece α)} {n : Nat} {v : α} {new : Text}
    (h : (ps.filterMap value?)[n]? = some v) (hown : ∀ own, .token v own ∈ ps → own = new) :
    mapNth n (fun _ _ => new) ps = ps.flatMap raw := by
  induction ps generalizing n with
  | nil => rfl
  | cons p ps ih =>
    have hps : ∀ own, .token v own ∈ ps → own = new :=
      fun own hmem => hown own (List.mem_cons_of_mem _ hmem)
    cases p with
    | gap c =>
      rw [mapNth, ih h hps]
      rfl
    | token value own =>
      cases n with
      | zero =>
        obtain rfl : value = v := Option.some.inj h
        rw [mapNth, ← hown own List.mem_cons_self]
        rfl
      | succ n =>
        rw [mapNth, ih h hps]
        rfl

/-- The token with an ordinal has pieces before it and pieces behind it. -/
theorem exists_split_of_value? {ps : List (Piece α)} {n : Nat} {v : α}
    (h : (ps.filterMap value?)[n]? = some v) :
    ∃ before own after, ps = before ++ .token v own :: after ∧ tokenCount before = n := by
  induction ps generalizing n with
  | nil => cases h
  | cons p ps ih =>
    cases p with
    | gap c =>
      obtain ⟨before, own, after, rfl, hcount⟩ := ih h
      exact ⟨.gap c :: before, own, after, rfl, hcount⟩
    | token value own =>
      cases n with
      | zero =>
        obtain rfl : value = v := Option.some.inj h
        exact ⟨[], own, ps, rfl, rfl⟩
      | succ n =>
        obtain ⟨before, own', after, rfl, rfl⟩ := ih h
        exact ⟨.token value own :: before, own', after, rfl, rfl⟩

/-- Only the token with the ordinal is written, if there is one. -/
theorem mapNth_eq_self_or (n : Nat) (write : α → Text → Text) (ps : List (Piece α)) :
    mapNth n write ps = ps.flatMap raw ∨
      ∃ before v own after, ps = before ++ .token v own :: after ∧
        mapNth n write ps = before.flatMap raw ++ (write v own ++ after.flatMap raw) := by
  induction ps generalizing n with
  | nil => exact Or.inl rfl
  | cons p ps ih =>
    cases p with
    | gap c =>
      rcases ih n with hsame | ⟨before, v, own, after, rfl, hwritten⟩
      · exact Or.inl (congrArg (c :: ·) hsame)
      · exact Or.inr ⟨.gap c :: before, v, own, after, rfl, congrArg (c :: ·) hwritten⟩
    | token value own =>
      cases n with
      | zero => exact Or.inr ⟨[], value, own, ps, rfl, rfl⟩
      | succ n =>
        rcases ih n with hsame | ⟨before, v, own', after, rfl, hwritten⟩
        · exact Or.inl (congrArg (own ++ ·) hsame)
        · refine Or.inr ⟨.token value own :: before, v, own', after, rfl, ?_⟩
          rw [mapNth, hwritten, List.flatMap_cons, raw, List.append_assoc]

/-- Each character comes from the pieces or from what is written. -/
theorem mem_mapNth {n : Nat} {write : α → Text → Text} {ps : List (Piece α)} {c : Char}
    (h : c ∈ mapNth n write ps) :
    c ∈ ps.flatMap raw ∨ ∃ value own, .token value own ∈ ps ∧ c ∈ write value own := by
  induction ps generalizing n with
  | nil => exact Or.inl h
  | cons p ps ih =>
    rw [List.flatMap_cons]
    cases p with
    | gap d =>
      rcases List.mem_cons.mp h with rfl | h
      · exact Or.inl (List.mem_append_left _ (List.mem_singleton.mpr rfl))
      · rcases ih h with h | ⟨value, own, hmem, hc⟩
        · exact Or.inl (List.mem_append_right _ h)
        · exact Or.inr ⟨value, own, List.mem_cons_of_mem _ hmem, hc⟩
    | token value own =>
      cases n with
      | zero =>
        rcases List.mem_append.mp h with h | h
        · exact Or.inr ⟨value, own, List.mem_cons_self, h⟩
        · exact Or.inl (List.mem_append_right _ h)
      | succ n =>
        rcases List.mem_append.mp h with h | h
        · exact Or.inl (List.mem_append_left _ h)
        · rcases ih h with h | ⟨value', own', hmem, hc⟩
          · exact Or.inl (List.mem_append_right _ h)
          · exact Or.inr ⟨value', own', List.mem_cons_of_mem _ hmem, hc⟩

/-! ## Writing the first tokens anew -/

/-- The pieces as stretches of the text, the first tokens written anew. -/
def rewriteFirst : List Text → List (Piece α) → List Text.Stretch
  | _, [] => []
  | news, .gap c :: ps => ⟨[c], none⟩ :: rewriteFirst news ps
  | [], .token _ own :: ps => ⟨own, none⟩ :: rewriteFirst [] ps
  | new :: news, .token _ own :: ps => ⟨own, some new⟩ :: rewriteFirst news ps

theorem rewriteFirst_raw (news : List Text) (ps : List (Piece α)) :
    (rewriteFirst news ps).flatMap Text.Stretch.raw = ps.flatMap raw := by
  fun_induction rewriteFirst news ps with
  | case1 => rfl
  | case2 news c ps ih => rw [List.flatMap_cons, List.flatMap_cons, ih]; rfl
  | case3 value own ps ih => rw [List.flatMap_cons, List.flatMap_cons, ih]; rfl
  | case4 new news value own ps ih => rw [List.flatMap_cons, List.flatMap_cons, ih]; rfl

theorem rewriteFirst_nil_written (ps : List (Piece α)) :
    (rewriteFirst [] ps).flatMap Text.Stretch.written = ps.flatMap raw := by
  induction ps with
  | nil => rfl
  | cons p ps ih =>
    cases p <;>
      (rw [rewriteFirst, List.flatMap_cons, List.flatMap_cons, ih]; rfl)

/-- The spans written are those of the first tokens. -/
theorem replacements_rewriteFirst (news : List Text) (ps : List (Piece α)) (offset : Nat) :
    Text.Stretch.replacements offset (rewriteFirst news ps) =
      List.zipWith (fun new span => ⟨span.1, span.2.1, new⟩) news (spansFrom offset ps) := by
  fun_induction rewriteFirst news ps generalizing offset with
  | case1 => rw [spansFrom, List.zipWith_nil_right]; rfl
  | case2 news c ps ih => rw [Text.Stretch.replacements, ih]; rfl
  | case3 value own ps ih => rw [Text.Stretch.replacements, ih]; rfl
  | case4 new news value own ps ih => rw [Text.Stretch.replacements, ih]; rfl

theorem raw_ne_nil_of_mem_rewriteFirst {news : List Text} {ps : List (Piece α)}
    (h : ∀ value own, .token value own ∈ ps → own ≠ []) :
    ∀ s ∈ rewriteFirst news ps, s.new?.isSome → s.raw ≠ [] := by
  fun_induction rewriteFirst news ps with
  | case1 =>
    intro s hs
    cases hs
  | case2 news c ps ih =>
    intro s hs hsome
    rcases List.mem_cons.mp hs with rfl | hs
    · cases hsome
    · exact ih (fun value own hmem => h value own (List.mem_cons_of_mem _ hmem)) s hs hsome
  | case3 value own ps ih =>
    intro s hs hsome
    rcases List.mem_cons.mp hs with rfl | hs
    · cases hsome
    · exact ih (fun value own hmem => h value own (List.mem_cons_of_mem _ hmem)) s hs hsome
  | case4 new news value own ps ih =>
    intro s hs hsome
    rcases List.mem_cons.mp hs with rfl | hs
    · exact h value own List.mem_cons_self
    · exact ih (fun value own hmem => h value own (List.mem_cons_of_mem _ hmem)) s hs hsome

/-! ## Every token written anew -/

theorem renderWith_gap (write : α → Text → Text) (c : Char) (ps : List (Piece α)) :
    renderWith write (.gap c :: ps) = c :: renderWith write ps := rfl

theorem renderWith_token (write : α → Text → Text) (value : α) (own : Text)
    (ps : List (Piece α)) :
    renderWith write (.token value own :: ps) = write value own ++ renderWith write ps := rfl

theorem renderWith_congr {write write' : α → Text → Text} {ps : List (Piece α)}
    (h : ∀ value own, .token value own ∈ ps → write value own = write' value own) :
    renderWith write ps = renderWith write' ps := by
  induction ps with
  | nil => rfl
  | cons p ps ih =>
    have hps := ih fun value own hmem => h value own (List.mem_cons_of_mem _ hmem)
    cases p with
    | gap c => rw [renderWith_gap, renderWith_gap, hps]
    | token value own =>
      rw [renderWith_token, renderWith_token, h value own List.mem_cons_self, hps]

/-- Pieces with each token written as it stands are the text. -/
theorem renderWith_own (ps : List (Piece α)) :
    renderWith (fun _ own => own) ps = ps.flatMap raw := by
  induction ps with
  | nil => rfl
  | cons p ps ih =>
    rw [List.flatMap_cons, ← ih]
    cases p <;> rfl

/-- A piece as a stretch of the text, a token written anew. -/
def stretch (write : α → Text → Text) : Piece α → Text.Stretch
  | .token value own => ⟨own, some (write value own)⟩
  | .gap c => ⟨[c], none⟩

/-- The spans of the tokens, each with what is written in its place. -/
def replacementsFrom (write : α → Text → Text) (offset : Nat) (ps : List (Piece α)) :
    List Replacement :=
  Text.Stretch.replacements offset (ps.map (stretch write))

theorem raw_ne_nil_of_mem_stretch {write : α → Text → Text} {ps : List (Piece α)}
    (h : ∀ value own, .token value own ∈ ps → own ≠ []) :
    ∀ s ∈ ps.map (stretch write), s.new?.isSome → s.raw ≠ [] := by
  intro s hs hsome
  obtain ⟨p, hp, rfl⟩ := List.mem_map.mp hs
  cases p with
  | gap c => cases hsome
  | token value own => exact h value own hp

/-- Writing every token anew is replacing their spans at once. -/
theorem replaceSpans_replacementsFrom {write : α → Text → Text} {ps : List (Piece α)}
    (h : ∀ value own, .token value own ∈ ps → own ≠ []) :
    Text.replaceSpans (replacementsFrom write 0 ps) (ps.flatMap raw) = renderWith write ps := by
  have hraw : (ps.map (stretch write)).flatMap Text.Stretch.raw = ps.flatMap raw := by
    rw [List.flatMap_map]
    congr
    funext p
    cases p <;> rfl
  have hwritten : (ps.map (stretch write)).flatMap Text.Stretch.written = renderWith write ps := by
    rw [List.flatMap_map, renderWith]
    congr
    funext p
    cases p <;> rfl
  rw [← hraw, replacementsFrom, Text.replaceSpans_stretches (raw_ne_nil_of_mem_stretch h), hwritten]

/-- The text of pieces with other texts of a kind in the place of the tokens. -/
inductive Rewritten (kind : Text → Prop) : List (Piece α) → Text → Prop where
  | nil : Rewritten kind [] []
  | gap {c : Char} {ps : List (Piece α)} {w : Text} (rest : Rewritten kind ps w) :
      Rewritten kind (.gap c :: ps) (c :: w)
  | token {value : α} {own new : Text} {ps : List (Piece α)} {w : Text} (written : kind new)
      (rest : Rewritten kind ps w) : Rewritten kind (.token value own :: ps) (new ++ w)

namespace Rewritten

variable {kind : Text → Prop} {ps : List (Piece α)} {w : Text}

theorem of_renderWith {write : α → Text → Text}
    (h : ∀ value own, .token value own ∈ ps → kind (write value own)) :
    Rewritten kind ps (renderWith write ps) := by
  induction ps with
  | nil => exact .nil
  | cons p ps ih =>
    have hps := ih fun value own hmem => h value own (List.mem_cons_of_mem _ hmem)
    cases p with
    | gap c => exact .gap hps
    | token value own => exact .token (h value own List.mem_cons_self) hps

theorem imp {kind' : Text → Prop} (himp : ∀ new, kind new → kind' new)
    (h : Rewritten kind ps w) : Rewritten kind' ps w := by
  induction h with
  | nil => exact .nil
  | gap _ ih => exact .gap ih
  | token written _ ih => exact .token (himp _ written) ih

/-- Each character is one outside the tokens or comes from what is written. -/
theorem mem (h : Rewritten kind ps w) {c : Char} (hc : c ∈ w) :
    .gap c ∈ ps ∨ ∃ new, kind new ∧ c ∈ new := by
  induction h with
  | nil => cases hc
  | gap _ ih =>
    rcases List.mem_cons.mp hc with rfl | hc
    · exact .inl List.mem_cons_self
    · exact (ih hc).imp_left (List.mem_cons_of_mem _)
  | token written _ ih =>
    rcases List.mem_append.mp hc with hc | hc
    · exact .inr ⟨_, written, hc⟩
    · exact (ih hc).imp_left (List.mem_cons_of_mem _)

/-- A beginning without the first characters of what is written stands outside the tokens. -/
theorem split {p : Char → Prop} (hkind : ∀ new, kind new → ∃ c cs, new = c :: cs ∧ ¬ p c)
    {front rest : Text} (hfront : ∀ c ∈ front, p c) (h : Rewritten kind ps (front ++ rest)) :
    ∃ qs, ps = front.map Piece.gap ++ qs ∧ Rewritten kind qs rest := by
  induction front generalizing ps with
  | nil => exact ⟨ps, rfl, h⟩
  | cons d ds ih =>
    obtain ⟨hd, hds⟩ := List.forall_mem_cons.mp hfront
    generalize hw : d :: ds ++ rest = w at h
    cases h with
    | nil => cases hw
    | gap hrest =>
      obtain ⟨rfl, rfl⟩ := List.cons.inj hw
      obtain ⟨qs, rfl, hqs⟩ := ih hds hrest
      exact ⟨qs, rfl, hqs⟩
    | token written hrest =>
      obtain ⟨c, cs, rfl, hc⟩ := hkind _ written
      obtain rfl := (List.cons.inj hw).1
      exact absurd hd hc

end Rewritten

/-- Characters outside tokens are the characters of the text. -/
theorem flatMap_raw_map_gap (front : Text) (qs : List (Piece α)) :
    (front.map Piece.gap ++ qs).flatMap raw = front ++ qs.flatMap raw := by
  induction front with
  | nil => rfl
  | cons c cs ih =>
    rw [List.map_cons, List.cons_append, List.flatMap_cons, ih]
    rfl

end Piece

/-- Writing the token behind which firm pieces end. -/
theorem Text.mapNthToken_firm {recognize : Recognizer α} (hcuts : recognize.Cuts)
    (hblind : recognize.Blind) {done : List (Piece α)} (hdone : ∀ p ∈ done, recognize.Firm p)
    {v : α} {own : Text} (hown : recognize.Firm (.token v own)) (write : α → Text → Text)
    (rest : Text) :
    Text.mapNthToken recognize (Piece.tokenCount done : Int) write
        (done.flatMap Piece.raw ++ (own ++ rest)) =
      done.flatMap Piece.raw ++ (write v own ++ rest) := by
  have htoken : pieces recognize (own ++ rest) = .token v own :: pieces recognize rest := by
    rw [pieces, piecesFrom_token (hown.2 _ _) hown.1, hblind.piecesFrom_eq _ none]
    rfl
  have hcut : pieces recognize (done.flatMap Piece.raw ++ (own ++ rest)) =
      done ++ .token v own :: pieces recognize rest := by
    rw [pieces, hblind.pieces_firm_append hdone, htoken]
  have hmap := Piece.mapNth_append done 0 write (.token v own :: pieces recognize rest)
  rw [Nat.add_zero] at hmap
  rw [Text.mapNthToken, if_neg (by omega), hcut, Int.toNat_natCast, hmap, Piece.mapNth,
    flatMap_raw_pieces hcuts]

/-! ## Tokens taken out -/

theorem Text.without_nil (recognize : Recognizer α) : Text.without recognize [] = [] := by
  rw [Text.without, Text.mapTokens, pieces, piecesFrom_nil]
  rfl

/-- A character at which no token begins stays. -/
theorem Text.without_cons {recognize : Recognizer α} (hblind : recognize.Blind) {c : Char}
    {cs : Text} (h : recognize none (c :: cs) = none) :
    Text.without recognize (c :: cs) = c :: Text.without recognize cs := by
  rw [Text.without, Text.mapTokens, pieces, piecesFrom_gap h, hblind.piecesFrom_eq (some c) none,
    Piece.renderWith_gap]
  rfl

/-- Tokens are taken out of both sides of a character that no token reaches. -/
theorem Text.without_append_cons {recognize : Recognizer α} {c : Char} (h : recognize.Spares c)
    (hcuts : recognize.Cuts) (hblind : recognize.Blind) (s rest : Text) :
    (s ++ c :: rest).without recognize = s.without recognize ++ c :: rest.without recognize := by
  rw [Text.without, Text.mapTokens, pieces, h.piecesFrom_append hcuts,
    hblind.piecesFrom_eq (some c) none, Piece.renderWith, List.flatMap_append]
  rfl

/-- Taking tokens out adds no characters. -/
theorem Text.mem_of_mem_without {recognize : Recognizer α} (hcuts : recognize.Cuts) {s : Text}
    {c : Char} (h : c ∈ s.without recognize) : c ∈ s := by
  have hrewritten : Piece.Rewritten (· = []) (pieces recognize s) (s.without recognize) :=
    .of_renderWith fun _ _ _ => rfl
  rcases hrewritten.mem h with hgap | ⟨new, rfl, hnew⟩
  · rw [← flatMap_raw_pieces hcuts s]
    exact List.mem_flatMap.mpr ⟨_, hgap, List.mem_singleton_self c⟩
  · cases hnew

end GameText
