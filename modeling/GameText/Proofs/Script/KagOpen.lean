import GameText.Proofs.Script.KagLine
import GameText.Proofs.Text.Find

/-!
# Values left open in front of a place

An evaluation or an attribute ends with the quote that closes its value. One whose value no quote
closes is not found, but it is still there: a quote that comes in further on, with a new text, ends
it after all, and what was read behind it is swallowed. Here is what a search finds in a line of
which the front is known, for a text `front` and any text behind it.

At one place of the front there are few cases (`value_append_cases`): the value ends in the front, it
is left open there, or its head reaches the end of the front. From that, an evaluation is found in
front of a place exactly if one is left open and its quote stands behind (`Ahead.found_iff`), and
the scan for attributes cuts at the end of the front exactly if none is left open whose quote stands
behind (`piecesFrom_append_of_not_open`, `length_ne_of_open`).
-/

namespace GameText

namespace Text

variable {α : Type} {recognize : Recognizer α}

/-! ## Searching behind a front -/

theorem findFrom?_blind (hblind : recognize.Blind) (before before' : Option Char) (s : Text) :
    findFrom? recognize before s = findFrom? recognize before' s := by
  cases s with
  | nil => rw [findFrom?, findFrom?, hblind before before']
  | cons c cs => rw [findFrom?, findFrom?, hblind before before']

/-- If nothing is found at the places of the front, the search goes on behind it. -/
theorem find?_append_of_none (hblind : recognize.Blind) {front rest : Text}
    (h : ∀ s, s ≠ [] → s <:+ front → recognize none (s ++ rest) = none) :
    find? recognize (front ++ rest) =
      (find? recognize rest).map fun (lead, value, after) => (front ++ lead, value, after) := by
  induction front with
  | nil => simp
  | cons c cs ih =>
    have hhere := h (c :: cs) (List.cons_ne_nil _ _) (List.suffix_refl _)
    have hlater := ih fun s hs hsuffix => h s hs (hsuffix.trans (List.suffix_cons c cs))
    rw [List.cons_append] at hhere ⊢
    rw [find?, findFrom?, hhere, findFrom?_blind hblind (some c) none]
    rw [find?] at hlater
    rw [hlater, Option.map_map]
    rfl

/-- If something is found at a place of the front, the first find stands in the front. -/
theorem find?_append_of_found (hblind : recognize.Blind) {front rest s : Text} (hs : s ≠ [])
    (hsuffix : s <:+ front) (h : (recognize none (s ++ rest)).isSome) :
    ∃ s lead value after, s ≠ [] ∧ s <:+ front ∧ recognize none (s ++ rest) = some (value, after) ∧
      lead.length < front.length ∧ find? recognize (front ++ rest) = some (lead, value, after) := by
  induction front with
  | nil => exact absurd (List.suffix_nil.mp hsuffix) hs
  | cons c cs ih =>
    cases hhere : recognize none (c :: cs ++ rest) with
    | some found =>
      obtain ⟨value, after⟩ := found
      refine ⟨c :: cs, [], value, after, List.cons_ne_nil _ _, List.suffix_refl _, hhere,
        Nat.succ_pos _, ?_⟩
      rw [List.cons_append] at hhere ⊢
      rw [find?, findFrom?, hhere]
    | none =>
      have hlater : s <:+ cs := by
        rcases List.suffix_cons_iff.mp hsuffix with rfl | hsuffix
        · rw [hhere] at h
          cases h
        · exact hsuffix
      obtain ⟨t, lead, value, after, ht, htail, hfound, hlength, hfind⟩ := ih hlater
      refine ⟨t, c :: lead, value, after, ht, htail.trans (List.suffix_cons c cs), hfound,
        Nat.succ_lt_succ hlength, ?_⟩
      rw [List.cons_append] at hhere ⊢
      rw [find?] at hfind
      rw [find?, findFrom?, hhere, findFrom?_blind hblind (some c) none, hfind]
      rfl

/-- Where the first find stands, and that nothing is found in front of it. -/
theorem find?_eq_some (hblind : recognize.Blind) {line lead after : Text} {value : α}
    (h : find? recognize line = some (lead, value, after)) :
    ∃ tail, line = lead ++ tail ∧ recognize none tail = some (value, after) ∧
      ∀ s, s ≠ [] → s <:+ lead → recognize none (s ++ tail) = none := by
  obtain ⟨at?, tail, rfl, hrec⟩ := exists_of_find? h
  rw [hblind at? none] at hrec
  refine ⟨tail, rfl, hrec, fun s hs hsuffix => ?_⟩
  cases hfound : recognize none (s ++ tail) with
  | none => rfl
  | some found =>
    obtain ⟨_, lead', _, _, _, _, _, hlength, hfind⟩ :=
      find?_append_of_found hblind hs hsuffix (Option.isSome_of_eq_some hfound)
    rw [hfind] at h
    cases h
    exact absurd hlength (Nat.lt_irrefl _)

/-- Where nothing is found in a line, nothing is found at any of its places. -/
theorem find?_eq_none (hblind : recognize.Blind) {front rest : Text} :
    find? recognize (front ++ rest) = none ↔
      (∀ s, s ≠ [] → s <:+ front → recognize none (s ++ rest) = none) ∧
        find? recognize rest = none := by
  constructor
  · intro h
    have hfront : ∀ s, s ≠ [] → s <:+ front → recognize none (s ++ rest) = none := by
      intro s hs hsuffix
      cases hfound : recognize none (s ++ rest) with
      | none => rfl
      | some found =>
        obtain ⟨_, _, _, _, _, _, _, _, hfind⟩ :=
          find?_append_of_found hblind hs hsuffix (Option.isSome_of_eq_some hfound)
        rw [hfind] at h
        cases h
    rw [find?_append_of_none hblind hfront, Option.map_eq_none_iff] at h
    exact ⟨hfront, h⟩
  · rintro ⟨hfront, hrest⟩
    rw [find?_append_of_none hblind hfront, hrest]
    rfl

/-! ## Cutting behind a front -/

/-- The character in front of what stands behind a text. -/
def lastOr (before : Option Char) (s : Text) : Option Char := s.getLast?.or before

theorem lastOr_append {before : Option Char} {raw : Text} (hraw : raw ≠ []) (rest : Text) :
    lastOr raw.getLast? rest = lastOr before (raw ++ rest) := by
  rw [lastOr, lastOr, List.getLast?_append, List.getLast?_eq_some_getLast hraw]
  cases rest.getLast? <;> rfl

end Text

section Pieces

variable {α : Type} {recognize : Recognizer α}

/-- The pieces behind some pieces are those of the text behind them. -/
theorem piecesFrom_drop (hcuts : recognize.Cuts) {before : Option Char} {s : Text}
    {done ps : List (Piece α)} (h : piecesFrom recognize before s = done ++ ps) :
    piecesFrom recognize (Text.lastOr before (done.flatMap Piece.raw)) (ps.flatMap Piece.raw) =
      ps := by
  induction before, s using scan_induction hcuts generalizing done with
  | nil before =>
    rw [piecesFrom_nil] at h
    obtain ⟨rfl, rfl⟩ := List.append_eq_nil_iff.mp h.symm
    exact piecesFrom_nil _ _
  | token before value raw rest hraw hrec hpieces ih =>
    cases done with
    | nil =>
      rw [List.nil_append] at h
      rw [← h, flatMap_raw_piecesFrom hcuts]
      rfl
    | cons p done =>
      rw [hpieces] at h
      obtain ⟨rfl, hdone⟩ := List.cons.inj h
      rw [List.flatMap_cons, Piece.raw, ← Text.lastOr_append hraw]
      exact ih hdone
  | gap before c cs hrec hpieces ih =>
    cases done with
    | nil =>
      rw [List.nil_append] at h
      rw [← h, flatMap_raw_piecesFrom hcuts]
      rfl
    | cons p done =>
      rw [hpieces] at h
      obtain ⟨rfl, hdone⟩ := List.cons.inj h
      rw [List.flatMap_cons, Piece.raw, ← Text.lastOr_append (List.cons_ne_nil c [])]
      exact ih hdone

/-- A token in front of all other pieces is what is recognised there. -/
theorem recognized_of_piecesFrom (hcuts : recognize.Cuts) {before : Option Char} {s raw : Text}
    {value : α} {ps : List (Piece α)}
    (h : piecesFrom recognize before s = .token value raw :: ps) :
    recognize before s = some (value, ps.flatMap Piece.raw) := by
  cases s with
  | nil =>
    rw [piecesFrom_nil] at h
    cases h
  | cons c cs =>
    cases hrec : recognize before (c :: cs) with
    | none =>
      rw [piecesFrom_gap hrec] at h
      cases h
    | some found =>
      obtain ⟨value', rest⟩ := found
      obtain ⟨raw', hraw, hsplit⟩ := hcuts _ _ _ _ hrec
      rw [hsplit] at h hrec
      rw [piecesFrom_token hrec hraw] at h
      cases h
      rw [flatMap_raw_piecesFrom hcuts]

end Pieces

namespace Kag

open Quoted (IsQuote)

/-- The other of the two quotes. -/
def otherQuote (q : Char) : Char := if q = '"' then '\'' else '"'

theorem otherQuote_ne {q : Char} (hq : IsQuote q) : otherQuote q ≠ q := by
  rcases hq with rfl | rfl <;> decide

theorem isQuote_otherQuote (q : Char) : IsQuote (otherQuote q) := by
  unfold otherQuote
  split
  next => exact Or.inr rfl
  next => exact Or.inl rfl

theorem eq_otherQuote {q c : Char} (hq : IsQuote q) (hc : IsQuote c) (hne : c ≠ q) :
    c = otherQuote q := by
  rcases hq with rfl | rfl <;> rcases hc with rfl | rfl
  · exact absurd rfl hne
  · rfl
  · rfl
  · exact absurd rfl hne

/-- A value in quotes behind a head, in a text of which the front is known: it ends in the front, it
is left open there, it begins where the front ends, or its head reaches beyond the front. -/
theorem value_append_cases {head text rest front behind : Text} {q : Char}
    (h : front ++ behind = head ++ q :: (text ++ q :: rest)) :
    (∃ rest', front = head ++ q :: (text ++ q :: rest') ∧ rest = rest' ++ behind) ∨
      (∃ inner more, front = head ++ q :: inner ∧ text = inner ++ more ∧
        behind = more ++ q :: rest) ∨
      (front = head ∧ behind = q :: (text ++ q :: rest)) ∨
      ∃ more, more ≠ [] ∧ head = front ++ more ∧ behind = more ++ q :: (text ++ q :: rest) := by
  rcases List.append_eq_append_iff.mp h with ⟨more, hhead, hbehind⟩ | ⟨inner, hfront, hvalue⟩
  · cases more with
    | nil => exact Or.inr (Or.inr (Or.inl ⟨by rw [hhead, List.append_nil], hbehind⟩))
    | cons c more => exact Or.inr (Or.inr (Or.inr ⟨_, List.cons_ne_nil _ _, hhead, hbehind⟩))
  · cases inner with
    | nil => exact Or.inr (Or.inr (Or.inl ⟨by rw [hfront, List.append_nil], hvalue.symm⟩))
    | cons c inner =>
      obtain ⟨rfl, hinside⟩ := List.cons.inj hvalue
      rcases List.append_eq_append_iff.mp hinside with ⟨x, hinner, hx⟩ | ⟨x, htext, hx⟩
      · cases x with
        | nil =>
          have hinner : inner = text := by rw [hinner, List.append_nil]
          rw [hinner] at hfront
          exact Or.inr (Or.inl ⟨text, [], hfront, (List.append_nil _).symm, hx.symm⟩)
        | cons d x =>
          obtain ⟨rfl, hrest⟩ := List.cons.inj hx
          rw [hinner] at hfront
          exact Or.inl ⟨x, hfront, hrest⟩
      · exact Or.inr (Or.inl ⟨inner, x, hfront, htext, hx⟩)

/-! ## Evaluations -/

theorem evaluation?_blind : Recognizer.Blind evaluation? := fun _ _ _ => rfl

/-- The beginning of an evaluation, up to its expression. -/
def EvalOpening (s : Text) : Prop :=
  ∃ blanks : Text, blanks ≠ [] ∧ (∀ c ∈ blanks, isBlank c = true) ∧
    s = "@eval".toList ++ (blanks ++ "exp=".toList)

theorem afterEval?_eq_some_iff {s expression : Text} : afterEval? s = some expression ↔
    ∃ opening, EvalOpening opening ∧ s = opening ++ expression := by
  rw [afterEval?, Option.bind_eq_some_iff]
  constructor
  · rintro ⟨rest, heval, hrest⟩
    split at hrest
    next hblank =>
      have heval := Text.after?_eq_some_iff.mp heval
      have hexp := Text.after?_eq_some_iff.mp hrest
      have hsplit : rest = rest.takeWhile isBlank ++ rest.trimStart :=
        List.takeWhile_append_dropWhile.symm
      refine ⟨_, ⟨rest.takeWhile isBlank, ?_, List.all_eq_true.mp List.all_takeWhile, rfl⟩, ?_⟩
      · cases rest with
        | nil => cases hblank
        | cons c cs =>
          have hc : isBlank c = true := hblank
          rw [List.takeWhile_cons_of_pos hc]
          exact List.cons_ne_nil _ _
      · rw [heval, List.append_assoc, List.append_assoc, ← hexp, ← hsplit]
    next => cases hrest
  · rintro ⟨_, ⟨blanks, hne, hblanks, rfl⟩, rfl⟩
    have hstops : Text.Stops isBlank ("exp=".toList ++ expression) :=
      Text.stops_cons.mpr (by decide)
    refine ⟨blanks ++ ("exp=".toList ++ expression), Text.after?_eq_some_iff.mpr ?_, ?_⟩
    · simp only [List.append_assoc]
    · obtain ⟨b, bs, rfl⟩ := List.exists_cons_of_ne_nil hne
      have hb : isBlank b = true := hblanks b List.mem_cons_self
      rw [List.cons_append, List.head?_cons, Option.any_some, hb, if_pos rfl, Text.trimStart,
        ← List.cons_append, Text.dropWhile_append_of_stops hblanks hstops]
      exact Text.after?_eq_some_iff.mpr rfl

/-- The mark of a directive stands only in front of the beginning. -/
theorem EvalOpening.mark_first {opening : Text} (h : EvalOpening opening) :
    ∃ more, opening = '@' :: more ∧ '@' ∉ more := by
  obtain ⟨blanks, -, hblanks, rfl⟩ := h
  refine ⟨"eval".toList ++ (blanks ++ "exp=".toList), rfl, ?_⟩
  have hmark : '@' ∉ blanks := fun hmem => absurd (hblanks _ hmem) (by decide)
  exact List.not_mem_append (by decide) (List.not_mem_append hmark (by decide))

theorem EvalOpening.no_quote {opening : Text} (h : EvalOpening opening) :
    ∀ c ∈ opening, ¬ IsQuote c := by
  obtain ⟨blanks, -, hblanks, rfl⟩ := h
  intro c hc hquote
  rcases List.mem_append.mp hc with hc | hc
  · rcases hquote with rfl | rfl <;> exact absurd hc (by decide)
  rcases List.mem_append.mp hc with hc | hc
  · have hblank := hblanks c hc
    rcases hquote with rfl | rfl <;> cases hblank
  · rcases hquote with rfl | rfl <;> exact absurd hc (by decide)

/-- The characters of a path are letters, word characters, and one dot. -/
theorem TextPath.plain {path : Text} (h : TextPath path) :
    '@' ∉ path ∧ '.' ∈ path ∧ ∀ c ∈ path, ¬ IsQuote c := by
  obtain ⟨scope, word, hscope, rfl, hword, -⟩ := h
  have hlower := (isLower_of_scope hscope).2
  refine ⟨?_, List.mem_append_right _ List.mem_cons_self, ?_⟩
  · refine List.not_mem_append (fun hc => absurd (hlower _ hc) (by decide)) ?_
    exact List.not_mem_cons_of_ne_of_not_mem (by decide) fun hc => absurd (hword _ hc) (by decide)
  · intro c hc hquote
    rcases List.mem_append.mp hc with hc | hc
    · have := hlower c hc
      rcases hquote with rfl | rfl <;> exact absurd this (by decide)
    rcases List.mem_cons.mp hc with rfl | hc
    · exact absurd hquote (by decide)
    · have := hword c hc
      rcases hquote with rfl | rfl <;> exact absurd this (by decide)

/-- An evaluation up to the equals sign in front of its value. -/
def EvalHead (path s : Text) : Prop :=
  ∃ opening outer, EvalOpening opening ∧ OuterQuote outer ∧ TextPath path ∧
    s = opening ++ (outer ++ (path ++ ['=']))

theorem evaluation?_eq_some_iff_head {before : Option Char} {s rest : Text} {e : Evaluation} :
    evaluation? before s = some (e, rest) ↔ ∃ head, EvalHead e.path head ∧ IsQuote e.quote ∧
      e.quote ∉ e.text ∧ '\n' ∉ e.text ∧ s = head ++ e.quote :: (e.text ++ e.quote :: rest) := by
  rw [evaluation?_eq_some_iff]
  constructor
  · rintro ⟨outer, hbegins, houter, hpath, hquote, hmem, hline⟩
    obtain ⟨opening, hopening, rfl⟩ := afterEval?_eq_some_iff.mp hbegins
    refine ⟨_, ⟨opening, outer, hopening, houter, hpath, rfl⟩, hquote, hmem, hline, ?_⟩
    simp only [List.append_assoc, List.singleton_append]
  · rintro ⟨_, ⟨opening, outer, hopening, houter, hpath, rfl⟩, hquote, hmem, hline, rfl⟩
    refine ⟨outer, afterEval?_eq_some_iff.mpr ⟨opening, hopening, ?_⟩, houter, hpath, hquote, hmem,
      hline⟩
    simp only [List.append_assoc, List.singleton_append]

/-- No quote stands in a head, but around its expression. -/
theorem EvalHead.opening_of_quote {path front more : Text} {q : Char}
    (h : EvalHead path (front ++ q :: more)) (hq : IsQuote q) : EvalOpening front := by
  obtain ⟨opening, outer, hopening, houter, hpath, heq⟩ := h
  have hpathEquals : ∀ x, path ++ ['='] ≠ x ++ q :: more := by
    intro x heq
    have hmem : q ∈ path ++ ['='] := by
      rw [heq]
      exact List.mem_append_right _ List.mem_cons_self
    rcases List.mem_append.mp hmem with hmem | hmem
    · exact hpath.plain.2.2 q hmem hq
    · rw [List.mem_singleton.mp hmem] at hq
      exact absurd hq (by decide)
  rcases List.append_eq_append_iff.mp heq with ⟨x, hopens, hx⟩ | ⟨x, hfront, hx⟩
  · cases x with
    | nil =>
      rw [List.append_nil] at hopens
      exact hopens ▸ hopening
    | cons d x =>
      obtain ⟨rfl, -⟩ := List.cons.inj hx
      have hmem : q ∈ opening := by
        rw [hopens]
        exact List.mem_append_right _ List.mem_cons_self
      exact absurd hq (hopening.no_quote q hmem)
  · rcases houter with rfl | ⟨c, -, rfl⟩
    · exact absurd hx (hpathEquals x)
    · cases x with
      | nil => rwa [hfront, List.append_nil]
      | cons d x => exact absurd (List.cons.inj hx).2 (hpathEquals x)

/-- The front leaves the value of an evaluation open with a quote. -/
def LeavesOpen (front : Text) (q : Char) : Prop :=
  ∃ path head inner, EvalHead path head ∧ IsQuote q ∧ q ∉ inner ∧ front = head ++ q :: inner

/-- The front is no beginning of an evaluation, and none that begins with it is found in it, has its
value behind it or is left open with the quote `q`. -/
structure Ahead (q : Char) (front : Text) : Prop where
  nothing : evaluation? none front = none
  no_opening : ¬ EvalOpening front
  no_head : ∀ path, ¬ EvalHead path front
  open_other : ∀ c, LeavesOpen front c → c = otherQuote q

/-- Where no evaluation was found with a value in quotes behind the front, one that is found with
another text behind it was left open. -/
theorem Ahead.leavesOpen {q z : Char} {front behind rest : Text} {e : Evaluation}
    (h : Ahead q front) (hz : IsQuote z)
    (hfound : evaluation? none (front ++ z :: behind) = some (e, rest)) :
    LeavesOpen front e.quote ∧ e.quote ∈ z :: behind := by
  obtain ⟨head, hhead, hquote, hmem, hline, heq⟩ := evaluation?_eq_some_iff_head.mp hfound
  rcases value_append_cases heq with ⟨rest', hfront, -⟩ | ⟨inner, more, hfront, htext, hbehind⟩ |
    ⟨hfront, -⟩ | ⟨more, hmore, hreaches, hbehind⟩
  · have hnone := h.nothing
    rw [evaluation?_eq_some_iff_head.mpr ⟨head, hhead, hquote, hmem, hline, hfront⟩] at hnone
    cases hnone
  · rw [htext] at hmem
    refine ⟨⟨e.path, head, inner, hhead, hquote, ?_, hfront⟩, ?_⟩
    · exact fun hinner => hmem (List.mem_append_left _ hinner)
    · rw [hbehind]
      exact List.mem_append_right _ List.mem_cons_self
  · exact absurd (hfront ▸ hhead) (h.no_head e.path)
  · obtain ⟨d, more, rfl⟩ := List.exists_cons_of_ne_nil hmore
    obtain ⟨rfl, -⟩ := List.cons.inj hbehind
    rw [hreaches] at hhead
    exact absurd (hhead.opening_of_quote hz) h.no_opening

/-- What is left open is found when its quote stands behind. -/
theorem LeavesOpen.found {front behind : Text} {q : Char} (h : LeavesOpen front q)
    (hbehind : q ∈ behind) (hline : '\n' ∉ front ++ behind) :
    (evaluation? none (front ++ behind)).isSome := by
  obtain ⟨path, head, inner, hhead, hq, hinner, rfl⟩ := h
  obtain ⟨more, rest, rfl, hmore⟩ := List.eq_append_cons_of_mem hbehind
  have htext : '\n' ∉ inner ++ more := by
    intro hmem
    refine hline ?_
    rcases List.mem_append.mp hmem with hmem | hmem
    · exact List.mem_append_left _ (List.mem_append_right _ (List.mem_cons_of_mem _ hmem))
    · exact List.mem_append_right _ (List.mem_append_left _ hmem)
  have hfound : evaluation? none (head ++ q :: ((inner ++ more) ++ q :: rest)) =
      some (⟨path, q, inner ++ more⟩, rest) :=
    evaluation?_eq_some_iff_head.mpr
      ⟨head, hhead, hq, List.not_mem_append hinner hmore, htext, rfl⟩
  rw [List.append_assoc] at hfound
  rw [List.append_assoc, List.cons_append]
  exact Option.isSome_of_eq_some hfound

/-- **An evaluation that begins in the front is found** exactly if the front leaves one open in the
other quote and that quote stands behind it. -/
theorem Ahead.found_iff {q z : Char} {front behind : Text} (h : Ahead q front) (hz : IsQuote z)
    (hline : '\n' ∉ front ++ z :: behind) :
    (evaluation? none (front ++ z :: behind)).isSome ↔
      LeavesOpen front (otherQuote q) ∧ otherQuote q ∈ z :: behind := by
  constructor
  · intro hfound
    obtain ⟨⟨e, rest⟩, hfound⟩ := Option.isSome_iff_exists.mp hfound
    obtain ⟨hopen, hmem⟩ := h.leavesOpen hz hfound
    rw [← h.open_other e.quote hopen]
    exact ⟨hopen, hmem⟩
  · rintro ⟨hopen, hmem⟩
    exact hopen.found hmem hline

/-- A place of a line at which no evaluation is found, in front of a value in quotes. -/
theorem ahead_of_none {q : Char} {front text rest : Text} (hq : IsQuote q) (hmem : q ∉ text)
    (hline : '\n' ∉ front ++ q :: (text ++ q :: rest)) (hopening : ¬ EvalOpening front)
    (h : evaluation? none (front ++ q :: (text ++ q :: rest)) = none) :
    Ahead q front ∧ (LeavesOpen front (otherQuote q) →
      otherQuote q ∉ text ∧ otherQuote q ∉ rest) := by
  have hclosed : ∀ c, LeavesOpen front c → c ∉ q :: (text ++ q :: rest) := by
    intro c hopen hc
    have hfound := hopen.found hc hline
    rw [h] at hfound
    cases hfound
  have htext : '\n' ∉ text := fun hmem => hline
    (List.mem_append_right _ (List.mem_cons_of_mem _ (List.mem_append_left _ hmem)))
  refine ⟨⟨?_, hopening, ?_, ?_⟩, fun hopen => ?_⟩
  · cases hfound : evaluation? none front with
    | none => rfl
    | some found =>
      obtain ⟨e, rest'⟩ := found
      obtain ⟨head, hhead, hquote, hown, hbreak, rfl⟩ := evaluation?_eq_some_iff_head.mp hfound
      have hlonger : evaluation? none
          (head ++ e.quote :: (e.text ++ e.quote :: (rest' ++ q :: (text ++ q :: rest)))) =
            some (e, _) :=
        evaluation?_eq_some_iff_head.mpr ⟨head, hhead, hquote, hown, hbreak, rfl⟩
      simp only [List.append_assoc, List.cons_append] at h
      rw [hlonger] at h
      cases h
  · intro path hhead
    have hfound : evaluation? none (front ++ q :: (text ++ q :: rest)) =
        some (⟨path, q, text⟩, rest) :=
      evaluation?_eq_some_iff_head.mpr ⟨front, hhead, hq, hmem, htext, rfl⟩
    rw [hfound] at h
    cases h
  · intro c hopen
    have hc : IsQuote c := by
      obtain ⟨_, _, _, _, hc, _⟩ := hopen
      exact hc
    refine eq_otherQuote hq hc ?_
    rintro rfl
    exact hclosed c hopen List.mem_cons_self
  · have hnot := hclosed _ hopen
    exact ⟨fun hmem => hnot (List.mem_cons_of_mem _ (List.mem_append_left _ hmem)),
      fun hmem => hnot (List.mem_cons_of_mem _ (List.mem_append_right _
        (List.mem_cons_of_mem _ hmem)))⟩

/-! ### In front of a value -/

section Search

variable {q z : Char} {front head behind : Text}

/-- At a place of the front an evaluation leaves its value open in the other quote. -/
def OpenAhead (q : Char) (front head : Text) : Prop :=
  ∃ s, s ≠ [] ∧ s <:+ front ∧ LeavesOpen (s ++ head) (otherQuote q)

/-- What is found at the places of the front, with any text behind the head. -/
theorem found_ahead_iff (hahead : ∀ s, s ≠ [] → s <:+ front → Ahead q (s ++ head)) (hz : IsQuote z)
    (hline : '\n' ∉ front ++ (head ++ z :: behind)) :
    (∃ s, s ≠ [] ∧ s <:+ front ∧ (evaluation? none (s ++ (head ++ z :: behind))).isSome) ↔
      OpenAhead q front head ∧ otherQuote q ∈ z :: behind := by
  have hplace : ∀ s, s ≠ [] → s <:+ front →
      ((evaluation? none (s ++ (head ++ z :: behind))).isSome ↔
        LeavesOpen (s ++ head) (otherQuote q) ∧ otherQuote q ∈ z :: behind) := by
    intro s hs hsuffix
    have hshort : '\n' ∉ (s ++ head) ++ z :: behind := by
      rw [List.append_assoc]
      refine fun hmem => hline ?_
      obtain ⟨t, hfront⟩ := hsuffix
      rw [← hfront, List.append_assoc]
      exact List.mem_append_right t hmem
    rw [← List.append_assoc]
    exact (hahead s hs hsuffix).found_iff hz hshort
  constructor
  · rintro ⟨s, hs, hsuffix, hfound⟩
    obtain ⟨hopen, hmem⟩ := (hplace s hs hsuffix).mp hfound
    exact ⟨⟨s, hs, hsuffix, hopen⟩, hmem⟩
  · rintro ⟨⟨s, hs, hsuffix, hopen⟩, hmem⟩
    exact ⟨s, hs, hsuffix, (hplace s hs hsuffix).mpr ⟨hopen, hmem⟩⟩

/-- With no evaluation left open that its quote would end, the search goes on behind the front. -/
theorem find?_behind (hahead : ∀ s, s ≠ [] → s <:+ front → Ahead q (s ++ head)) (hz : IsQuote z)
    (hline : '\n' ∉ front ++ (head ++ z :: behind))
    (hopen : ¬ (OpenAhead q front head ∧ otherQuote q ∈ z :: behind)) :
    Text.find? evaluation? (front ++ (head ++ z :: behind)) =
      (Text.find? evaluation? (head ++ z :: behind)).map
        fun (lead, e, rest) => (front ++ lead, e, rest) := by
  refine Text.find?_append_of_none evaluation?_blind fun s hs hsuffix => ?_
  cases hfound : evaluation? none (s ++ (head ++ z :: behind)) with
  | none => rfl
  | some found =>
    exact absurd ((found_ahead_iff hahead hz hline).mp
      ⟨s, hs, hsuffix, Option.isSome_of_eq_some hfound⟩) hopen

/-- An evaluation left open in the front is found when its quote stands behind. -/
theorem find?_ahead (hahead : ∀ s, s ≠ [] → s <:+ front → Ahead q (s ++ head)) (hz : IsQuote z)
    (hline : '\n' ∉ front ++ (head ++ z :: behind))
    (hopen : OpenAhead q front head ∧ otherQuote q ∈ z :: behind) :
    ∃ lead e rest, Text.find? evaluation? (front ++ (head ++ z :: behind)) = some (lead, e, rest) ∧
      lead.length < front.length ∧ e.quote = otherQuote q ∧ e.quote ∉ e.text := by
  obtain ⟨s, hs, hsuffix, hfound⟩ := (found_ahead_iff hahead hz hline).mpr hopen
  obtain ⟨s, lead, e, rest, hs, hsuffix, hrec, hlength, hfind⟩ :=
    Text.find?_append_of_found evaluation?_blind hs hsuffix hfound
  rw [← List.append_assoc] at hrec
  have hplace := hahead s hs hsuffix
  obtain ⟨_, _, _, hmem, _⟩ := evaluation?_eq_some_iff_head.mp hrec
  exact ⟨lead, e, rest, hfind, hlength, hplace.open_other _ (hplace.leavesOpen hz hrec).1, hmem⟩

/-- One more quote behind the front would end an evaluation. -/
def evaluationLeftOpen (front : Text) (q : Char) : Bool := Text.finds evaluation? (front ++ [q])

theorem evaluationLeftOpen_iff (hq : IsQuote q)
    (hahead : ∀ s, s ≠ [] → s <:+ front → Ahead q (s ++ head))
    (hhead : Text.find? evaluation? (head ++ [q, otherQuote q]) = none)
    (hline : '\n' ∉ front ++ head) :
    evaluationLeftOpen (front ++ (head ++ [q])) (otherQuote q) = true ↔
      OpenAhead q front head := by
  have hmem : otherQuote q ∈ [q, otherQuote q] := List.mem_cons_of_mem _ List.mem_cons_self
  have hbreak : '\n' ∉ front ++ (head ++ [q, otherQuote q]) := by
    rw [← List.append_assoc]
    refine List.not_mem_append hline ?_
    exact List.not_mem_cons_of_ne_of_not_mem hq.ne_newline.symm
      (List.not_mem_cons_of_ne_of_not_mem (isQuote_otherQuote q).ne_newline.symm List.not_mem_nil)
  have hfront : front ++ (head ++ [q]) ++ [otherQuote q] = front ++ (head ++ [q, otherQuote q]) := by
    simp only [List.append_assoc, List.cons_append, List.nil_append]
  rw [evaluationLeftOpen, Text.finds, hfront]
  constructor
  · intro hfinds
    refine Classical.byContradiction fun hopen => ?_
    rw [find?_behind hahead hq hbreak fun h => hopen h.1, hhead] at hfinds
    cases hfinds
  · intro hopen
    obtain ⟨lead, e, rest, hfind, -⟩ := find?_ahead hahead hq hbreak ⟨hopen, hmem⟩
    rw [hfind]
    rfl

end Search

/-! ## Attributes -/

/-- The front leaves the value of an attribute open with a quote. -/
def LeavesAttribute (front : Text) (q : Char) : Prop :=
  ∃ name inner, (name = "text".toList ∨ name = "name".toList) ∧ IsQuote q ∧ q ∉ inner ∧
    front = name ++ '=' :: q :: inner

/-- No attribute begins in the front and has its value behind it: one that is found at a place of the
front ends there, or is left open there. -/
def Parted (front behind : Text) : Prop :=
  ∀ s, s ≠ [] → s <:+ front → ∀ before a rest, attribute? before (s ++ behind) = some (a, rest) →
    (∃ rest', attribute? before s = some (a, rest') ∧ rest = rest' ++ behind) ∨
      LeavesAttribute s a.quote ∧ a.quote ∈ behind ∧ rest.length < behind.length

theorem Parted.suffix {front behind s : Text} (h : Parted front behind) (hs : s <:+ front) :
    Parted s behind := fun t ht hsuffix => h t ht (hsuffix.trans hs)

/-- What follows an attribute plays no part in it. -/
theorem attribute?_append {before : Option Char} {s rest : Text} {a : Attribute}
    (h : attribute? before s = some (a, rest)) (behind : Text) :
    attribute? before (s ++ behind) = some (a, rest ++ behind) := by
  obtain ⟨hbegins, hname, hquote, hsplit, hmem, hline⟩ := attribute?_eq_some_iff.mp h
  refine attribute?_eq_some_iff.mpr ⟨hbegins, hname, hquote, ?_, hmem, hline⟩
  rw [hsplit]
  simp only [List.append_assoc, List.cons_append]

/-- The cases of an attribute that is found at a place of a front. -/
theorem parted_of_heads {front behind : Text}
    (hhead : ∀ s, s ≠ [] → s <:+ front → ∀ name q text rest,
      (name = "text".toList ∨ name = "name".toList) → IsQuote q →
      ¬ (s = name ++ ['='] ∧ behind = q :: (text ++ q :: rest)) ∧
        ∀ more, more ≠ [] → name ++ ['='] = s ++ more → behind ≠ more ++ q :: (text ++ q :: rest)) :
    Parted front behind := by
  intro s hs hsuffix before a rest h
  obtain ⟨hbegins, hname, hquote, hsplit, hmem, hline⟩ := attribute?_eq_some_iff.mp h
  have hsplit : s ++ behind = (a.name ++ ['=']) ++ a.quote :: (a.text ++ a.quote :: rest) := by
    rw [hsplit]
    simp only [List.append_assoc, List.singleton_append]
  obtain ⟨hexact, hreach⟩ := hhead s hs hsuffix a.name a.quote a.text rest hname hquote
  rcases value_append_cases hsplit with ⟨rest', hfront, hrest⟩ | ⟨inner, more, hfront, htext, hbehind⟩ |
    hbegins | ⟨more, hmore, hname', hbehind⟩
  · refine Or.inl ⟨rest', attribute?_eq_some_iff.mpr ⟨hbegins, hname, hquote, ?_, hmem, hline⟩, hrest⟩
    rw [hfront]
    simp only [List.append_assoc, List.singleton_append]
  · rw [htext] at hmem
    refine Or.inr ⟨⟨a.name, inner, hname, hquote, fun h => hmem (List.mem_append_left _ h), ?_⟩, ?_, ?_⟩
    · rw [hfront]
      simp only [List.append_assoc, List.singleton_append]
    · rw [hbehind]
      exact List.mem_append_right _ List.mem_cons_self
    · rw [hbehind, List.length_append, List.length_cons]
      omega
  · exact absurd hbegins hexact
  · exact absurd hbehind (hreach more hmore hname')

/-- A single quote behind a front is no value. -/
theorem parted_singleton (front : Text) (q : Char) : Parted front [q] := by
  refine parted_of_heads fun s hs hsuffix name c text rest hname hc => ⟨?_, ?_⟩
  · rintro ⟨-, hbehind⟩
    have hlength := congrArg List.length hbehind
    simp only [List.length_cons, List.length_append, List.length_nil] at hlength
    omega
  · intro more _ _ hbehind
    have hlength := congrArg List.length hbehind
    simp only [List.length_cons, List.length_append, List.length_nil] at hlength
    omega

/-- A word behind a front that ends with no word is no value and no part of a name. -/
theorem parted_of_word {front behind : Text} (hfront : front.getLast?.any isWordChar = false)
    (hbehind : behind.head?.any isWordChar = true) : Parted front behind := by
  refine parted_of_heads fun s hs hsuffix name q text rest hname hq => ⟨?_, ?_⟩
  · rintro ⟨-, rfl⟩
    have hword : isWordChar q = true := hbehind
    rcases hq with rfl | rfl <;> cases hword
  · intro more hmore hends _
    -- the front ends within the name
    obtain ⟨d, hd⟩ : ∃ d, s.getLast? = some d := by
      rw [List.getLast?_eq_some_getLast hs]
      exact ⟨_, rfl⟩
    have hlast : front.getLast? = some d := by
      obtain ⟨t, rfl⟩ := hsuffix
      rw [List.getLast?_append, hd]
      rfl
    have hletter : d ∈ name := by
      have hends := congrArg List.dropLast hends
      rw [List.dropLast_concat, List.dropLast_append_of_ne_nil hmore] at hends
      rw [hends]
      exact List.mem_append_left _ (List.mem_of_getLast? hd)
    rw [hlast, Option.any_some] at hfront
    have hword : ∀ c ∈ name, isWordChar c = true := by
      rcases hname with rfl | rfl <;> exact List.all_eq_true.mp (by decide)
    rw [hword d hletter] at hfront
    cases hfront

/-- Along the scan of a front, at a place outside all attributes, one is left open with a quote. -/
inductive OpenFrom (q : Char) : Option Char → Text → Prop where
  | here {before : Option Char} {s : Text} (begins : before.any isWordChar = false)
      (leaves : LeavesAttribute s q) : OpenFrom q before s
  | token {before : Option Char} {a : Attribute} {raw rest : Text} (nonempty : raw ≠ [])
      (found : attribute? before (raw ++ rest) = some (a, rest))
      (later : OpenFrom q raw.getLast? rest) : OpenFrom q before (raw ++ rest)
  | gap {before : Option Char} {c : Char} {cs : Text} (nothing : attribute? before (c :: cs) = none)
      (later : OpenFrom q (some c) cs) : OpenFrom q before (c :: cs)

/-- **If no attribute is left open that a quote behind the front would end, the scan cuts at the end
of the front** and goes on behind it. -/
theorem piecesFrom_append_of_not_open {front behind : Text} {before : Option Char}
    (hparted : Parted front behind) (hopen : ∀ q ∈ behind, ¬ OpenFrom q before front) :
    piecesFrom attribute? before (front ++ behind) =
      piecesFrom attribute? before front ++
        piecesFrom attribute? (Text.lastOr before front) behind := by
  induction before, front using scan_induction attribute?_cuts with
  | nil before =>
    rw [piecesFrom_nil, List.nil_append, List.nil_append]
    rfl
  | token before a raw rest hraw hrec hpieces ih =>
    have hlonger := attribute?_append hrec behind
    rw [List.append_assoc] at hlonger ⊢
    rw [piecesFrom_token hlonger hraw, hpieces, ih (hparted.suffix (List.suffix_append _ _))
      fun q hq hlater => hopen q hq (.token hraw hrec hlater), Text.lastOr_append hraw, List.cons_append]
  | gap before c cs hrec hpieces ih =>
    have hlonger : attribute? before (c :: (cs ++ behind)) = none := by
      cases hfound : attribute? before (c :: (cs ++ behind)) with
      | none => rfl
      | some found =>
        obtain ⟨a, rest⟩ := found
        rcases hparted (c :: cs) (List.cons_ne_nil _ _) (List.suffix_refl _) before a rest hfound with
          ⟨rest', hclosed, -⟩ | ⟨hleaves, hmem, -⟩
        · rw [hrec] at hclosed
          cases hclosed
        · have hbegins := (attribute?_eq_some_iff.mp hfound).word_begins
          exact absurd (.here hbegins hleaves) (hopen a.quote hmem)
    rw [List.cons_append, piecesFrom_gap hlonger, hpieces,
      ih (hparted.suffix (List.suffix_cons c cs)) fun q hq hlater => hopen q hq (.gap hrec hlater),
      List.cons_append, show c :: cs = [c] ++ cs from rfl, ← Text.lastOr_append (List.cons_ne_nil c [])]
    rfl

/-- An attribute that begins in the front and ends behind it bridges the end of the front. -/
theorem length_ne_of_bridge {front behind rest : Text} {before : Option Char} {a : Attribute}
    (hfront : front ≠ []) (h : attribute? before (front ++ behind) = some (a, rest))
    (hrest : rest.length < behind.length) {done ps : List (Piece Attribute)}
    (hpieces : piecesFrom attribute? before (front ++ behind) = done ++ ps) :
    (done.flatMap Piece.raw).length ≠ front.length := by
  obtain ⟨raw, hraw, hsplit⟩ := attribute?_cuts _ _ _ _ h
  have hlength := congrArg List.length hsplit
  rw [List.length_append, List.length_append] at hlength
  rw [hsplit] at h hpieces
  rw [piecesFrom_token h hraw] at hpieces
  cases done with
  | nil => exact fun hzero => hfront (List.length_eq_zero_iff.mp hzero.symm)
  | cons p done =>
    obtain ⟨rfl, -⟩ := List.cons.inj hpieces
    rw [List.flatMap_cons, List.length_append]
    simp only [Piece.raw]
    omega

/-- If the pieces behind a first one do not end at a place, all pieces do not end at that place behind
the first. -/
theorem length_ne_of_later {α : Type} {p : Piece α} {later done ps : List (Piece α)} {n : Nat}
    (hp : p.raw ≠ []) (hpieces : p :: later = done ++ ps)
    (hlater : ∀ {done}, later = done ++ ps → (done.flatMap Piece.raw).length ≠ n) :
    (done.flatMap Piece.raw).length ≠ p.raw.length + n := by
  have hpos := List.length_pos_iff.mpr hp
  cases done with
  | nil => exact fun hzero => absurd hzero (by simp only [List.flatMap_nil, List.length_nil]; omega)
  | cons d done =>
    obtain ⟨rfl, hdone⟩ := List.cons.inj hpieces
    have := hlater hdone
    rw [List.flatMap_cons, List.length_append]
    omega

/-- **If an attribute is left open and its quote stands behind the front, the scan does not cut at
the end of the front.** -/
theorem length_ne_of_open {front behind : Text} {before : Option Char} {q : Char}
    (hopen : OpenFrom q before front) (hparted : Parted front behind) (hq : q ∈ behind)
    (hline : '\n' ∉ front ++ behind) {done ps : List (Piece Attribute)}
    (hpieces : piecesFrom attribute? before (front ++ behind) = done ++ ps) :
    (done.flatMap Piece.raw).length ≠ front.length := by
  induction hopen generalizing done with
  | @here before s hbegins hleaves =>
    obtain ⟨name, inner, hname, hquote, hinner, rfl⟩ := hleaves
    obtain ⟨more, rest, rfl, hmore⟩ := List.eq_append_cons_of_mem hq
    have htext : '\n' ∉ inner ++ more := by
      refine fun hmem => hline ?_
      rcases List.mem_append.mp hmem with hmem | hmem
      · exact List.mem_append_left _ (List.mem_append_right _
          (List.mem_cons_of_mem _ (List.mem_cons_of_mem _ hmem)))
      · exact List.mem_append_right _ (List.mem_append_left _ hmem)
    have hfound : attribute? before ((name ++ '=' :: q :: inner) ++ (more ++ q :: rest)) =
        some (⟨name, q, inner ++ more⟩, rest) :=
      attribute?_eq_some_iff.mpr ⟨hbegins, hname, hquote, by
        simp only [List.append_assoc, List.cons_append], List.not_mem_append hinner hmore, htext⟩
    refine length_ne_of_bridge (List.append_ne_nil_of_right_ne_nil _ (List.cons_ne_nil _ _)) hfound ?_
      hpieces
    rw [List.length_append, List.length_cons]
    omega
  | @token before a raw rest hraw hfound hlater ih =>
    have hlonger := attribute?_append hfound behind
    rw [List.append_assoc] at hlonger hpieces hline
    rw [piecesFrom_token hlonger hraw] at hpieces
    rw [List.length_append]
    exact length_ne_of_later (p := .token a raw) hraw hpieces fun hdone =>
      ih (hparted.suffix (List.suffix_append _ _)) (fun h => hline (List.mem_append_right _ h)) hdone
  | @gap before c cs hnothing hlater ih =>
    cases hfound : attribute? before (c :: cs ++ behind) with
    | some found =>
      obtain ⟨a, rest⟩ := found
      rcases hparted (c :: cs) (List.cons_ne_nil _ _) (List.suffix_refl _) before a rest hfound with
        ⟨rest', hclosed, -⟩ | ⟨-, -, hrest⟩
      · rw [hnothing] at hclosed
        cases hclosed
      · exact length_ne_of_bridge (List.cons_ne_nil c cs) hfound hrest hpieces
    | none =>
      rw [List.cons_append] at hfound hpieces
      rw [piecesFrom_gap hfound] at hpieces
      rw [List.length_cons, Nat.add_comm]
      exact length_ne_of_later (p := .gap c) (List.cons_ne_nil c []) hpieces fun hdone =>
        ih (hparted.suffix (List.suffix_cons c cs)) (fun h => hline (List.mem_cons_of_mem _ h)) hdone

/-- One more quote behind the front would end an attribute: it does not stand alone in the scan. -/
def attributeLeftOpen (front : Text) (q : Char) : Bool :=
  (pieces attribute? (front ++ [q])).getLast?.any fun p => p.value?.isSome

theorem attributeLeftOpen_iff {front : Text} {q : Char} (hq : IsQuote q) (hline : '\n' ∉ front) :
    attributeLeftOpen front q = true ↔ OpenFrom q none front := by
  have hparted := parted_singleton front q
  have hbreak : '\n' ∉ front ++ [q] := List.not_mem_append hline
    (List.not_mem_cons_of_ne_of_not_mem hq.ne_newline.symm List.not_mem_nil)
  rw [attributeLeftOpen, pieces]
  by_cases hopen : OpenFrom q none front
  · refine iff_of_true ?_ hopen
    obtain ⟨done, p, hpieces⟩ :
        ∃ done p, piecesFrom attribute? none (front ++ [q]) = done ++ [p] := by
      rcases List.eq_nil_or_concat (piecesFrom attribute? none (front ++ [q])) with hnil | hlast
      · have hraw := flatMap_raw_piecesFrom attribute?_cuts none (front ++ [q])
        rw [hnil] at hraw
        exact absurd hraw.symm (List.append_ne_nil_of_right_ne_nil _ (List.cons_ne_nil _ _))
      · obtain ⟨done, p, hlast⟩ := hlast
        exact ⟨done, p, hlast.trans List.concat_eq_append⟩
    have hends := length_ne_of_open hopen hparted List.mem_cons_self hbreak hpieces
    rw [hpieces, List.getLast?_concat, Option.any_some]
    cases p with
    | token value raw => rfl
    | gap c =>
      have hraw := congrArg List.length (flatMap_raw_piecesFrom attribute?_cuts none (front ++ [q]))
      rw [hpieces, List.flatMap_append, List.length_append, List.length_append] at hraw
      simp only [List.flatMap_cons, List.flatMap_nil, Piece.raw, List.length_singleton,
        List.append_nil] at hraw
      omega
  · refine iff_of_false ?_ hopen
    have halone : attribute? (Text.lastOr none front) [q] = none := by
      cases hfound : attribute? (Text.lastOr none front) [q] with
      | none => rfl
      | some found =>
        have hsplit := (attribute?_eq_some_iff.mp hfound).split
        have hlength := congrArg List.length hsplit
        simp only [List.length_cons, List.length_append, List.length_nil] at hlength
        omega
    rw [piecesFrom_append_of_not_open hparted fun c hc => by rwa [List.mem_singleton.mp hc],
      piecesFrom_gap halone, piecesFrom_nil, List.getLast?_concat]
    exact Bool.false_ne_true

end Kag

end GameText
