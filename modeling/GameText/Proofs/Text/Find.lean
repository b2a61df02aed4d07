import GameText.Proofs.Text.Pieces

/-!
# The first find

A search tries each place of a text in order. Two recognisers that agree at the place of the first
find, the second of which finds nothing where the first does not, have their first find at the same
place (`findFrom?_agree`). The first token of a scan is the first find, and a token that a
recogniser would find makes its search succeed.
-/

namespace GameText

namespace Text

variable {α β : Type}

/-- Where the first find stands, and that a recogniser which finds no more finds it there too. -/
theorem findFrom?_agree {recognize : Recognizer α} {narrow : Recognizer β}
    (hnarrow : ∀ before s, recognize before s = none → narrow before s = none)
    {before : Option Char} {s lead rest : Text} {value : α}
    (h : findFrom? recognize before s = some (lead, value, rest)) :
    ∃ at? tail, s = lead ++ tail ∧ recognize at? tail = some (value, rest) ∧
      ∀ value' rest', narrow at? tail = some (value', rest') →
        findFrom? narrow before s = some (lead, value', rest') := by
  induction s generalizing before lead with
  | nil =>
    rw [findFrom?] at h
    obtain ⟨⟨value', rest'⟩, hrec, heq⟩ := Option.map_eq_some_iff.mp h
    cases heq
    refine ⟨before, [], rfl, hrec, ?_⟩
    intro value' rest' hnew
    rw [findFrom?, hnew]
    rfl
  | cons c cs ih =>
    rw [findFrom?] at h
    split at h
    next value' rest' hrec =>
      cases h
      refine ⟨before, c :: cs, rfl, hrec, ?_⟩
      intro value' rest' hnew
      rw [findFrom?, hnew]
    next hnone =>
      obtain ⟨⟨lead', value', rest'⟩, hfind, heq⟩ := Option.map_eq_some_iff.mp h
      cases heq
      obtain ⟨at?, tail, hsplit, hrec, hagree⟩ := ih hfind
      refine ⟨at?, tail, congrArg (c :: ·) hsplit, hrec, ?_⟩
      intro value' rest' hnew
      rw [findFrom?, hnarrow before (c :: cs) hnone, hagree value' rest' hnew]
      rfl

/-- Where the first find stands. -/
theorem exists_of_find? {recognize : Recognizer α} {s lead rest : Text} {value : α}
    (h : find? recognize s = some (lead, value, rest)) :
    ∃ at? tail, s = lead ++ tail ∧ recognize at? tail = some (value, rest) := by
  obtain ⟨at?, tail, hsplit, hrec, -⟩ := findFrom?_agree (fun _ _ hnone => hnone) h
  exact ⟨at?, tail, hsplit, hrec⟩

/-- A recogniser with other values has the same first find. -/
theorem findFrom?_map {recognize : Recognizer α} {renamed : Recognizer β} {f : α → β}
    (h : ∀ before s, renamed before s = (recognize before s).map fun (a, rest) => (f a, rest))
    (before : Option Char) (s : Text) :
    findFrom? renamed before s =
      (findFrom? recognize before s).map fun (lead, a, rest) => (lead, f a, rest) := by
  induction s generalizing before with
  | nil => rw [findFrom?, findFrom?, h, Option.map_map, Option.map_map]; rfl
  | cons c cs ih =>
    rw [findFrom?, findFrom?, h]
    cases recognize before (c :: cs) with
    | none => simp only [Option.map_none, ih, Option.map_map]; rfl
    | some found => rfl

/-- A search goes on behind what stands in front. -/
theorem findFrom?_isSome_append {recognize : Recognizer α} {front rest : Text}
    (hfront : front ≠ []) (before : Option Char)
    (h : (findFrom? recognize front.getLast? rest).isSome) :
    (findFrom? recognize before (front ++ rest)).isSome := by
  induction front generalizing before with
  | nil => exact absurd rfl hfront
  | cons c cs ih =>
    have hcs : (findFrom? recognize (some c) (cs ++ rest)).isSome := by
      cases cs with
      | nil => exact h
      | cons d ds => exact ih (List.cons_ne_nil _ _) (some c) h
    rw [List.cons_append, findFrom?]
    split
    next => rfl
    next => rw [Option.isSome_map]; exact hcs

/-- A token that a recogniser would find makes its search succeed. -/
theorem find?_isSome_of_token_mem {scan : Recognizer α} {recognize : Recognizer β}
    (hcuts : scan.Cuts) {v : α}
    (hfinds : ∀ before s rest, scan before s = some (v, rest) → (recognize before s).isSome)
    {before : Option Char} {s own : Text} (h : .token v own ∈ piecesFrom scan before s) :
    (findFrom? recognize before s).isSome := by
  induction before, s using scan_induction hcuts with
  | nil before =>
    rw [piecesFrom_nil] at h
    cases h
  | token before value raw rest hraw hrec hpieces ih =>
    rw [hpieces, List.mem_cons] at h
    rcases h with heq | h
    · cases heq
      have hhere := hfinds before _ rest hrec
      obtain ⟨c, cs, rfl⟩ := List.exists_cons_of_ne_nil hraw
      obtain ⟨found, hfound⟩ := Option.isSome_iff_exists.mp hhere
      rw [List.cons_append] at hfound ⊢
      rw [findFrom?, hfound]
      rfl
    · exact findFrom?_isSome_append hraw before (ih h)
  | gap before c cs _ hpieces ih =>
    rw [hpieces, List.mem_cons] at h
    rcases h with heq | h
    · cases heq
    · exact findFrom?_isSome_append (List.cons_ne_nil c []) before (ih h)

/-- The first token of a scan is the first find. -/
theorem find?_of_first_token {recognize : Recognizer α} (hcuts : recognize.Cuts)
    {before : Option Char} {s : Text} {v : α} {vs : List α}
    (h : (piecesFrom recognize before s).filterMap Piece.value? = v :: vs) :
    ∃ lead rest, findFrom? recognize before s = some (lead, v, rest) := by
  induction before, s using scan_induction hcuts with
  | nil before =>
    rw [piecesFrom_nil] at h
    cases h
  | token before value raw rest hraw hrec hpieces _ =>
    rw [hpieces, List.filterMap_cons] at h
    obtain rfl : value = v := (List.cons.inj h).1
    obtain ⟨c, cs, rfl⟩ := List.exists_cons_of_ne_nil hraw
    rw [List.cons_append] at hrec ⊢
    exact ⟨[], rest, by rw [findFrom?, hrec]⟩
  | gap before c cs hrec hpieces ih =>
    rw [hpieces, List.filterMap_cons] at h
    obtain ⟨lead, rest, hfind⟩ := ih h
    exact ⟨c :: lead, rest, by rw [findFrom?, hrec, hfind]; rfl⟩

/-! ## Searching without a look back -/

section Blind

variable {recognize : Recognizer α}

theorem findFrom?_congr (hblind : recognize.Blind) (before before' : Option Char) (s : Text) :
    findFrom? recognize before s = findFrom? recognize before' s := by
  cases s with
  | nil => rw [findFrom?, findFrom?, hblind before before']
  | cons c cs => rw [findFrom?, findFrom?, hblind before before']

/-- A search finds something at the first place or behind it. -/
theorem finds_cons (hblind : recognize.Blind) (c : Char) (cs : Text) :
    finds recognize (c :: cs) = ((recognize none (c :: cs)).isSome || finds recognize cs) := by
  rw [finds, find?, findFrom?]
  cases recognize none (c :: cs) with
  | some found => rfl
  | none =>
    rw [Option.isSome_none, Bool.false_or, finds, find?, Option.isSome_map]
    exact congrArg Option.isSome (findFrom?_congr hblind _ _ cs)

/-- A search passes characters at which nothing is recognised, whatever follows them. -/
theorem finds_append (hblind : recognize.Blind) {front : Text}
    (hfront : ∀ c ∈ front, ∀ cs, recognize none (c :: cs) = none) (rest : Text) :
    finds recognize (front ++ rest) = finds recognize rest := by
  induction front with
  | nil => rfl
  | cons c cs ih =>
    obtain ⟨hc, hcs⟩ := List.forall_mem_cons.mp hfront
    rw [List.cons_append, finds_cons hblind, hc, ih hcs]
    rfl

end Blind

end Text

end GameText
