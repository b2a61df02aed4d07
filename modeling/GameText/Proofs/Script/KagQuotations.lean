import GameText.Proofs.Script.OtherScript

/-!
# The quotations of a KAG line are written at once

Each edit finds its quotation by ordinal on a line that the edits behind it have changed. On a line
no opening mark stands loose in front of a quotation, for the quotation's closing mark would close
it (`ne_mark_of_gap`). So the pieces up to a quotation are firm, and an edit that is made after
those behind it finds its quotation where it stood, whatever they have written (`foldr_rebuild`).

The addresses are those of the same scenario. Where an address of another scenario finds its
quotation, if it finds one, is not established.
-/

namespace GameText

namespace Kag

/-! ## Pieces up to a quotation -/

theorem quotation?_blind : Recognizer.Blind quotation? := fun before before' s => by
  cases s with
  | nil => rfl
  | cons c cs =>
    by_cases hc : c = '「'
    · subst hc
      rfl
    · simp [quotation?, hc]

/-- A character that is no opening mark begins no quotation. -/
theorem quotation?_of_ne {c : Char} (hc : c ≠ '「') (before : Option Char) (cs : Text) :
    quotation? before (c :: cs) = none := by
  simp [quotation?, hc]

/-- A closing mark on the same line closes a quotation. -/
theorem quotation?_isSome {before : Option Char} {cs : Text} (hmark : '」' ∈ cs)
    (hline : '\n' ∉ cs) : quotation? before ('「' :: cs) ≠ none := by
  obtain ⟨inside, rest, rfl, hinside⟩ := List.eq_append_cons_of_mem hmark
  rw [List.mem_append, not_or] at hline
  have hfound : quotation? before ('「' :: (inside ++ '」' :: rest)) = some (inside, rest) :=
    quotation?_eq_some_iff.mpr ⟨rfl, hinside, hline.1⟩
  rw [hfound]
  exact Option.some_ne_none _

/-- A quotation is one wherever its characters stand. -/
theorem firm_quotation {before : Option Char} {line inside own : Text}
    (h : .token inside own ∈ piecesFrom quotation? before line) :
    quotation?.Firm (.token inside own) := by
  obtain ⟨hne, before', rest, hrec⟩ := recognized_of_token_mem quotation?_cuts h
  obtain ⟨hsplit, hmark, hline⟩ := quotation?_eq_some_iff.mp hrec
  have hown : own = '「' :: (inside ++ ['」']) := by
    refine List.append_cancel_right (hsplit.trans ?_)
    rw [List.cons_append, List.append_assoc, List.singleton_append]
  refine ⟨hne, fun before rest => quotation?_eq_some_iff.mpr ⟨?_, hmark, hline⟩⟩
  rw [hown, List.cons_append, List.append_assoc, List.singleton_append]

/-- In front of a quotation no opening mark stands loose. -/
theorem ne_mark_of_gap {before : Option Char} {line : Text} (hline : '\n' ∉ line)
    {done behind : List (Piece Text)} {inside own : Text}
    (h : piecesFrom quotation? before line = done ++ .token inside own :: behind) {c : Char}
    (hc : .gap c ∈ done) : c ≠ '「' := by
  induction before, line using scan_induction quotation?_cuts generalizing done with
  | nil before =>
    rw [piecesFrom_nil] at h
    exact absurd h.symm (List.append_ne_nil_of_right_ne_nil _ (List.cons_ne_nil _ _))
  | token before value raw rest _ _ hpieces ih =>
    rw [List.mem_append, not_or] at hline
    rw [hpieces] at h
    cases done with
    | nil => cases hc
    | cons p done =>
      obtain ⟨rfl, hrest⟩ := List.cons.inj h
      exact ih hline.2 hrest ((List.mem_cons.mp hc).resolve_left nofun)
  | gap before d cs hnone hpieces ih =>
    have hcs : '\n' ∉ cs := List.not_mem_of_not_mem_cons hline
    rw [hpieces] at h
    cases done with
    | nil => cases hc
    | cons p done =>
      obtain ⟨rfl, hrest⟩ := List.cons.inj h
      rcases List.mem_cons.mp hc with heq | hc
      · cases heq
        rintro rfl
        -- the closing mark of the quotation behind it
        have hmem : .token inside own ∈ piecesFrom quotation? (some '「') cs := by
          rw [hrest]
          exact List.mem_append_right _ List.mem_cons_self
        have hmark : '」' ∈ own := by
          obtain ⟨-, hfirm⟩ := firm_quotation hmem
          obtain ⟨hown, -, -⟩ := quotation?_eq_some_iff.mp (hfirm none [])
          rw [List.append_nil] at hown
          rw [hown]
          exact List.mem_cons_of_mem _ (List.mem_append_right _ List.mem_cons_self)
        have hraw := flatMap_raw_piecesFrom quotation?_cuts (some '「') cs
        refine quotation?_isSome ?_ hcs hnone
        rw [← hraw, List.mem_flatMap]
        exact ⟨_, hmem, hmark⟩
      · exact ih hcs hrest hc

/-- The pieces of a line up to a quotation are firm. -/
theorem firm_of_split {line : Text} (hline : '\n' ∉ line) {done behind : List (Piece Text)}
    {inside own : Text} (h : pieces quotation? line = done ++ .token inside own :: behind) :
    ∀ p ∈ done, quotation?.Firm p := by
  intro p hp
  cases p with
  | gap c => exact quotation?_of_ne (ne_mark_of_gap hline h hp)
  | token value raw =>
    have hmem : .token value raw ∈ pieces quotation? line := by
      rw [h]
      exact List.mem_append_left _ hp
    exact firm_quotation hmem

/-! ## Edits from the last to the first -/

/-- What is written in the place of a quotation. -/
def quoted (text : Text) : Text := '「' :: Text.inlineBreaks breakTag text ++ ['」']

/-- The span of the quotation that an address names on a line. -/
def quotationSpan? (line : Text) (a : TagLineAddress) : Option (Nat × Nat) :=
  (line.spans quotation?)[a.ordinal.toNat]?.map fun (start, stop, _) => (start, stop)

/-- The replacement of the quotation at an address on a line. -/
def quotationReplacement? (line : Text) (row : TagLineAddress × Text) : Option Replacement :=
  (quotationSpan? line row.1).map fun (start, stop) => ⟨start, stop, quoted row.2⟩

/-- An address names a quotation of a line by its ordinal. -/
structure Names (line : Text) (a : TagLineAddress) (inside : Text) : Prop where
  kind : a.kind = .quotation
  ordinal : 0 ≤ a.ordinal
  found : (line.tokens quotation?)[a.ordinal.toNat]? = some inside

section Line

variable {line : Text}

/-- The quotation that an address names stands between pieces of the line. -/
theorem Names.exists_split {a : TagLineAddress} {inside : Text} (h : Names line a inside) :
    ∃ done own behind, pieces quotation? line = done ++ .token inside own :: behind ∧
      a.ordinal = (Piece.tokenCount done : Int) ∧
      quotationSpan? line a = some ((done.flatMap Piece.raw).length,
        (done.flatMap Piece.raw).length + own.length) := by
  obtain ⟨done, own, behind, hpieces, hcount⟩ := Piece.exists_split_of_value? h.found
  refine ⟨done, own, behind, hpieces, ?_, ?_⟩
  · rw [hcount, Int.toNat_of_nonneg h.ordinal]
  · have hspan : (line.spans quotation?)[a.ordinal.toNat]? =
        some (0 + (done.flatMap Piece.raw).length,
          0 + (done.flatMap Piece.raw).length + own.length, inside) := by
      rw [Text.spans, hpieces, ← hcount]
      exact Piece.getElem?_spansFrom 0 done behind inside own
    rw [quotationSpan?, hspan, Option.map_some, Nat.zero_add]

/-- The quotations of later addresses stand behind those of earlier ones. -/
theorem quotationSpan?_mono {a b : TagLineAddress} (ha : 0 ≤ a.ordinal)
    (hab : a.ordinal < b.ordinal) {start stop start' stop' : Nat}
    (hspan : quotationSpan? line a = some (start, stop))
    (hspan' : quotationSpan? line b = some (start', stop')) : stop ≤ start' := by
  obtain ⟨⟨_, _, v⟩, hget, heq⟩ := Option.map_eq_some_iff.mp hspan
  obtain ⟨⟨_, _, v'⟩, hget', heq'⟩ := Option.map_eq_some_iff.mp hspan'
  cases heq
  cases heq'
  obtain ⟨hlt, hget⟩ := List.getElem?_eq_some_iff.mp hget
  obtain ⟨hlt', hget'⟩ := List.getElem?_eq_some_iff.mp hget'
  have hordered : (line.spans quotation?).Pairwise fun a b => a.2.1 ≤ b.1 :=
    Piece.spansFrom_pairwise 0 _
  have hle := List.pairwise_iff_getElem.mp hordered _ _ hlt hlt' (by omega)
  rwa [hget, hget'] at hle

/-- At the span of the quotation stand its marks with the text between them. -/
theorem Names.slice_eq {a : TagLineAddress} {inside : Text} (h : Names line a inside) :
    ∃ start stop, quotationSpan? line a = some (start, stop) ∧
      (line.take stop).drop start = '「' :: (inside ++ ['」']) := by
  obtain ⟨done, own, behind, hpieces, -, hspan⟩ := h.exists_split
  refine ⟨_, _, hspan, ?_⟩
  have hmem : .token inside own ∈ pieces quotation? line := by
    rw [hpieces]
    exact List.mem_append_right _ List.mem_cons_self
  have hown := (raw_of_quotation_mem hmem).1
  have hslice := Text.take_drop_middle (done.flatMap Piece.raw) own (behind.flatMap Piece.raw)
  rw [← hown, ← flatMap_raw_pieces quotation?_cuts line, hpieces, List.flatMap_append,
    List.flatMap_cons]
  exact hslice

/-- The replacements of rows in the order of their ordinals stand one after another. -/
theorem quotationReplacements_pairwise {rows : List (TagLineAddress × Text)}
    (hrows : ∀ row ∈ rows, ∃ inside, Names line row.1 inside)
    (hordered : rows.Pairwise fun a b => a.1.ordinal < b.1.ordinal) :
    (rows.filterMap (quotationReplacement? line)).Pairwise fun a b => a.stop ≤ b.start := by
  apply List.Pairwise.filterMap _ _ (List.Pairwise.and_mem.mp hordered)
  rintro a b ⟨ha, -, hlt⟩ r hr r' hr'
  obtain ⟨inside, hnamed⟩ := hrows a ha
  obtain ⟨⟨start, stop⟩, hspan, rfl⟩ := Option.map_eq_some_iff.mp hr
  obtain ⟨⟨start', stop'⟩, hspan', rfl⟩ := Option.map_eq_some_iff.mp hr'
  exact quotationSpan?_mono hnamed.ordinal hlt hspan hspan'

/-- One edit, made after those of the quotations behind it, finds its quotation where it stood. -/
theorem rebuild_quotation_at {done : List (Piece Text)} {inside own : Text} {a : TagLineAddress}
    (hkind : a.kind = .quotation) (hordinal : a.ordinal = (Piece.tokenCount done : Int))
    (hdone : ∀ p ∈ done, quotation?.Firm p) (hown : quotation?.Firm (.token inside own))
    (text rest : Text) :
    rebuild a text (done.flatMap Piece.raw ++ (own ++ rest)) =
      done.flatMap Piece.raw ++ (quoted text ++ rest) := by
  rw [rebuild, hkind]
  dsimp only
  rw [hordinal]
  exact Text.mapNthToken_firm quotation?_cuts quotation?_blind hdone hown _ rest

/-- The replacements of rows behind an address stand behind its quotation. -/
theorem behind_of_mem_replacements {rows : List (TagLineAddress × Text)}
    (hrows : ∀ row ∈ rows, ∃ inside, Names line row.1 inside) {a : TagLineAddress}
    (ha : 0 ≤ a.ordinal) (hbehind : ∀ row ∈ rows, a.ordinal < row.1.ordinal) {start stop : Nat}
    (hspan : quotationSpan? line a = some (start, stop)) {r : Replacement}
    (hr : r ∈ rows.filterMap (quotationReplacement? line)) : r.start < r.stop ∧ stop ≤ r.start := by
  obtain ⟨row, hrow, hmade⟩ := List.mem_filterMap.mp hr
  obtain ⟨inside, hnames⟩ := hrows row hrow
  obtain ⟨done, own, behind, hpieces, -, hspan'⟩ := hnames.exists_split
  have hle := quotationSpan?_mono ha (hbehind row hrow) hspan hspan'
  have hmem : .token inside own ∈ pieces quotation? line := by
    rw [hpieces]
    exact List.mem_append_right _ List.mem_cons_self
  have hpos : 0 < own.length := List.length_pos_iff.mpr (firm_quotation hmem).1
  rw [quotationReplacement?, hspan'] at hmade
  cases hmade
  exact ⟨Nat.lt_add_of_pos_right hpos, hle⟩

/-- **The edits of a line's quotations, made from the last to the first, are made at once.** -/
theorem foldr_rebuild (hline : '\n' ∉ line) {rows : List (TagLineAddress × Text)}
    (hrows : ∀ row ∈ rows, ∃ inside, Names line row.1 inside)
    (hordered : rows.Pairwise fun a b => a.1.ordinal < b.1.ordinal) :
    rows.foldr (fun row body => rebuild row.1 row.2 body) line =
      line.replaceSpans (rows.filterMap (quotationReplacement? line)) := by
  induction rows with
  | nil => exact (Text.replaceSpans_nil line).symm
  | cons row rows ih =>
    obtain ⟨hbehind, hordered⟩ := List.pairwise_cons.mp hordered
    have hlater : ∀ row ∈ rows, ∃ inside, Names line row.1 inside :=
      fun r hr => hrows r (List.mem_cons_of_mem _ hr)
    obtain ⟨inside, hnames⟩ := hrows row List.mem_cons_self
    obtain ⟨done, own, behind, hpieces, hordinal, hspan⟩ := hnames.exists_split
    have hmem : .token inside own ∈ pieces quotation? line := by
      rw [hpieces]
      exact List.mem_append_right _ List.mem_cons_self
    have hown := firm_quotation hmem
    have hsplit : line = done.flatMap Piece.raw ++ (own ++ behind.flatMap Piece.raw) := by
      rw [← flatMap_raw_pieces quotation?_cuts line, hpieces, List.flatMap_append,
        List.flatMap_cons]
      rfl
    have hothers := fun r => behind_of_mem_replacements hlater hnames.ordinal hbehind hspan (r := r)
    have hreplacement : quotationReplacement? line row =
        some ⟨(done.flatMap Piece.raw).length, (done.flatMap Piece.raw).length + own.length,
          quoted row.2⟩ := by
      rw [quotationReplacement?, hspan]
      rfl
    rw [List.foldr_cons, ih hlater hordered, List.filterMap_cons, hreplacement]
    generalize rows.filterMap (quotationReplacement? line) = others at hothers ⊢
    have hfront : Text.replaceSpans others line = done.flatMap Piece.raw ++ (own ++
        Text.replaceSpansFrom others ((done.flatMap Piece.raw).length + own.length)
          (behind.flatMap Piece.raw)) := by
      rw [hsplit, ← List.append_assoc, Text.replaceSpans_front, List.append_assoc,
        List.length_append]
      rwa [List.length_append]
    rw [hfront, rebuild_quotation_at hnames.kind hordinal (firm_of_split hline hpieces) hown,
      hsplit]
    symm
    exact Text.replaceSpans_cons_first rfl rfl hown.1 hothers

/-! ## The units of a line -/

/-- A shape that gives at most one unit has its ordinals in order. -/
theorem ordered_of_length_le {us : List LineUnit} (h : us.length ≤ 1) :
    us.Pairwise fun u v => u.2.ordinal < v.2.ordinal := by
  match us, h with
  | [], _ => exact List.Pairwise.nil
  | [u], _ => exact List.pairwise_singleton _ u

theorem length_centerUnits_le (number : Int) (kind : TagLineKind) :
    (centerUnits number line kind).length ≤ 1 := by
  rw [centerUnits]
  split
  · exact Nat.zero_le 1
  · exact Nat.le_refl 1

/-- The quotations that are units keep their ordinals among all quotations of the line. -/
theorem ordered_of_quotation {number : Int} {us : List LineUnit}
    (h : quotationUnits? number line = some us) :
    us.Pairwise fun u v => u.2.ordinal < v.2.ordinal := by
  rw [quotationUnits?] at h
  split at h
  next => cases h
  next =>
    cases h
    have hcount : ((line.tokens quotation?).zipIdx).Pairwise fun a b => a.2 < b.2 := by
      rw [← List.pairwise_map (f := Prod.snd) (R := (· < ·)), List.zipIdx_map_snd]
      exact List.pairwise_lt_range'
    refine List.Pairwise.filterMap _ ?_ hcount
    rintro ⟨inside, m⟩ ⟨inside', n⟩ hlt u hu v hv
    dsimp only at hu hv
    split at hu
    next => cases hu
    split at hv
    next => cases hv
    cases hu
    cases hv
    exact Int.ofNat_lt.mpr hlt

/-- **The ordinals of a line's units increase.** -/
theorem lineUnits_ordered (number : Int) (line : Text) :
    (lineUnits number line).Pairwise fun u v => u.2.ordinal < v.2.ordinal := by
  rw [lineUnits]
  cases heval : evaluationUnits? number line with
  | some us =>
    apply ordered_of_length_le
    obtain ⟨found, -, rfl⟩ := Option.map_eq_some_iff.mp heval
    dsimp only
    split <;> simp
  | none =>
  cases hattr : attributeUnits? number line with
  | some us =>
    apply ordered_of_length_le
    obtain ⟨found, -, rfl⟩ := Option.map_eq_some_iff.mp hattr
    split <;> simp
  | none =>
  cases hemb : embeddedUnits? number line with
  | some us =>
    apply ordered_of_length_le
    obtain ⟨-, heq⟩ := Option.ite_none_right_eq_some.mp hemb
    cases heq
    exact length_centerUnits_le number _
  | none =>
  cases hname : nameUnits? number line with
  | some us =>
    apply ordered_of_length_le
    obtain ⟨-, heq⟩ := Option.ite_none_right_eq_some.mp hname
    cases heq
    exact length_centerUnits_le number _
  | none =>
  cases hquotation : quotationUnits? number line with
  | some us => exact ordered_of_quotation hquotation
  | none =>
  cases hbare : bareUnits? number line with
  | some us =>
    apply ordered_of_length_le
    simp only [bareUnits?] at hbare
    repeat' split at hbare
    all_goals cases hbare
    exact Nat.le_refl 1
  | none => exact List.Pairwise.nil

/-- The address of a quotation names it. -/
theorem UnitOf.names {number : Int} {u : LineUnit} (h : UnitOf number line u)
    (hkind : u.2.kind = .quotation) : Names line u.2 u.1 := by
  cases h with
  | evaluation => cases hkind
  | attributed => cases hkind
  | quotation found => exact ⟨rfl, Int.natCast_nonneg _, found⟩
  | center shape => rcases shape with rfl | rfl | rfl <;> cases hkind

/-- What is written ends in a closing mark, so a carriage return at the end is the line's own. -/
theorem getLast?_rebuild_quotation {a : TagLineAddress} (hkind : a.kind = .quotation) {text : Text}
    (h : (rebuild a text line).getLast? = some '\r') : line.getLast? = some '\r' := by
  rw [rebuild, hkind] at h
  dsimp only at h
  rw [Text.mapNthToken] at h
  have hraw := flatMap_raw_pieces quotation?_cuts line
  split at h
  next => exact h
  next =>
    rcases Piece.mapNth_eq_self_or a.ordinal.toNat (fun _ _ => quoted text)
      (pieces quotation? line) with hsame | ⟨before, v, own, after, hpieces, hwritten⟩
    · rwa [← hraw, ← hsame]
    · have hend : (before.flatMap Piece.raw ++ (quoted text ++ after.flatMap Piece.raw)).getLast? =
          some '\r' := hwritten ▸ h
      rw [hpieces, List.flatMap_append, List.flatMap_cons] at hraw
      rw [← hraw]
      rw [List.getLast?_append, List.getLast?_append] at hend ⊢
      cases hafter : (after.flatMap Piece.raw).getLast? with
      | some c =>
        rw [hafter] at hend
        exact hend
      | none =>
        have hclosed : (quoted text).getLast? = some '」' := List.getLast?_concat ..
        rw [hafter, hclosed] at hend
        cases hend

end Line

/-! ## The whole scenario -/

section Scenario

variable {macroTexts : Bool} {source : Text} {n : Nat} {l : Line}

/-- The rows of a line have the addresses of its units, in order. -/
theorem map_fst_rows_of_line (units : List LineUnit) (edits : Edits) (n : Nat) :
    ((Edits.rows (units.map (·.2)) edits).filter fun row => row.1.line = (n : Int)).map (·.1) =
      (units.filter fun u => u.2.line = (n : Int)).map (·.2) := by
  have hrows := List.filter_map (f := fun row : TagLineAddress × Text => row.1)
    (p := fun a => decide (a.line = (n : Int))) (l := Edits.rows (units.map (·.2)) edits)
  have hunits := List.filter_map (f := fun u : LineUnit => u.2)
    (p := fun a => decide (a.line = (n : Int))) (l := units)
  rw [Edits.rows_fst] at hrows
  exact hrows.symm.trans hunits

theorem extract_ordered (hl : source.lines[n]? = some l) :
    ((extract macroTexts source).filter fun u => u.2.line = (n : Int)).Pairwise
      fun u v => u.2.ordinal < v.2.ordinal := by
  by_cases hsome : ∃ u ∈ extract macroTexts source, u.2.line = (n : Int)
  · obtain ⟨u, hu, hnumber⟩ := hsome
    rw [filter_extract_eq hu hnumber hl]
    exact lineUnits_ordered _ _
  · have hnone : (extract macroTexts source).filter (fun u => u.2.line = (n : Int)) = [] :=
      List.filter_eq_nil_iff.mpr fun u hu hline => hsome ⟨u, hu, of_decide_eq_true hline⟩
    rw [hnone]
    exact List.Pairwise.nil

/-- A unit addressed to a line whose units are quotations names one of them. -/
theorem names_of_mem_extract (hl : source.lines[n]? = some l) {u : LineUnit}
    (hu : u ∈ extract macroTexts source) (hnumber : u.2.line = (n : Int))
    (hkind : u.2.kind = .quotation) : Names l.body u.2 u.1 := by
  obtain ⟨number, l', hl', hline, hunit⟩ := exists_line_of_mem_extract hu
  rw [hnumber, Int.natCast_inj] at hline
  subst hline
  rw [hl] at hl'
  cases hl'
  exact hunit.names hkind

/-- On a line whose units are quotations, each row of an edit names one of them. -/
theorem names_of_mem_rows (hl : source.lines[n]? = some l)
    (quotations : ∀ u ∈ extract macroTexts source, u.2.line = (n : Int) → u.2.kind = .quotation)
    {edits : Edits} {row : TagLineAddress × Text}
    (hrow : row ∈ (Edits.rows ((extract macroTexts source).map (·.2)) edits).filter
      fun row => row.1.line = (n : Int)) : ∃ inside, Names l.body row.1 inside := by
  have hmem := map_fst_rows_of_line (extract macroTexts source) edits n ▸
    List.mem_map_of_mem (f := fun row : TagLineAddress × Text => row.1) hrow
  obtain ⟨u, hu, heq⟩ := List.mem_map.mp hmem
  obtain ⟨hu, hnumber⟩ := List.mem_filter.mp hu
  have hnumber := of_decide_eq_true hnumber
  rw [← heq]
  exact ⟨u.1, names_of_mem_extract hl hu hnumber (quotations u hu hnumber)⟩

/-- The rows of a line stand in the order of their ordinals. -/
theorem rows_of_line_ordered (hl : source.lines[n]? = some l) (edits : Edits) :
    ((Edits.rows ((extract macroTexts source).map (·.2)) edits).filter
      fun row => row.1.line = (n : Int)).Pairwise fun a b => a.1.ordinal < b.1.ordinal := by
  have hunits : (((extract macroTexts source).filter fun u => u.2.line = (n : Int)).map
      fun u => u.2.ordinal).Pairwise (· < ·) := List.pairwise_map.mpr (extract_ordered hl)
  have hordinals := congrArg (List.map TagLineAddress.ordinal)
    (map_fst_rows_of_line (extract macroTexts source) edits n)
  rw [List.map_map, List.map_map] at hordinals
  exact List.pairwise_map.mp (hordinals ▸ hunits)

/-- Reinsertion at addresses of the scenario edits the lines from the last row to the first. -/
theorem lines_reinsert_extract (edits : Edits) :
    (reinsert source ((extract macroTexts source).map (·.2)) edits).lines =
      ((Edits.rows ((extract macroTexts source).map (·.2)) edits).foldr
        (fun row ls => Script.editLineAt (rebuild row.1 row.2) row.1.line ls)
        source.lines).map Line.settled := by
  have hclean : ∀ row ∈ Edits.rows ((extract macroTexts source).map (·.2)) edits, ∀ body,
      '\n' ∉ body → '\n' ∉ rebuild row.1 row.2 body := by
    intro row hrow body hbody
    obtain ⟨u, hu, heq⟩ := List.mem_map.mp (Edits.fst_mem_of_mem_rows hrow)
    obtain ⟨number, l', -, -, hunit⟩ := exists_line_of_mem_extract hu
    rw [← heq]
    exact not_mem_rebuild (.inl rfl) hunit (Text.flattens_newline row.2) hbody
  have hlines := Script.lines_ofLines_foldr (fun row : TagLineAddress × Text => row.1.line)
    (fun row => rebuild row.1 row.2) hclean source
  have hreinsert : reinsert source ((extract macroTexts source).map (·.2)) edits =
      Text.ofLines ((Edits.rows ((extract macroTexts source).map (·.2)) edits).foldr
        (fun row ls => Script.editLineAt (rebuild row.1 row.2) row.1.line ls) source.lines) := by
    rw [Edits.rows, List.foldr_map]
    rfl
  rw [hreinsert, hlines]

/-- **The quotations of a KAG line are edited at once.** On a line whose units are quotations, the
addresses of an extraction name the spans at which the extracted texts stand between marks; the
spans stand one after another; and reinsertion puts each edit, between marks and with its line
breaks inlined, in the place of its span and leaves every other character of the line. -/
theorem reinsert_quotations_at_once (hl : source.lines[n]? = some l)
    (quotations : ∀ u ∈ extract macroTexts source, u.2.line = (n : Int) → u.2.kind = .quotation)
    (edits : Edits) :
    let mapping := (extract macroTexts source).map (·.2)
    let rows := (Edits.rows mapping edits).filter fun row => row.1.line = (n : Int)
    let replacements := rows.filterMap (quotationReplacement? l.body)
    (∀ u ∈ extract macroTexts source, u.2.line = (n : Int) →
      ∃ start stop, quotationSpan? l.body u.2 = some (start, stop) ∧
        (l.body.take stop).drop start = '「' :: (u.1 ++ ['」'])) ∧
      (replacements.Pairwise fun a b => a.stop ≤ b.start) ∧
      (reinsert source mapping edits).lines[n]? =
        some { l with body := l.body.replaceSpans replacements } := by
  intro mapping rows replacements
  have hline : '\n' ∉ l.body :=
    (Text.wellCut_lines source).newline_not_mem l (List.mem_of_getElem? hl)
  have hnames : ∀ row ∈ rows, ∃ inside, Names l.body row.1 inside :=
    fun _ hrow => names_of_mem_rows hl quotations hrow
  have hordered : rows.Pairwise fun a b => a.1.ordinal < b.1.ordinal :=
    rows_of_line_ordered hl edits
  refine ⟨?_, quotationReplacements_pairwise hnames hordered, ?_⟩
  · intro u hu hnumber
    exact (names_of_mem_extract hl hu hnumber (quotations u hu hnumber)).slice_eq
  · have hfolded := foldr_rebuild hline hnames hordered
    have hends : l.ending = ['\n'] → (l.body.replaceSpans replacements).getLast? ≠ some '\r' := by
      intro hending
      rw [← hfolded]
      refine List.foldrRecOn (motive := fun body : Text => body.getLast? ≠ some '\r') _ _
        (Text.getLast?_ne_return (List.mem_of_getElem? hl) hending) ?_
      intro body hbody row hrow hreturn
      obtain ⟨inside, hnamed⟩ := hnames row hrow
      exact hbody (getLast?_rebuild_quotation hnamed.kind hreturn)
    rw [lines_reinsert_extract, List.getElem?_map, Script.foldr_editLineAt_getElem?, hl,
      Option.map_some, Option.map_some, hfolded, Text.settled_of_getLast? hends]

/-- Two quotations with one between them that is no text, edited with marks and a line break, and
not at all. -/
theorem marks_and_breaks_written_at_once :
    let source : Text := "a「あ」「§」b「い」c「\r\nx".toList
    let edits : Edits := [some "x」「y\nz".toList, none]
    source.lines[0]? = some ⟨"a「あ」「§」b「い」c「".toList, ['\r', '\n']⟩ ∧
      (extract true source).map (·.1) = ["あ".toList, "い".toList] ∧
      (reinsert source ((extract true source).map (·.2)) edits).lines[0]? =
        some ⟨"a「x」「y[r]z」「§」b「」c「".toList, ['\r', '\n']⟩ := by
  intro source edits
  have hl : source.lines[0]? = some ⟨"a「あ」「§」b「い」c「".toList, ['\r', '\n']⟩ := by
    decide +kernel
  have hextract : extract true source =
      [("あ".toList, { line := 0, kind := .quotation, ordinal := 0, quote := ['「'] }),
        ("い".toList, { line := 0, kind := .quotation, ordinal := 2, quote := ['「'] })] := by
    decide +kernel
  have hquotations : ∀ u ∈ extract true source, u.2.line = ((0 : Nat) : Int) →
      u.2.kind = .quotation := by
    rw [hextract]
    decide +kernel
  obtain ⟨-, -, hwritten⟩ := reinsert_quotations_at_once hl hquotations edits
  refine ⟨hl, by rw [hextract]; rfl, hwritten.trans ?_⟩
  rw [hextract]
  decide +kernel

end Scenario

end Kag

end GameText
