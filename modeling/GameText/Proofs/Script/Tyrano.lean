import GameText.Proofs.Edits
import GameText.Proofs.Script.LineEdit
import GameText.Proofs.Text.TagRuns
import GameText.Script.Tyrano

/-!
# A Tyrano scenario written back

A line has one unit at most, and its address has the rest of the line in two parts. Writing edited
texts back therefore puts each of them between the two parts of its own line and touches nothing else
(`rebuilt_reinsert`); with the extracted texts the scenario comes back (`reinsert_own_texts`).
-/

namespace GameText

namespace Tyrano

/-! ## The units of a scenario -/

/-- A unit of a scenario is the prose of a line, with the rest of the line in its address. -/
theorem exists_line_of_mem_extract {source : Text} {u : Text × ProseAddress}
    (h : u ∈ extract source) :
    ∃ (number : Nat) (l : Line), source.lines[number]? = some l ∧ u.2.line = (number : Int) ∧
      l.body = u.2.lead ++ u.1 ++ u.2.tail := by
  obtain ⟨⟨line, number⟩, hline, hunit⟩ := List.mem_filterMap.mp h
  have hget := List.mk_mem_zipIdx_iff_getElem?.mp hline
  rw [List.getElem?_map] at hget
  obtain ⟨l, hl, rfl⟩ := Option.map_eq_some_iff.mp hget
  obtain ⟨-, hu⟩ := Option.ite_none_right_eq_some.mp hunit
  cases hu
  exact ⟨number, l, hl, rfl, (TagRuns.text_ofLine l.body).symm⟩

/-- The line number that a unit has is the one of the line that it was taken from. -/
theorem line_of_lineUnit? {line : Text} {number : Nat} {u : Text × ProseAddress}
    (h : lineUnit? line number = some u) : u.2.line = (number : Int) := by
  obtain ⟨-, hu⟩ := Option.ite_none_right_eq_some.mp h
  cases hu
  rfl

/-- No line has two units. -/
theorem nodup_lines (source : Text) : ((extract source).map (·.2.line)).Nodup := by
  have hdistinct : (Script.numbered source).Pairwise fun row row' => row.2 ≠ row'.2 := by
    have hnumbers : ((Script.numbered source).map (·.2)).Nodup := by
      rw [Script.numbered, List.zipIdx_map_snd]
      exact List.nodup_range'
    exact List.pairwise_map.mp hnumbers
  refine List.pairwise_map.mpr (List.pairwise_filterMap.mpr (hdistinct.imp ?_))
  intro row row' hne u hu u' hu' hsame
  rw [line_of_lineUnit? hu, line_of_lineUnit? hu', Int.natCast_inj] at hsame
  exact hne hsame

/-! ## Writing edited texts -/

/-- Lines in which each unit's line was made anew around its edited text, and every other line is as
it was. Terminators stay. -/
structure Rebuilt (before : List Line) (units : List (Text × ProseAddress)) (edits : Edits)
    (after : List Line) : Prop where
  count : after.length = before.length
  mapped : ∀ i u, units[i]? = some u → ∃ (number : Nat) (l : Line), u.2.line = (number : Int) ∧
    before[number]? = some l ∧ l.body = u.2.lead ++ u.1 ++ u.2.tail ∧
    after[number]? = some
      ⟨u.2.lead ++ Text.inlineBreaks breakTag (edits.at i) ++ u.2.tail, l.ending⟩
  others : ∀ number : Nat, (number : Int) ∉ units.map (·.2.line) → after[number]? = before[number]?

/-- The scenario's lines with edited texts at the addresses of its units. -/
def linesWith (source : Text) (edits : Edits) : List Line :=
  (Edits.rows ((extract source).map (·.2)) edits).reverse.foldr
    (fun row ls => Script.editLineAt (fun _ => rebuild row.1 row.2) row.1.line ls) source.lines

theorem reinsert_eq (source : Text) (edits : Edits) :
    reinsert source ((extract source).map (·.2)) edits = Text.ofLines (linesWith source edits) := by
  rw [linesWith, List.foldr_reverse, Edits.rows, List.foldl_map]
  rfl

theorem linesWith_getElem? (source : Text) (edits : Edits) (number : Nat) :
    (linesWith source edits)[number]? = source.lines[number]?.map fun l =>
      { l with body := ((Edits.rows ((extract source).map (·.2)) edits).reverse.filter
          fun row => row.1.line = (number : Int)).foldr (fun row _ => rebuild row.1 row.2) l.body } :=
  Script.foldr_editLineAt_getElem? (fun row : ProseAddress × Text => row.1.line)
    (fun row _ => rebuild row.1 row.2) _ _ _

/-- The row of a unit is the only one with its line. -/
theorem filter_rows {source : Text} (edits : Edits) {i : Nat} {u : Text × ProseAddress}
    (hu : (extract source)[i]? = some u) :
    (Edits.rows ((extract source).map (·.2)) edits).reverse.filter
      (fun row => row.1.line = u.2.line) = [(u.2, edits.at i)] := by
  have hrow : (Edits.rows ((extract source).map (·.2)) edits)[i]? = some (u.2, edits.at i) := by
    rw [Edits.getElem?_rows, List.getElem?_map, hu]
    rfl
  have hlines : ((Edits.rows ((extract source).map (·.2)) edits).map (·.1.line)).Nodup := by
    have h := congrArg (List.map ProseAddress.line)
      (Edits.rows_fst ((extract source).map (·.2)) edits)
    rw [List.map_map, List.map_map] at h
    exact h ▸ nodup_lines source
  rw [List.filter_reverse,
    Script.filter_eq_of_nodup (fun row : ProseAddress × Text => row.1.line) hlines
      (List.mem_of_getElem? hrow)]
  rfl

/-- **Each edited text stands between the two parts of its line**, whatever the edits are, and every
other line is as it was. -/
theorem rebuilt_linesWith (source : Text) (edits : Edits) :
    Rebuilt source.lines (extract source) edits (linesWith source edits) where
  count := by
    have hends := congrArg List.length (Script.map_ending_foldr_editLineAt
      (fun row : ProseAddress × Text => row.1.line) (fun row _ => rebuild row.1 row.2)
      (Edits.rows ((extract source).map (·.2)) edits).reverse source.lines)
    rwa [List.length_map, List.length_map] at hends
  mapped := by
    intro i u hu
    obtain ⟨number, l, hl, hnumber, hbody⟩ := exists_line_of_mem_extract (List.mem_of_getElem? hu)
    have hfilter := filter_rows edits hu
    rw [hnumber] at hfilter
    refine ⟨number, l, hnumber, hl, hbody, ?_⟩
    rw [linesWith_getElem?, hl, hfilter]
    rfl
  others := by
    intro number hnumber
    have hnone : (Edits.rows ((extract source).map (·.2)) edits).reverse.filter
        (fun row => row.1.line = (number : Int)) = [] := by
      refine List.filter_eq_nil_iff.mpr fun row hrow hline => hnumber ?_
      have hmapped := Edits.fst_mem_of_mem_rows (List.mem_reverse.mp hrow)
      obtain ⟨u, hu, haddress⟩ := List.mem_map.mp hmapped
      refine List.mem_map.mpr ⟨u, hu, ?_⟩
      rw [haddress]
      exact of_decide_eq_true hline
    rw [linesWith_getElem?, hnone]
    cases source.lines[number]? <;> rfl

/-- With the extracted texts every line is as it was. -/
theorem linesWith_own (source : Text) :
    linesWith source (Edits.own (extract source)) = source.lines := by
  have hrebuilt := rebuilt_linesWith source (Edits.own (extract source))
  refine List.ext_getElem? fun number => ?_
  by_cases hmapped : (number : Int) ∈ (extract source).map (·.2.line)
  · obtain ⟨u, hu, hline⟩ := List.mem_map.mp hmapped
    obtain ⟨i, hi⟩ := List.mem_iff_getElem?.mp hu
    obtain ⟨number', l, hnumber', hl, hbody, hafter⟩ := hrebuilt.mapped i u hi
    obtain rfl : number' = number := Int.natCast_inj.mp (hnumber'.symm.trans hline)
    have hown : (Edits.own (extract source)).at i = u.1 := by
      obtain ⟨hlt, hget⟩ := List.getElem?_eq_some_iff.mp hi
      rw [Edits.at_own hlt, hget]
    have hclean : '\n' ∉ u.1 := by
      have hline := (Text.wellCut_lines source).newline_not_mem l (List.mem_of_getElem? hl)
      rw [hbody] at hline
      exact fun hmem => hline (List.mem_append_left _ (List.mem_append_right _ hmem))
    rw [hafter, hown, Text.inlineBreaks_of_not_mem _ hclean, ← hbody, hl]
  · exact hrebuilt.others number hmapped

/-- **A scenario written back with its own texts** is the scenario. -/
theorem reinsert_own_texts (source : Text) :
    reinsert source ((extract source).map (·.2)) (Edits.own (extract source)) = source := by
  rw [reinsert_eq, linesWith_own, Text.ofLines_lines]

end Tyrano

end GameText
